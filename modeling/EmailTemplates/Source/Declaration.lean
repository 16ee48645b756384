import EmailTemplates.Source.Quoted
import EmailTemplates.Text.Word

namespace EmailTemplates.Source

open EmailTemplates.Text (Slice isWord)

def isIndent (c : Char) : Bool :=
  c == ' ' || c == '\t'

def identifier : Slice.Reader Slice := fun s =>
  if s.chars.head?.any fun c => c.isAlpha || c == '_' then s.run isWord else none

structure Scalar where
  name : String
  raw : Slice
deriving DecidableEq, Repr

namespace Scalar

def value (x : Scalar) : String :=
  .ofList (Quoted.unescape x.raw.chars)

def span (x : Scalar) : Span :=
  x.raw.span

def isTypeChar (c : Char) : Bool :=
  isWord c || c == '<' || c == '>' || c == '[' || c == ']'

def skipType (s : Slice) : Option Slice :=
  match s.expect ':' with
  | none => some s
  | some s => do
    let s := s.skipBlanks
    let (_, s) ← if s.chars.head?.any fun c => c.isAlpha || c == '_' then s.run isTypeChar else none
    return s.skipBlanks

def read : Slice.Reader Scalar := fun s => do
  let s ← (s.dropWhile isIndent).expectText "export"
  let s ← (← s.skipBlanks?).expectText "const"
  let (name, s) ← identifier (← s.skipBlanks?)
  let s ← (← skipType s.skipBlanks).expect '='
  let (raw, rest) ← Quoted.read s.skipBlanks
  return (⟨name.toString, raw⟩, rest)

def readField : Slice.Reader Scalar := fun s => do
  let (name, s) ← identifier s
  let s ← s.skipBlanks.expect ':'
  let (raw, rest) ← Quoted.read s.skipBlanks
  return (⟨name.toString, raw⟩, rest)

def find? (scalars : List Scalar) (name : String) : Option Scalar :=
  scalars.find? (·.name == name)

end Scalar

def scalars (source : Slice) : List Scalar :=
  source.findAllInLines Scalar.read

def skipWordType (s : Slice) : Option Slice :=
  match s.expect ':' with
  | none => some s
  | some s => (s.skipBlanks.run isWord).map fun (_, s) => s.skipBlanks

namespace HeaderObject

def readStart : Slice.Reader Unit := fun s => do
  let s ← (← (← s.expectText "export").skipBlanks?).expectText "const"
  let s ← (← s.skipBlanks?).expectText "header"
  let s ← (← skipWordType s.skipBlanks).expect '='
  let s ← s.skipBlanks.expect '{'
  return ((), s)

def bodyLength : (quote : Option Char) → (depth : Nat) → List Char → Option Nat
  | _, _, [] => none
  | some quote, depth, c :: cs =>
    if c = '\\' then
      match cs with
      | [] => none
      | _ :: cs => (bodyLength (some quote) depth cs).map (· + 2)
    else (bodyLength (if c = quote then none else some quote) depth cs).map (· + 1)
  | none, depth, c :: cs =>
    if c = '\'' ∨ c = '"' ∨ c = '`' then (bodyLength (some c) depth cs).map (· + 1)
    else if c = '{' then (bodyLength none (depth + 1) cs).map (· + 1)
    else if c = '}' then
      match depth with
      | 0 => some 0
      | depth + 1 => (bodyLength none depth cs).map (· + 1)
    else (bodyLength none depth cs).map (· + 1)

end HeaderObject

def headerObject? (source : Slice) : Option (Slice × Slice) := do
  let (start, _, rest) ← source.find HeaderObject.readStart
  match HeaderObject.bodyLength none 0 rest.chars with
  | some n => return (start.before (rest.drop (n + 1)), rest.take n)
  | none => return (start, rest)

structure Member where
  name : String
  optional : Bool
  kind : Option Slice
deriving DecidableEq, Repr

namespace Member

def skipType (s : Slice) : Option Slice :=
  let isTypeChar (c : Char) : Bool := c != ';' && c != ',' && c != '\n'
  let blanks := s.takeWhile Text.isBlank
  let s := s.skipBlanks
  let rest := s.dropWhile isTypeChar
  let typed := (s.takeWhile isTypeChar).chars != [] || blanks.chars.getLast?.any (· != '\n')
  if typed then rest.expect ';' <|> rest.expect ',' else none

def readKind (s : Slice) : Option (Slice × Slice) := do
  let s ← s.expectText "//"
  (s.dropWhile isIndent).run fun c => isWord c || c == '-'

def read : Slice.Reader Member := fun s => do
  let (name, s) ← identifier (s.dropWhile isIndent)
  let (optional, s) := match s.expect '?' with
    | some s => (true, s)
    | none => (false, s)
  let s ← skipType (← s.skipBlanks.expect ':')
  let s := s.dropWhile isIndent
  match readKind s with
  | some (kind, rest) => return (⟨name.toString, optional, some kind⟩, rest)
  | none => return (⟨name.toString, optional, none⟩, s)

end Member

def readInterface : Slice.Reader Slice := fun s => do
  let s ← (← (← s.expectText "export").skipBlanks?).expectText "interface"
  let (_, s) ← (← s.skipBlanks?).run isWord
  (← s.skipBlanks.expect '{').splitAt? "\x7d"

def interfaceMembers? (source : Slice) : Option (List Member) :=
  (source.find readInterface).map fun (_, body, _) => body.findAllInLines Member.read

namespace ContentStart

def skipParameters (s : Slice) : Option Slice := do
  let (_, rest) ← (← s.expect '(').splitAt? ")"
  return rest.skipBlanks

def readFunction : Slice.Reader Unit := fun s => do
  let s ← (← (← s.expectText "function").skipBlanks?).expectText "renderContent"
  let s ← skipWordType (← skipParameters s.skipBlanks)
  let s ← (← s.expect '{').skipBlanks.expectText "return"
  return ((), ← s.skipBlanks.expect '`')

def readConstant : Slice.Reader Unit := fun s => do
  let s ← (← (← s.expectText "export").skipBlanks?).expectText "const"
  let s ← (← s.skipBlanks?).expectText "content"
  let s := (← s.skipBlanks.expect '=').skipBlanks
  let s := (do (← (← skipParameters s).expectText "=>").skipBlanks : Option Slice).getD s
  return ((), ← s.expect '`')

def read : Slice.Reader Unit := fun s =>
  readFunction s <|> readConstant s

end ContentStart

end EmailTemplates.Source
