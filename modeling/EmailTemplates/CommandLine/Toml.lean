import EmailTemplates.Json.Basic
import EmailTemplates.Text.Hex

namespace EmailTemplates.Toml

open EmailTemplates.Text (hexNumber?)

def isSpace (c : Char) : Bool :=
  c == ' ' || c == '\t'

def skipSpace (cs : List Char) : List Char :=
  cs.dropWhile isSpace

def isControl (c : Char) : Bool :=
  (c.toNat < 0x20 && c != '\t') || c == '\x7f'

def isKeyChar (c : Char) : Bool :=
  c.isAlphanum || c == '_' || c == '-'

def scalar? (n : Nat) : Option Char :=
  if n < 0xD800 ∨ (0xDFFF < n ∧ n < 0x110000) then some (.ofNat n) else none

def escaped? : Char → Option Char
  | 'b' => some '\x08'
  | 't' => some '\t'
  | 'n' => some '\n'
  | 'f' => some '\x0c'
  | 'r' => some '\r'
  | '"' => some '"'
  | '\\' => some '\\'
  | _ => none

def basicString : List Char → Option (List Char × List Char)
  | [] => none
  | '"' :: cs => some ([], cs)
  | '\\' :: 'u' :: a :: b :: c :: d :: cs => do
    let x ← scalar? (← hexNumber? [a, b, c, d])
    let (text, rest) ← basicString cs
    return (x :: text, rest)
  | '\\' :: 'U' :: a :: b :: c :: d :: e :: f :: g :: h :: cs => do
    let x ← scalar? (← hexNumber? [a, b, c, d, e, f, g, h])
    let (text, rest) ← basicString cs
    return (x :: text, rest)
  | '\\' :: c :: cs => do
    let x ← escaped? c
    let (text, rest) ← basicString cs
    return (x :: text, rest)
  | c :: cs =>
    if c == '\\' || isControl c then none
    else (basicString cs).map fun (text, rest) => (c :: text, rest)

def literalString : List Char → Option (List Char × List Char)
  | [] => none
  | '\'' :: cs => some ([], cs)
  | c :: cs =>
    if isControl c then none
    else (literalString cs).map fun (text, rest) => (c :: text, rest)

def key (cs : List Char) : Option (String × List Char) :=
  match cs with
  | '"' :: cs => (basicString cs).map fun (text, rest) => (.ofList text, rest)
  | '\'' :: cs => (literalString cs).map fun (text, rest) => (.ofList text, rest)
  | cs =>
    match cs.takeWhile isKeyChar with
    | [] => none
    | name => some (.ofList name, cs.dropWhile isKeyChar)

def isInteger : List Char → Bool
  | [] => false
  | [c] => c.isDigit
  | c :: '_' :: cs => c.isDigit && isInteger cs
  | c :: cs => c.isDigit && isInteger cs

def integer? (cs : List Char) : Option Json :=
  let digits := match cs with
    | '+' :: digits | '-' :: digits => digits
    | digits => digits
  if isInteger digits && (digits.head? != some '0' || digits == ['0']) then
    some (.number (.ofList cs))
  else none

def word? (cs : List Char) : Option Json :=
  if cs == "true".toList then some (.bool true)
  else if cs == "false".toList then some (.bool false)
  else integer? cs

def isWordChar (c : Char) : Bool :=
  isKeyChar c || c == '+'

def add (members : List (String × Json)) (name : String) (value : Json) :
    Option (List (String × Json)) :=
  if members.any (·.1 == name) then none else some (members ++ [(name, value)])

mutual

def value : (fuel : Nat) → List Char → Option (Json × List Char)
  | 0, _ => none
  | fuel + 1, cs =>
    match cs with
    | '"' :: rest => (basicString rest).map fun (text, rest) => (.string (.ofList text), rest)
    | '\'' :: rest => (literalString rest).map fun (text, rest) => (.string (.ofList text), rest)
    | '{' :: rest =>
      match skipSpace rest with
      | '}' :: rest => some (.object [], rest)
      | rest => (inlineTable fuel [] rest).map fun (members, rest) => (.object members, rest)
    | cs => (word? (cs.takeWhile isWordChar)).map fun j => (j, cs.dropWhile isWordChar)

def inlineTable : (fuel : Nat) → List (String × Json) → List Char →
    Option (List (String × Json) × List Char)
  | 0, _, _ => none
  | fuel + 1, members, cs => do
    let (name, rest) ← key (skipSpace cs)
    match skipSpace rest with
    | '=' :: rest =>
      let (v, rest) ← value fuel (skipSpace rest)
      let members ← add members name v
      match skipSpace rest with
      | ',' :: rest => inlineTable fuel members rest
      | '}' :: rest => return (members, rest)
      | _ => none
    | _ => none

end

def isLineEnd (cs : List Char) : Bool :=
  match skipSpace cs with
  | [] => true
  | '#' :: comment => !comment.any isControl
  | _ => false

inductive Line where
  | empty
  | heading (name : String)
  | entry (name : String) (value : Json)

def line? (cs : List Char) : Option Line :=
  match skipSpace cs with
  | [] => some .empty
  | '#' :: comment => if comment.any isControl then none else some .empty
  | '[' :: rest => do
    let (name, rest) ← key (skipSpace rest)
    match skipSpace rest with
    | ']' :: rest => if isLineEnd rest then some (.heading name) else none
    | _ => none
  | cs => do
    let (name, rest) ← key cs
    match skipSpace rest with
    | '=' :: rest =>
      let (v, rest) ← value (rest.length + 1) (skipSpace rest)
      if isLineEnd rest then some (.entry name v) else none
    | _ => none

def lines : List Char → List (List Char)
  | [] => [[]]
  | '\r' :: '\n' :: cs => [] :: lines cs
  | '\n' :: cs => [] :: lines cs
  | c :: cs =>
    match lines cs with
    | [] => [[c]]
    | line :: rest => (c :: line) :: rest

structure Document where
  keys : List (String × Json)
  tables : List (String × List (String × Json))

def Document.addLine (d : Document) : Line → Option Document
  | .empty => some d
  | .heading name =>
    if d.keys.any (·.1 == name) || d.tables.any (·.1 == name) then none
    else some { d with tables := d.tables ++ [(name, [])] }
  | .entry name v =>
    match d.tables.getLast? with
    | none => return { d with keys := ← add d.keys name v }
    | some (heading, members) =>
      return { d with tables := d.tables.dropLast ++ [(heading, ← add members name v)] }

def parse? (text : String) : Option Json := do
  let lines ← (lines text.toList).mapM line?
  let d ← lines.foldlM Document.addLine ⟨[], []⟩
  return .object (d.keys ++ d.tables.map fun (name, members) => (name, .object members))

end EmailTemplates.Toml
