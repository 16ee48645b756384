import EmailTemplates.Text.Slice
import EmailTemplates.Text.Word

namespace EmailTemplates.Source

open EmailTemplates.Text (Slice)

structure Tag where
  closing : Bool
  name : List Char
  selfClosing : Bool
deriving DecidableEq, Repr

namespace Tag

def isVoid (t : Tag) : Bool :=
  ["hr", "img", "br", "meta", "input"].contains (String.ofList t.name)

def endsName (s : Slice) : Bool :=
  match s.chars with
  | c :: _ => !Text.isWord c
  | [] => true

def upToAngle (s : Slice) : Option (Slice × Slice) :=
  let rest := s.dropWhile (· != '>')
  if rest.isEmpty then none else some (s.takeWhile (· != '>'), rest.drop 1)

def read : Slice.Reader Tag := fun s => do
  let s ← s.expect '<'
  let closing := s.chars.head? == some '/'
  let s := if closing then s.drop 1 else s
  if !s.chars.head?.any Char.isAlpha then none
  let (name, s) ← s.run Char.isAlphanum
  if !endsName s then none
  let (attributes, rest) ← upToAngle s
  return (⟨closing, name.chars.map Char.toLower, attributes.chars.getLast? == some '/'⟩, rest)

end Tag

namespace Attribute

def isNameChar (c : Char) : Bool :=
  c.isAlpha || c == '-'

def read : Slice.Reader (Slice × Slice) := fun s => do
  let (name, s) ← s.run isNameChar
  let s ← s.skipBlanks.expect '='
  let s ← s.skipBlanks.expect '"'
  let value := s.takeWhile (· != '"')
  let rest ← (s.dropWhile (· != '"')).expect '"'
  return ((name, value), rest)

def value? (name : String) (markup : List Char) : Option (List Char) :=
  ((Slice.findAll read ⟨0, markup⟩).find? fun (n, _) =>
    n.chars.map Char.toLower == name.toList).map fun (_, value) => value.chars

end Attribute

end EmailTemplates.Source
