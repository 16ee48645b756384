import EmailTemplates.Source.Tag

namespace EmailTemplates.Source

open EmailTemplates.Text (Slice)

inductive SegmentKind where
  | comment
  | text
  | element (tag : String) (closed : Bool)
deriving DecidableEq, Repr

structure Segment where
  kind : SegmentKind
  slice : Slice
deriving DecidableEq, Repr

namespace Segment

/-- What follows the closing tag of an element, within which `depth` elements of the same name
are open. -/
def afterClosing (name : List Char) (depth : Nat) (s : Slice) : Option Slice :=
  match s.find Tag.read with
  | none => none
  | some (_, tag, rest) =>
    if rest.chars.length < s.chars.length then
      if tag.name ≠ name ∨ tag.selfClosing then afterClosing name depth rest
      else if !tag.closing then afterClosing name (depth + 1) rest
      else match depth with
        | 0 => some rest
        | depth + 1 => afterClosing name depth rest
    else none
termination_by s.chars.length

def comment? (s : Slice) : Option (SegmentKind × Slice) :=
  if "<!--".toList.isPrefixOf s.chars then
    match s.splitAt? "-->" with
    | some (_, rest) => some (.comment, rest)
    | none => some (.comment, s.drop s.chars.length)
  else none

def element? (s : Slice) : Option (SegmentKind × Slice) := do
  let (tag, rest) ← Tag.read s
  if tag.closing then none
  let name := String.ofList tag.name
  if tag.selfClosing || tag.isVoid then return (.element name true, rest)
  match afterClosing tag.name 0 rest with
  | some rest => return (.element name true, rest)
  | none => return (.element name false, s.drop s.chars.length)

def next (s : Slice) : SegmentKind × Slice :=
  (comment? s <|> element? s).getD (.text, (s.drop 1).dropWhile (· != '<'))

end Segment

def segments (s : Slice) : List Segment :=
  let s' := s.skipBlanks
  if s'.isEmpty then []
  else
    let (kind, rest) := Segment.next s'
    ⟨kind, s'.before rest⟩ ::
      if rest.chars.length < s.chars.length then segments rest else []
termination_by s.chars.length

end EmailTemplates.Source
