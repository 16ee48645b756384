import EmailTemplates.ColorScheme
import EmailTemplates.Text.Slice
import EmailTemplates.Text.Word

namespace EmailTemplates

structure Marker where
  id : String
  scheme : Option ColorScheme
deriving DecidableEq, Repr

namespace Marker

open Text (Slice)

def isIdChar (c : Char) : Bool :=
  Text.isNameChar c || c == '-'

def canName (id : String) : Bool :=
  !id.toList.isEmpty && id.toList.all isIdChar

def text (m : Marker) : String :=
  "<!-- block: " ++ m.id ++
    (match m.scheme with
    | some scheme => " scheme: " ++ scheme.id
    | none => "") ++ " -->"

def isEnd (s : Slice) : Bool :=
  s.skipBlanks.chars == ['-', '-', '>']

def readScheme (s : Slice) : Option (Slice × Slice) := do
  let s ← s.skipBlanks?
  let s ← s.expectText "scheme:"
  s.skipBlanks.run fun c => 'a' ≤ c && c ≤ 'z'

/-- Reads a comment as a marker. An id directly before the end of the comment does not include
the two hyphens there. -/
def ofComment? (comment : List Char) : Option Marker := do
  let s ← Slice.expectText "<!--" ⟨0, comment⟩
  let s ← s.skipBlanks.expectText "block:"
  let (id, rest) ← s.skipBlanks.run isIdChar
  if isEnd rest then return ⟨id.toString, none⟩
  match readScheme rest with
  | some (scheme, rest) =>
    if isEnd rest then return ⟨id.toString, ColorScheme.ofId? scheme.toString⟩ else none
  | none =>
    let shorter := id.chars.dropLast.dropLast
    if rest.chars == ['>'] && id.chars == shorter ++ ['-', '-'] && !shorter.isEmpty then
      return ⟨.ofList shorter, none⟩
    else none

end Marker

end EmailTemplates
