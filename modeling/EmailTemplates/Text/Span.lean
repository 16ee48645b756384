namespace EmailTemplates

namespace Text

def byteLength : List Char → Nat
  | [] => 0
  | c :: cs => c.utf8Size + byteLength cs

@[simp] theorem byteLength_nil : byteLength [] = 0 := rfl

@[simp] theorem byteLength_cons (c : Char) (cs : List Char) :
    byteLength (c :: cs) = c.utf8Size + byteLength cs := rfl

@[simp] theorem byteLength_append (cs ds : List Char) :
    byteLength (cs ++ ds) = byteLength cs + byteLength ds := by
  induction cs with
  | nil => simp
  | cons c cs ih => simp [ih, Nat.add_assoc]

def charsBefore : List Char → (offset : Nat) → Nat
  | [], _ => 0
  | c :: cs, offset => if offset = 0 then 0 else charsBefore cs (offset - c.utf8Size) + 1

end Text

/-- From `start` to `stop`, the latter excluded. -/
structure Span where
  start : Nat
  stop : Nat
deriving DecidableEq, Repr

namespace Span

def shift (s : Span) (by_ : Nat) : Span :=
  ⟨s.start + by_, s.stop + by_⟩

/-- The same stretch counted in characters. An offset inside a character lies after it. -/
def toChars (s : Span) (text : List Char) : Span :=
  ⟨Text.charsBefore text s.start, Text.charsBefore text s.stop⟩

end Span

end EmailTemplates
