import EmailTemplates.Text.Blank
import EmailTemplates.Text.Span

namespace EmailTemplates.Text

structure Slice where
  start : Nat
  chars : List Char
deriving DecidableEq, Repr

namespace Slice

def ofString (s : String) : Slice :=
  ⟨0, s.toList⟩

def toString (s : Slice) : String :=
  .ofList s.chars

def stop (s : Slice) : Nat :=
  s.start + byteLength s.chars

def span (s : Slice) : Span :=
  ⟨s.start, s.stop⟩

def isEmpty (s : Slice) : Bool :=
  s.chars.isEmpty

def take (n : Nat) (s : Slice) : Slice :=
  ⟨s.start, s.chars.take n⟩

def drop (n : Nat) (s : Slice) : Slice :=
  ⟨s.start + byteLength (s.chars.take n), s.chars.drop n⟩

def takeWhile (p : Char → Bool) (s : Slice) : Slice :=
  ⟨s.start, s.chars.takeWhile p⟩

def dropWhile (p : Char → Bool) (s : Slice) : Slice :=
  ⟨s.start + byteLength (s.chars.takeWhile p), s.chars.dropWhile p⟩

def before (s rest : Slice) : Slice :=
  s.take (s.chars.length - rest.chars.length)

def skipBlanks (s : Slice) : Slice :=
  s.dropWhile isBlank

def skipBlanks? (s : Slice) : Option Slice :=
  match s.chars with
  | c :: _ => if isBlank c then some s.skipBlanks else none
  | [] => none

def expect (c : Char) (s : Slice) : Option Slice :=
  match s.chars with
  | d :: _ => if d = c then some (s.drop 1) else none
  | [] => none

def expectText (text : String) (s : Slice) : Option Slice :=
  if text.toList.isPrefixOf s.chars then some (s.drop text.toList.length) else none

def run (p : Char → Bool) (s : Slice) : Option (Slice × Slice) :=
  match s.chars with
  | c :: _ => if p c then some (s.takeWhile p, s.dropWhile p) else none
  | [] => none

/-- What lies before and after the first place at which `text` stands. -/
def splitAt? (text : String) (s : Slice) : Option (Slice × Slice) :=
  go s.chars 0
where
  go : List Char → Nat → Option (Slice × Slice)
    | cs, n =>
      if text.toList.isPrefixOf cs then some (s.take n, s.drop (n + text.toList.length))
      else match cs with
        | [] => none
        | _ :: cs => go cs (n + 1)

@[simp] theorem chars_take (n : Nat) (s : Slice) : (s.take n).chars = s.chars.take n := rfl

@[simp] theorem chars_drop (n : Nat) (s : Slice) : (s.drop n).chars = s.chars.drop n := rfl

@[simp] theorem chars_dropWhile (p : Char → Bool) (s : Slice) :
    (s.dropWhile p).chars = s.chars.dropWhile p := rfl

theorem length_drop_lt {s : Slice} {c : Char} {cs : List Char} (h : s.chars = c :: cs) (n : Nat) :
    (s.drop (n + 1)).chars.length < s.chars.length := by
  simp only [chars_drop, h, List.length_drop, List.length_cons]
  omega

abbrev Reader (α : Type) := Slice → Option (α × Slice)

/-- The first place at which a reader succeeds: the slice from there on, what was read and the
rest. -/
def find (read : Reader α) (s : Slice) : Option (Slice × α × Slice) :=
  go s s.chars
where
  go (s : Slice) : List Char → Option (Slice × α × Slice)
    | [] => (read s).map fun (a, rest) => (s, a, rest)
    | _ :: cs =>
      match read s with
      | some (a, rest) => some (s, a, rest)
      | none => go (s.drop 1) cs

def findAll (read : Reader α) (s : Slice) : List α :=
  match find read s with
  | none => []
  | some (_, a, rest) =>
    if rest.chars.length < s.chars.length then a :: findAll read rest else [a]
termination_by s.chars.length

/-- All that a reader finds at starts of lines, never inside what was already read. -/
def findAllInLines (read : Reader α) (s : Slice) : List α :=
  go true s
where
  go (atLineStart : Bool) (s : Slice) : List α :=
    match if atLineStart then read s else none with
    | some (a, rest) =>
      if rest.chars.length < s.chars.length then a :: go false rest else [a]
    | none =>
      match hs : s.chars with
      | [] => []
      | c :: _ =>
        have := length_drop_lt hs 0
        go (c == '\n') (s.drop 1)
  termination_by s.chars.length

end Slice

end EmailTemplates.Text
