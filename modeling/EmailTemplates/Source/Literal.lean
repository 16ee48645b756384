import EmailTemplates.Text.Slice
import EmailTemplates.Variable.Token

namespace EmailTemplates.Source.Literal

open EmailTemplates.Text (Slice)

def escape : List Char → List Char
  | [] => []
  | '\\' :: cs => '\\' :: '\\' :: escape cs
  | '`' :: cs => '\\' :: '`' :: escape cs
  | '$' :: '{' :: cs => '\\' :: '$' :: '{' :: escape cs
  | c :: cs => c :: escape cs

def interpolation (name : List Char) : List Char :=
  "$\x7bdata.".toList ++ name ++ ['}']

def interpolate (cs : List Char) : List Char :=
  (Token.pieces cs).flatMap fun
    | .char c => [c]
    | .reference name => interpolation name

def encode (cs : List Char) : List Char :=
  interpolate (escape cs)

def expressionLength : (depth : Nat) → List Char → Option Nat
  | _, [] => none
  | depth, '{' :: cs => (expressionLength (depth + 1) cs).map (· + 1)
  | 0, '}' :: _ => some 0
  | depth + 1, '}' :: cs => (expressionLength depth cs).map (· + 1)
  | depth, _ :: cs => (expressionLength depth cs).map (· + 1)

def bodyLength (cs : List Char) : Option Nat :=
  match cs with
  | [] => none
  | '`' :: _ => some 0
  | '\\' :: _ :: cs => (bodyLength cs).map (· + 2)
  | '$' :: '{' :: cs => do
    let n ← expressionLength 0 cs
    (bodyLength (cs.drop (n + 1))).map (· + (n + 3))
  | _ :: cs => (bodyLength cs).map (· + 1)
termination_by cs.length
decreasing_by all_goals simp <;> omega

def nameOf? (expression : List Char) : Option (List Char) :=
  let name := match Text.trim expression with
    | 'd' :: 'a' :: 't' :: 'a' :: '.' :: name => name
    | name => name
  if Token.isName name then some name else none

inductive Piece where
  | char (c : Char)
  | reference (name : List Char)
  | unsupported (code : Slice)
deriving DecidableEq, Repr

namespace Piece

def chars : Piece → List Char
  | char c => [c]
  | reference name => Token.chars name
  | unsupported code => code.chars

def unsupported? : Piece → Option Span
  | unsupported code => some code.span
  | _ => none

end Piece

def unescapeChar : Char → Char
  | 'n' => '\n'
  | 't' => '\t'
  | c => c

def nextPiece (s : Slice) : Piece × Nat :=
  match s.chars with
  | [] => (.char '\\', 0)
  | '\\' :: c :: _ => (.char (unescapeChar c), 1)
  | '$' :: '{' :: cs =>
    match expressionLength 0 cs with
    | none => (.char '$', 0)
    | some n =>
      match nameOf? (cs.take n) with
      | some name => (.reference name, n + 2)
      | none => (.unsupported (s.take (n + 3)), n + 2)
  | c :: _ => (.char c, 0)

def pieces (s : Slice) : List Piece :=
  match hs : s.chars with
  | [] => []
  | _ :: _ =>
    let (piece, more) := nextPiece s
    have := Slice.length_drop_lt hs more
    piece :: pieces (s.drop (more + 1))
termination_by s.chars.length

def text (pieces : List Piece) : List Char :=
  pieces.flatMap Piece.chars

def unsupported (pieces : List Piece) : List Span :=
  pieces.filterMap Piece.unsupported?

end EmailTemplates.Source.Literal
