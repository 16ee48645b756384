import EmailTemplates.Text.Entity
import EmailTemplates.Variable.Token
import EmailTemplates.Variable.Values

namespace EmailTemplates

abbrev Markup := List Token.Piece

namespace Markup

def fixed (s : String) : Markup :=
  s.toList.map .char

def authored (s : String) : Markup :=
  Token.pieces s.toList

def escapePiece : Token.Piece → Markup
  | .char c => (Text.escapeChar c).map .char
  | .reference name => [.reference name]

def escaped (s : String) : Markup :=
  (Token.pieces s.toList).flatMap escapePiece

def reference (name : String) : Markup :=
  [.reference name.toList]

def fill (value? : List Char → Option (List Char)) : Markup → List Char
  | [] => []
  | .char c :: m => c :: fill value? m
  | .reference name :: m => (value? name).getD (Token.chars name) ++ fill value? m

def names (m : Markup) : List String :=
  m.filterMap fun
    | .reference name => some (.ofList name)
    | .char _ => none

@[simp] theorem fill_append (value? : List Char → Option (List Char)) (m n : Markup) :
    fill value? (m ++ n) = fill value? m ++ fill value? n := by
  induction m with
  | nil => rfl
  | cons p m ih => cases p <;> simp [fill, ih]

@[simp] theorem fill_fixed (value? : List Char → Option (List Char)) (s : String) :
    fill value? (fixed s) = s.toList := by
  suffices h : ∀ cs : List Char, fill value? (cs.map .char) = cs from h _
  intro cs
  induction cs with
  | nil => rfl
  | cons c cs ih => simp [fill, ih]

end Markup

inductive RenderMode where
  | substitute
  | preserve
deriving DecidableEq, Repr

structure Filling where
  mode : RenderMode
  values : Values
deriving DecidableEq, Repr

namespace Filling

def preserve : Filling :=
  ⟨.preserve, .empty⟩

def plainValue? (f : Filling) (name : List Char) : Option (List Char) :=
  match f.mode with
  | .preserve => none
  | .substitute => (f.values.get? (.ofList name)).map String.toList

def markupValue? (f : Filling) (name : List Char) : Option (List Char) :=
  (f.plainValue? name).map Text.escape

def plain (f : Filling) (m : Markup) : String :=
  .ofList (m.fill f.plainValue?)

def markup (f : Filling) (m : Markup) : String :=
  .ofList (m.fill f.markupValue?)

/-- The references left as tokens because they have no value. References kept on purpose do not
count. -/
def unresolved (f : Filling) (names : List String) : List String :=
  match f.mode with
  | .preserve => []
  | .substitute => names.filter fun name => (f.values.get? name).isNone

end Filling

namespace Variable

def insertSorted (name : String) : List String → List String
  | [] => [name]
  | n :: names =>
    if name < n then name :: n :: names
    else if name = n then n :: names
    else n :: insertSorted name names

def sorted (names : List String) : List String :=
  names.foldr insertSorted []

end Variable

end EmailTemplates
