import EmailTemplates.Text.Word

namespace EmailTemplates

namespace Token

def isName (name : List Char) : Bool :=
  !name.isEmpty && name.all Text.isNameChar

def chars (name : List Char) : List Char :=
  '{' :: '{' :: name ++ ['}', '}']

def read? : List Char → Option (List Char × List Char)
  | '{' :: '{' :: cs =>
    match cs.takeWhile Text.isNameChar, cs.dropWhile Text.isNameChar with
    | c :: name, '}' :: '}' :: rest => some (c :: name, rest)
    | _, _ => none
  | _ => none

theorem length_of_read? {cs name rest : List Char} (h : read? cs = some (name, rest)) :
    rest.length < cs.length := by
  unfold read? at h
  split at h
  · rename_i cs
    split at h
    · rename_i c name' rest' ht hd
      simp only [Option.some.injEq, Prod.mk.injEq] at h
      have := congrArg List.length (List.takeWhile_append_dropWhile (p := Text.isNameChar) (l := cs))
      rw [ht, hd] at this
      simp at this ⊢
      rw [← h.2]
      omega
    · simp at h
  · simp at h

inductive Piece where
  | char (c : Char)
  | reference (name : List Char)
deriving DecidableEq, Repr

def pieces (cs : List Char) : List Piece :=
  match h : read? cs with
  | some (name, rest) =>
    have := length_of_read? h
    .reference name :: pieces rest
  | none =>
    match cs with
    | [] => []
    | c :: cs => .char c :: pieces cs
termination_by cs.length

def names (cs : List Char) : List (List Char) :=
  (pieces cs).filterMap fun
    | .reference name => some name
    | .char _ => none

end Token

namespace Variable

def isValidName (name : String) : Bool :=
  Token.isName name.toList

def token (name : String) : String :=
  .ofList (Token.chars name.toList)

def unbraced (cs : List Char) : List Char :=
  match cs with
  | '{' :: '{' :: inner =>
    match inner.reverse with
    | '}' :: '}' :: reversed => reversed.reverse
    | _ => cs
  | _ => cs

def nameOf? (field : String) : Option String :=
  let name := unbraced field.toList
  if Token.isName name then some (.ofList name) else none

def addNew (seen names : List String) : List String :=
  names.foldl (fun seen name => if seen.contains name then seen else seen ++ [name]) seen

def occurrences (text : String) : List String :=
  (Token.names text.toList).map String.ofList

def extract (text : String) : List String :=
  addNew [] (occurrences text)

end Variable

end EmailTemplates
