import EmailTemplates.Json.Basic

namespace EmailTemplates

namespace Json

def string? : Json → Option String
  | string s => some s
  | _ => none

def bool? : Json → Option Bool
  | bool b => some b
  | _ => none

def natBelow? (bound : Nat) : Json → Option Nat
  | nat n => if n < bound then some n else none
  | _ => none

def list? (read : Json → Option α) : Json → Option (List α)
  | array items => items.mapM read
  | _ => none

def stringMap? : Json → Option (List (String × String))
  | object members => members.mapM fun (name, value) => value.string?.map fun s => (name, s)
  | _ => none

/-- The value at hand if it can be taken in as a whole before it is looked into. -/
def wholly? (levels : Nat) (j : Json) : Option Json :=
  if j.isReadable && j.depth ≤ levels then some j else none

def maxDepth : Nat := 127

/-- How a name of an enumeration may be written: as a string or as the only member of an object,
whose value is null or, where `lenient`, an empty object. -/
def name? (lenient : Bool) : Json → Option String
  | string s => some s
  | object [(s, null)] => some s
  | object [(s, object [])] => if lenient then some s else none
  | _ => none

def members : Json → List (String × Json)
  | object members => members
  | _ => []

def optionalMember (name : String) (value : Option Json) : List (String × Json) :=
  match value with
  | some value => [(name, value)]
  | none => []

end Json

structure Record where
  positional : Bool
  values : List (String × Json)

namespace Record

/-- Reads the fields with the given names. Of an object, other members are passed over, and none
of these may be repeated; a list may be shorter than the fields, but not longer. -/
def ofJson? (names : List String) : Json → Option Record
  | .object members =>
    let known := members.filter fun m => names.contains m.1
    if (known.map Prod.fst).Nodup then some ⟨false, known⟩ else none
  | .array items => if items.length ≤ names.length then some ⟨true, names.zip items⟩ else none
  | _ => none

def get? (r : Record) (name : String) : Option Json :=
  r.values.lookup name

def required (r : Record) (name : String) (read : Json → Option α) : Option α := do
  read (← r.get? name)

def withDefault (r : Record) (name : String) (default : α) (read : Json → Option α) : Option α :=
  match r.get? name with
  | none => some default
  | some value => read value

def optional (r : Record) (name : String) (read : Json → Option α) : Option (Option α) :=
  match r.get? name with
  | none | some .null => some none
  | some value => (read value).map some

def optionalInList (r : Record) (name : String) (read : Json → Option α) : Option (Option α) :=
  if r.positional && (r.get? name).isNone then none else r.optional name read

end Record

end EmailTemplates
