namespace EmailTemplates

/-- A finite map; of two entries with a name the first one counts. -/
structure Values where
  entries : List (String × String)
deriving DecidableEq, Repr

namespace Values

def empty : Values :=
  ⟨[]⟩

def get? (v : Values) (name : String) : Option String :=
  v.entries.lookup name

def insert (v : Values) (name value : String) : Values :=
  ⟨(name, value) :: v.entries.filter (·.1 != name)⟩

def ofList (entries : List (String × String)) : Values :=
  entries.foldl (fun v entry => v.insert entry.1 entry.2) empty

end Values

end EmailTemplates
