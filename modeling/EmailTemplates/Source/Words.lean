namespace EmailTemplates.Source

def words : List Char → List (List Char)
  | [] => [[]]
  | c :: cs =>
    if c = '-' then [] :: words cs
    else match words cs with
      | [] => [[c]]
      | word :: rest => (c :: word) :: rest

def capitalize : List Char → List Char
  | [] => []
  | c :: cs => c.toUpper :: cs

def capitalizedWords (slug : String) : List String :=
  ((words slug.toList).filter (!·.isEmpty)).map fun word => .ofList (capitalize word)

def titleCase (slug : String) : String :=
  " ".intercalate (capitalizedWords slug)

def interfaceName (slug : String) : String :=
  let name := String.join (capitalizedWords slug)
  (if name.toList.head?.any Char.isDigit then "Template" else "") ++ name ++ "Variables"

end EmailTemplates.Source
