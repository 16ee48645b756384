import EmailTemplates.Diagnostic.Basic
import EmailTemplates.Variable.Registry
import EmailTemplates.Variable.Values

namespace EmailTemplates

def Field.occurrences : Field → List String
  | .text _ value => Variable.occurrences value
  | .variable _ value => (Variable.nameOf? value).toList

namespace Template

def headTexts (t : Template) : List String :=
  [t.subject] ++ t.preheader.toList ++ t.header.emoji.toList ++ [t.header.title] ++
    t.header.subtitle.toList

def occurrences (t : Template) : List String :=
  t.headTexts.flatMap Variable.occurrences ++
    t.blocks.flatMap (fun b => b.fields.flatMap Field.occurrences) ++
    t.footer.note.toList.flatMap Variable.occurrences

def variableNames (t : Template) : List String :=
  Variable.addNew [] t.occurrences

def exampleValues (t : Template) : Values :=
  .ofList (t.variableNames.filterMap fun name =>
    (Variable.lookup? name).map fun d => (name, d.sample))

def undeclaredWarning (t : Template) (name : String) : Diagnostic :=
  (Diagnostic.warning "Undeclared variable").withCode "M-2-1"
    |>.withProblem ("`" ++ Variable.token name ++ "` is referenced but not declared by template `" ++
      t.slug ++ "`")
    |>.withHint ("Add `" ++ name ++ "` to the template's variables")

def unavailableWarning (t : Template) (d : VariableDefinition) : Diagnostic :=
  (Diagnostic.warning "Variable not available in this context").withCode "M-2-2"
    |>.withProblem ("`" ++ Variable.token d.name ++ "` is not supplied for `" ++
      t.registryContext ++ "` emails")
    |>.withInfo ("Available in: " ++ ", ".intercalate d.availableIn)

def unknownWarning (name : String) : Diagnostic :=
  (Diagnostic.warning "Unknown variable").withCode "M-2-2"
    |>.withProblem ("`" ++ Variable.token name ++ "` is not in the variable registry")
    |>.withNote "It will render as a literal token unless a value is supplied"

def checkVariable (t : Template) (name : String) : List Diagnostic :=
  (if t.declares name then [] else [t.undeclaredWarning name]) ++
    match Variable.lookup? name with
    | some d => if d.isAvailableIn t.registryContext then [] else [t.unavailableWarning d]
    | none => [unknownWarning name]

def checkVariables (t : Template) : List Diagnostic :=
  t.variableNames.flatMap t.checkVariable

end Template

end EmailTemplates
