import EmailTemplates.Diagnostic.Basic

namespace EmailTemplates

inductive RequiredField where
  | name
  | subject
  | headerTitle
deriving DecidableEq, Repr

def RequiredField.label : RequiredField → String
  | name => "name"
  | subject => "subject"
  | headerTitle => "header.title"

inductive TemplateError where
  | unknownColorScheme (id : String)
  | unknownBlockKind (id : String)
  | unknownVariableKind (id : String)
  | invalidSlug (slug : String)
  | invalidVariableName (name : String)
  | emptyField (field : RequiredField)
  | duplicateBlockId (id : String)
  | emptyBlockId (index : Nat)
  | blockNotFound (id : String)
  | invalidBlockPosition (index size : Nat)
deriving DecidableEq, Repr

namespace TemplateError

def message : TemplateError → String
  | unknownColorScheme id => "Unknown color scheme: " ++ id
  | unknownBlockKind id => "Unknown block type: " ++ id
  | unknownVariableKind id => "Unknown variable type: " ++ id
  | invalidSlug slug => "Invalid template slug '" ++ slug ++ "': expected lowercase kebab-case"
  | invalidVariableName name =>
    "Invalid variable name '" ++ name ++ "': expected letters, digits and underscores"
  | emptyField field => "Template field '" ++ field.label ++ "' must not be empty"
  | duplicateBlockId id => "Duplicate block id: " ++ id
  | emptyBlockId index => "Block at position " ++ index.repr ++ " has an empty id"
  | blockNotFound id => "Block not found: " ++ id
  | invalidBlockPosition index size =>
    "Block position " ++ index.repr ++ " is out of range (template has " ++ size.repr ++
      " blocks)"

def code : TemplateError → String
  | unknownColorScheme _ => "M-1-3"
  | duplicateBlockId _ | emptyBlockId _ => "M-1-2"
  | invalidSlug _ => "M-1-1"
  | _ => "M-0-1"

def diagnostic (e : TemplateError) : Diagnostic :=
  (Diagnostic.error e.message).withCode e.code

end TemplateError

inductive Defect where
  | blank
  | noItems
  | noSteps
  | notAVariable (value : String)
  | notAContentId
  | widthOutOfRange (limit : Nat)
  | noHeight
  | levelOutOfRange
deriving DecidableEq, Repr

def Defect.reason : Defect → String
  | blank => "must not be empty"
  | noItems => "must contain at least one item"
  | noSteps => "must contain at least one step"
  | notAVariable value => "must name a variable, got '" ++ value ++ "'"
  | notAContentId => "must be a bare attachment content id, not a URL or variable"
  | widthOutOfRange limit => "must be between 1 and " ++ limit.repr
  | noHeight => "must be greater than zero"
  | levelOutOfRange => "must be 1, 2 or 3"

structure MalformedBlock where
  blockId : String
  field : String
  defect : Defect
deriving DecidableEq, Repr

namespace MalformedBlock

def message (m : MalformedBlock) : String :=
  "Malformed block '" ++ m.blockId ++ "': field '" ++ m.field ++ "' " ++ m.defect.reason

def diagnostic (m : MalformedBlock) : Diagnostic :=
  (Diagnostic.error "Malformed block").withCode "M-3-1"
    |>.withProblem m.message
    |>.withInfo ("Block id: `" ++ m.blockId ++ "`")
    |>.withInfo ("Field: `" ++ m.field ++ "`")

end MalformedBlock

inductive RenderError where
  | invalidTemplate (e : TemplateError)
  | malformedBlock (m : MalformedBlock)
deriving DecidableEq, Repr

namespace RenderError

def message : RenderError → String
  | invalidTemplate e => e.message
  | malformedBlock m => m.message

def diagnostic : RenderError → Diagnostic
  | invalidTemplate e => e.diagnostic
  | malformedBlock m => m.diagnostic

end RenderError

end EmailTemplates
