import EmailTemplates.Email
import EmailTemplates.Template.Edit
import EmailTemplates.Variable.Reference

namespace EmailTemplates

inductive EditCommand where
  | insertBlock (index : UInt64) (block : Block)
  | replaceBlock (block : Block)
  | moveBlock (id : String) (target : UInt64)
  | removeBlock (id : String)
  | setSubject (subject : String)
  | setPreheader (preheader : Option String)
  | setColorScheme (scheme : ColorScheme)
deriving DecidableEq, Repr

structure Draft where
  template : Template
  dirty : Bool
deriving DecidableEq, Repr

namespace EditCommand

def run (t : Template) : EditCommand → Except TemplateError Template
  | insertBlock index block => t.insertBlock index.toNat block
  | replaceBlock block => (t.replaceBlock block).map Prod.snd
  | moveBlock id target => t.moveBlock id target.toNat
  | removeBlock id => (t.removeBlock id).map Prod.snd
  | setSubject subject =>
    if Text.isBlankText subject then .error (.emptyField .subject) else .ok { t with subject }
  | setPreheader preheader =>
    .ok { t with preheader := preheader.filter fun p => !Text.isBlankText p }
  | setColorScheme scheme => .ok { t with colorScheme := scheme }

end EditCommand

namespace Draft

def ofTemplate (t : Template) : Draft :=
  ⟨t, false⟩

def markSaved (d : Draft) : Draft :=
  { d with dirty := false }

def apply (d : Draft) (command : EditCommand) : Except TemplateError Draft :=
  (command.run d.template).map fun t => ⟨t, true⟩

def previewWith (d : Draft) (values : Values) : Except RenderError RenderedEmail :=
  d.template.render values { RenderOptions.ofMode .substitute with preview := true }

def preview (d : Draft) : Except RenderError RenderedEmail :=
  d.previewWith d.template.exampleValues

def storedMarkup (d : Draft) : Except RenderError String :=
  return (← d.template.render .empty (.ofMode .preserve)).html

end Draft

end EmailTemplates
