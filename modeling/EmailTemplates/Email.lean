import EmailTemplates.Markup.Envelope
import EmailTemplates.Markup.Fragment

namespace EmailTemplates

structure RenderOptions where
  mode : RenderMode
  preview : Bool
  company : Company
  envelope : Envelope
deriving DecidableEq, Repr

namespace RenderOptions

def ofMode (mode : RenderMode) : RenderOptions :=
  ⟨mode, false, .unnamed, .full⟩

end RenderOptions

structure RenderedEmail where
  subject : String
  html : String
  unresolved : List String
deriving DecidableEq, Repr

/-- Makes a document out of the parts of an email and what they are filled with. -/
abbrev Wrapping := Filling → Envelope.Parts → Except RenderError String

def Envelope.wrapping (e : Envelope) : Wrapping := fun filling parts =>
  .ok (filling.markup (e.wrap parts))

namespace Template

def check (t : Template) : Except RenderError Unit :=
  t.validate.mapError .invalidTemplate

def fragments (t : Template) : Except RenderError (List Markup) :=
  (t.blocks.mapM (Block.fragment t.colorScheme)).mapError .malformedBlock

def note (t : Template) (company : Company) : Option String :=
  t.footer.note.or company.footerNote

def parts (t : Template) (options : RenderOptions) (content : Markup) : Envelope.Parts where
  subject := .escaped t.subject
  preheader := t.preheader.map .authored
  emoji := t.header.emoji.map .authored
  title := .authored t.header.title
  subtitle := t.header.subtitle.map .authored
  content := content
  footer := t.footer.kind
  note := (t.note options.company).map .authored
  palette := t.colorScheme.palette
  preview := options.preview
  company := options.company

def filledParts (p : Envelope.Parts) : Markup :=
  p.content ++ p.subject ++ p.preheader.toList.flatten ++ p.emoji.toList.flatten ++ p.title ++
    p.subtitle.toList.flatten ++ p.note.toList.flatten

def renderIn (wrapping : Wrapping) (t : Template) (values : Values) (options : RenderOptions) :
    Except RenderError RenderedEmail := do
  t.check
  let fragments ← t.fragments
  let filling : Filling := ⟨options.mode, values⟩
  let parts := t.parts options fragments.flatten
  let html ← wrapping filling parts
  return {
    subject := filling.plain (.authored t.subject)
    html := html
    unresolved := Variable.sorted (filling.unresolved (filledParts parts).names) }

def render (t : Template) (values : Values) (options : RenderOptions) :
    Except RenderError RenderedEmail :=
  renderIn options.envelope.wrapping t values options

def renderContent (t : Template) (values : Values) (mode : RenderMode) :
    Except RenderError String :=
  return (← t.render values { RenderOptions.ofMode mode with envelope := .bare }).html

end Template

end EmailTemplates
