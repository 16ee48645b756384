import EmailTemplates.ColorScheme
import EmailTemplates.Text.Word

namespace EmailTemplates

structure InfoItem where
  label : String
  value : String
deriving DecidableEq, Repr

structure Step where
  title : String
  description : String
deriving DecidableEq, Repr

inductive Block.Content where
  | greeting (nameVariable : String)
  | paragraph (text : String)
  | infoBox (title : Option String) (items : List InfoItem) (scheme : Option ColorScheme)
  | button (label urlVariable : String) (scheme : Option ColorScheme)
  | stepList (title : Option String) (steps : List Step)
  | code (code : String) (label : Option String)
  | image (contentId alt : String) (width : Option UInt32)
  | divider
  | spacer (height : UInt32)
  | heading (text : String) (level : UInt8)
  | list (items : List String) (ordered : Bool)
  | link (text urlVariable : String) (scheme : Option ColorScheme)
  | customHtml (html : String)
deriving DecidableEq, Repr

structure Block where
  id : String
  content : Block.Content
deriving DecidableEq, Repr

inductive BlockKind where
  | greeting
  | paragraph
  | infoBox
  | button
  | stepList
  | code
  | image
  | divider
  | spacer
  | heading
  | list
  | link
  | customHtml
deriving DecidableEq, Repr

namespace BlockKind

def all : List BlockKind :=
  [greeting, paragraph, infoBox, button, stepList, code, image, divider, spacer, heading, list,
   link, customHtml]

def id : BlockKind → String
  | greeting => "greeting"
  | paragraph => "paragraph"
  | infoBox => "info-box"
  | button => "button"
  | stepList => "step-list"
  | code => "code"
  | image => "image"
  | divider => "divider"
  | spacer => "spacer"
  | heading => "heading"
  | list => "list"
  | link => "link"
  | customHtml => "custom-html"

def displayName : BlockKind → String
  | greeting => "Greeting"
  | paragraph => "Paragraph"
  | infoBox => "Info Box"
  | button => "Button"
  | stepList => "Step List"
  | code => "Code"
  | image => "Image"
  | divider => "Divider"
  | spacer => "Spacer"
  | heading => "Heading"
  | list => "List"
  | link => "Link"
  | customHtml => "Custom HTML"

def ofId? (s : String) : Option BlockKind :=
  all.find? (·.id == s)

def ofId (s : String) : Except TemplateError BlockKind :=
  (ofId? s).elim (.error (.unknownBlockKind s)) .ok

theorem ofId?_id (kind : BlockKind) : ofId? kind.id = some kind := by
  cases kind <;> rfl

def defaultContent : BlockKind → Block.Content
  | greeting => .greeting "\x7b\x7bcustomer_name\x7d\x7d"
  | paragraph => .paragraph "Add your message here."
  | infoBox => .infoBox "Details" [⟨"Reference", "\x7b\x7binvoice_number\x7d\x7d"⟩] none
  | button => .button "View Details" "action_url" none
  | stepList => .stepList "What happens next"
      [⟨"Step one", "Describe the first step."⟩, ⟨"Step two", "Describe the second step."⟩]
  | code => .code "\x7b\x7bverification_code\x7d\x7d" "Your code"
  | image => .image "company_logo" "Company logo" none
  | divider => .divider
  | spacer => .spacer 24
  | heading => .heading "Section heading" 2
  | list => .list ["First item", "Second item"] false
  | link => .link "Learn more" "portal_url" none
  | customHtml => .customHtml "<p>Custom content</p>"

end BlockKind

inductive Field where
  | text (name value : String)
  | variable (name value : String)
deriving DecidableEq, Repr

namespace Block

def Content.kind : Content → BlockKind
  | greeting .. => .greeting
  | paragraph .. => .paragraph
  | infoBox .. => .infoBox
  | button .. => .button
  | stepList .. => .stepList
  | code .. => .code
  | image .. => .image
  | divider => .divider
  | spacer .. => .spacer
  | heading .. => .heading
  | list .. => .list
  | link .. => .link
  | customHtml .. => .customHtml

def Content.fields : Content → List Field
  | greeting nameVariable => [.variable "nameVariable" nameVariable]
  | paragraph text => [.text "text" text]
  | infoBox title items _ =>
    (title.map (.text "title")).toList ++
      items.flatMap fun item => [.text "items.label" item.label, .text "items.value" item.value]
  | button label urlVariable _ => [.text "label" label, .variable "urlVariable" urlVariable]
  | stepList title steps =>
    (title.map (.text "title")).toList ++
      steps.flatMap fun step =>
        [.text "steps.title" step.title, .text "steps.description" step.description]
  | code value label => (label.map (.text "label")).toList ++ [.text "code" value]
  | image _ alt _ => [.text "alt" alt]
  | divider => []
  | spacer _ => []
  | heading text _ => [.text "text" text]
  | list items _ => items.map (.text "items")
  | link text urlVariable _ => [.text "text" text, .variable "urlVariable" urlVariable]
  | customHtml html => [.text "html" html]

def ofKind (kind : BlockKind) (id : String) : Block :=
  ⟨id, kind.defaultContent⟩

def kind (b : Block) : BlockKind :=
  b.content.kind

def fields (b : Block) : List Field :=
  b.content.fields

def withId (b : Block) (id : String) : Block :=
  { b with id }

theorem kind_ofKind (kind : BlockKind) (id : String) : (ofKind kind id).kind = kind := by
  cases kind <;> rfl

def isContentId (contentId : String) : Bool :=
  let cs := contentId.toList
  !cs.isEmpty && cs.all fun c => Text.isNameChar c || c == '-' || c == '.' || c == '@'

end Block

end EmailTemplates
