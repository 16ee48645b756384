import EmailTemplates.Block.Basic
import EmailTemplates.Text.Blank
import EmailTemplates.Variable.Token

namespace EmailTemplates

inductive VariableKind where
  | text
  | url
  | date
  | money
  | base64Image
deriving DecidableEq, Repr

namespace VariableKind

def all : List VariableKind :=
  [text, url, date, money, base64Image]

def id : VariableKind → String
  | text => "text"
  | url => "url"
  | date => "date"
  | money => "money"
  | base64Image => "base64-image"

def ofId? (s : String) : Option VariableKind :=
  all.find? (·.id == s)

def ofId (s : String) : Except TemplateError VariableKind :=
  (ofId? s).elim (.error (.unknownVariableKind s)) .ok

theorem ofId?_id (kind : VariableKind) : ofId? kind.id = some kind := by
  cases kind <;> rfl

end VariableKind

structure VariableDeclaration where
  name : String
  kind : VariableKind
  optional : Bool
deriving DecidableEq, Repr

structure Header where
  emoji : Option String
  title : String
  subtitle : Option String
deriving DecidableEq, Repr

inductive FooterKind where
  | standard
  | minimal
  | none
deriving DecidableEq, Repr

namespace FooterKind

def all : List FooterKind :=
  [standard, minimal, none]

def id : FooterKind → String
  | standard => "standard"
  | minimal => "minimal"
  | none => "none"

def ofId? (s : String) : Option FooterKind :=
  all.find? (·.id == s)

theorem ofId?_id (kind : FooterKind) : ofId? kind.id = some kind := by
  cases kind <;> rfl

end FooterKind

structure Footer where
  kind : FooterKind
  note : Option String
deriving DecidableEq, Repr

structure Template where
  slug : String
  name : String
  description : Option String
  subject : String
  preheader : Option String
  colorScheme : ColorScheme
  header : Header
  blocks : List Block
  footer : Footer
  declarations : List VariableDeclaration
  context : Option String
deriving DecidableEq, Repr

namespace Template

def registryContext (t : Template) : String :=
  t.context.getD t.slug

def declares (t : Template) (name : String) : Bool :=
  t.declarations.any (·.name == name)

def isSlugChar (c : Char) : Bool :=
  c.isLower || c.isDigit

def isSlugFrom (inWord : Bool) : List Char → Bool
  | [] => inWord
  | c :: cs => if isSlugChar c then isSlugFrom true cs else c == '-' && inWord && isSlugFrom false cs

def isValidSlug (slug : String) : Bool :=
  isSlugFrom false slug.toList

def validateIds (seen : List String) (index : Nat) : List Block → Except TemplateError Unit
  | [] => .ok ()
  | b :: blocks =>
    if b.id = "" then .error (.emptyBlockId index)
    else if b.id ∈ seen then .error (.duplicateBlockId b.id)
    else validateIds (b.id :: seen) (index + 1) blocks

def validateDeclarations : List VariableDeclaration → Except TemplateError Unit
  | [] => .ok ()
  | d :: declarations =>
    if Variable.isValidName d.name then validateDeclarations declarations
    else .error (.invalidVariableName d.name)

def validateText (field : RequiredField) (value : String) : Except TemplateError Unit :=
  if Text.isBlankText value then .error (.emptyField field) else .ok ()

def validate (t : Template) : Except TemplateError Unit := do
  if !isValidSlug t.slug then throw (.invalidSlug t.slug)
  validateText .name t.name
  validateText .subject t.subject
  validateText .headerTitle t.header.title
  validateIds [] 0 t.blocks
  validateDeclarations t.declarations

end Template

end EmailTemplates
