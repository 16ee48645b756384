import EmailTemplates.Source.Declaration
import EmailTemplates.Source.Literal
import EmailTemplates.Source.Marker
import EmailTemplates.Source.Segment
import EmailTemplates.Source.Shape
import EmailTemplates.Source.Words
import EmailTemplates.Variable.Reference

namespace EmailTemplates

structure Import where
  template : Option Template
  errors : List Diagnostic
  warnings : List Diagnostic
deriving DecidableEq, Repr

namespace Import

def isOk (i : Import) : Bool :=
  i.errors.isEmpty

def diagnostics (i : Import) : List Diagnostic :=
  i.errors ++ i.warnings

end Import

namespace Source

open EmailTemplates.Text (Slice)

def missing (field sample : String) : Diagnostic :=
  (Diagnostic.error ("Missing " ++ field)).withCode "M-4-1"
    |>.withProblem ("No `" ++ field ++ "` declaration was found")
    |>.withHint ("Add `" ++ sample ++ "`")

def errorAt (code title problem : String) (location : Span) : Diagnostic :=
  (Diagnostic.error title).withCode code
    |>.withProblem problem
    |>.withLocation location

def defaulted (field value : String) : Diagnostic :=
  (Diagnostic.warning ("Missing " ++ field)).withCode "M-4-3"
    |>.withProblem ("No `" ++ field ++ "` declaration; using `" ++ value ++ "`")

def slug (scalars : List Scalar) : Except Diagnostic String :=
  match Scalar.find? scalars "slug" with
  | some s =>
    if Template.isValidSlug s.value then .ok s.value
    else .error
      (errorAt "M-4-2" "Invalid slug" ("`" ++ s.value ++ "` is not lowercase kebab-case") s.span)
  | none => .error (missing "slug" "export const slug = 'my-template';")

def subject (scalars : List Scalar) : Except Diagnostic String :=
  match Scalar.find? scalars "subject" with
  | some s =>
    if Text.isBlankText s.value then
      .error (errorAt "M-4-1" "Missing subject" "The subject line is empty" s.span)
    else .ok s.value
  | none => .error (missing "subject" "export const subject = 'Your invoice is ready';")

def nonempty? (s : String) : Option String :=
  if s = "" then none else some s

def nonblank? (s : String) : Option String :=
  if Text.isBlankText s then none else some s

def header (source : Slice) : Except Diagnostic Header :=
  match headerObject? source with
  | none => .error (missing "header" "export const header = \x7b title: 'Welcome' \x7d;")
  | some (whole, body) =>
    let fields := body.findAll Scalar.readField
    let field (name : String) : Option String := (Scalar.find? fields name).map Scalar.value
    match (field "title").bind nonblank? with
    | some title =>
      .ok ⟨(field "emoji").bind nonempty?, title, (field "subtitle").bind nonempty?⟩
    | none =>
      .error
        (errorAt "M-4-1" "Missing header title" "The header object has no `title`" whole.span)

def name (scalars : List Scalar) (slug : Option String) : String × List Diagnostic :=
  match (Scalar.find? scalars "name").bind fun s => nonblank? s.value with
  | some name => (name, [])
  | none =>
    let name := (slug.map titleCase).getD ""
    (name, [defaulted "name" name])

def colorScheme (scalars : List Scalar) : Except Diagnostic (ColorScheme × List Diagnostic) :=
  match Scalar.find? scalars "colorScheme" with
  | some s =>
    match ColorScheme.ofId s.value with
    | .ok scheme => .ok (scheme, [])
    | .error e => .error (errorAt "M-4-2" "Invalid color scheme" e.message s.span)
  | none => .ok (.blue, [defaulted "colorScheme" ColorScheme.blue.id])

def footerKind (scalars : List Scalar) : FooterKind × List Diagnostic :=
  match Scalar.find? scalars "footer" with
  | some s =>
    match FooterKind.ofId? s.value with
    | some kind => (kind, [])
    | none =>
      (.standard,
        [(Diagnostic.warning "Unknown footer").withCode "M-4-3"
          |>.withProblem ("`" ++ s.value ++ "` is not a footer kind; using `standard`")
          |>.withLocation s.span
          |>.withInfo "Footer kinds are `standard`, `minimal` and `none`"])
  | none => (.standard, [defaulted "footer" FooterKind.standard.id])

def registryKind (name : String) : VariableKind :=
  ((Variable.lookup? name).map (·.kind)).getD .text

def declaration (m : Member) : VariableDeclaration × List Diagnostic :=
  match m.kind with
  | none => (⟨m.name, registryKind m.name, m.optional⟩, [])
  | some comment =>
    match VariableKind.ofId? comment.toString with
    | some kind => (⟨m.name, kind, m.optional⟩, [])
    | none =>
      (⟨m.name, .text, m.optional⟩,
        [(Diagnostic.warning "Unknown variable type").withCode "M-4-2"
          |>.withProblem ("`" ++ comment.toString ++ "` on `" ++ m.name ++
            "` is not a variable type; using `text`")
          |>.withLocation comment.span])

def distinctMembers (members : List Member) : List Member :=
  members.foldl
    (fun seen m => if seen.any (·.name == m.name) then seen else seen ++ [m]) []

def interface (source : Slice) : Option (List VariableDeclaration) × List Diagnostic :=
  match interfaceMembers? source with
  | none => (none, [])
  | some members =>
    let declarations := (distinctMembers members).map declaration
    (some (declarations.map Prod.fst), declarations.flatMap Prod.snd)

def inferred (name : String) : VariableDeclaration :=
  ⟨name, registryKind name, false⟩

def undeclared (name : String) : Diagnostic :=
  (Diagnostic.warning "Undeclared variable in source").withCode "M-4-5"
    |>.withProblem ("`" ++ Variable.token name ++
      "` is used but missing from the variables interface")
    |>.withNote "Added to the template's declarations"

def withInferred (declared : Option (List VariableDeclaration)) (referenced : List String) :
    List VariableDeclaration × List Diagnostic :=
  match declared with
  | some declared =>
    let new := referenced.filter fun name => !declared.any (·.name == name)
    (declared ++ new.map inferred, new.map undeclared)
  | none =>
    (referenced.map inferred,
      if referenced.isEmpty then []
      else [(Diagnostic.warning "No variables interface").withCode "M-4-3"
        |>.withProblem "Variable declarations were inferred from the content"])

def unsupportedExpression (location : Span) : Diagnostic :=
  (Diagnostic.warning "Unsupported expression").withCode "M-4-4"
    |>.withProblem "Only `$\x7bdata.name\x7d` interpolations become variable references"
    |>.withLocation location

def skipped (problem : String) (location : Span) : Diagnostic :=
  (Diagnostic.warning "Unrecognized content skipped").withCode "M-4-4"
    |>.withProblem problem
    |>.withLocation location

def withRebuildHint (d : Diagnostic) : Diagnostic :=
  d.withHint "Rebuild this part of the email with blocks in the editor"

def skippedText (location : Span) : Diagnostic :=
  withRebuildHint (skipped "Loose text outside any element was skipped" location)

def skippedElement (tag : String) (location : Span) : Diagnostic :=
  -- a tag named `text` reads like loose text
  skipped (if tag = "text" then "Loose text outside any element was skipped"
    else "A `<" ++ tag ++ ">` element could not be mapped to a block") location

def openingSpan (s : Slice) : Span :=
  (s.take (Shape.openingTag s.chars).length).span

structure Content where
  blocks : List Block
  usedIds : List String
  marker : Option Marker
  warnings : List Diagnostic
deriving DecidableEq, Repr

namespace Content

def numberedId (kind : BlockKind) (n : Nat) : String :=
  kind.id ++ "-" ++ n.repr

/-- The first id, counted from the block's place, that no block has. One of as many ids as there
are blocks and one more is free. -/
def freshId (used : List String) (kind : BlockKind) (index : Nat) : String :=
  let n := ((List.range (used.length + 1)).find? fun k =>
    !used.contains (numberedId kind (index + 1 + k))).getD used.length
  numberedId kind (index + 1 + n)

def chosenId (used : List String) (marked : Option String) (kind : BlockKind) (index : Nat) :
    String :=
  match marked.filter fun id => !used.contains id with
  | some id => id
  | none => freshId used kind index

def nextId (c : Content) (kind : BlockKind) (index : Nat) : String × Content :=
  let id := chosenId c.usedIds (c.marker.map (·.id)) kind index
  (id, { c with usedIds := c.usedIds ++ [id], marker := none })

def withMarkedScheme (scheme : Option ColorScheme) : Block.Content → Block.Content
  | .button label url own => .button label url (scheme.or own)
  | .link text url own => .link text url (scheme.or own)
  | content => content

def add (c : Content) (content : Block.Content) : Content :=
  let content := withMarkedScheme (c.marker.bind (·.scheme)) content
  let (id, c) := c.nextId content.kind c.blocks.length
  { c with blocks := c.blocks ++ [⟨id, content⟩] }

def skip (c : Content) (warning : Diagnostic) : Content :=
  { c with marker := none, warnings := c.warnings ++ [warning] }

def warn (c : Content) (warnings : List Diagnostic) : Content :=
  { c with warnings := c.warnings ++ warnings }

def addSegment (scheme : ColorScheme) (c : Content) (segment : Segment) : Content :=
  let pieces := Literal.pieces segment.slice
  let markup := Literal.text pieces
  let span := segment.slice.span
  let c := c.warn ((Literal.unsupported pieces).map unsupportedExpression)
  match segment.kind with
  | .comment =>
    match Marker.ofComment? (Text.trim markup) with
    | some marker => { c with marker }
    | none => c
  | .text => c.skip (skippedText span)
  | .element tag true =>
    match recognize scheme tag markup with
    | some content => c.add content
    | none => c.skip (withRebuildHint (skippedElement tag span))
  | .element tag false =>
    c.skip (withRebuildHint ((skippedElement tag span).withDetail .error
      ("`<" ++ tag ++ ">` is never closed") (openingSpan segment.slice)))

end Content

def noContent : Diagnostic :=
  (Diagnostic.warning "No content found").withCode "M-4-4"
    |>.withProblem "Expected a `renderContent` function returning a template literal"

def unterminatedContent (location : Span) : Diagnostic :=
  (Diagnostic.warning "Unterminated content").withCode "M-4-4"
    |>.withProblem "The content template literal is never closed"
    |>.withLocation location

def contentBody (source : Slice) : Except Diagnostic Slice :=
  match source.find ContentStart.read with
  | none => .error noContent
  | some (start, _, rest) =>
    match Literal.bodyLength rest.chars with
    | none => .error (unterminatedContent (start.before rest).span)
    | some n => .ok (rest.take n)

def content (scheme : ColorScheme) (source : Slice) : List Block × List Diagnostic :=
  match contentBody source with
  | .error warning => ([], [warning])
  | .ok body =>
    let c := (segments body).foldl (Content.addSegment scheme) ⟨[], [], none, []⟩
    (c.blocks, c.warnings)

structure Lenient where
  name : String
  description : Option String
  preheader : Option String
  footer : Footer
  context : Option String
  blocks : List Block
  declared : Option (List VariableDeclaration)
  warnings : List Diagnostic
deriving DecidableEq, Repr

def lenient (source : Slice) (scalars : List Scalar) (slug : Option String)
    (scheme : Option (ColorScheme × List Diagnostic)) : Lenient :=
  let scalar (name : String) : Option String := (Scalar.find? scalars name).map Scalar.value
  let (name, nameWarnings) := name scalars slug
  let (footer, footerWarnings) := footerKind scalars
  let (declared, interfaceWarnings) := interface source
  let (blocks, contentWarnings) := content ((scheme.map Prod.fst).getD .blue) source
  { name, blocks, declared
    description := scalar "description"
    preheader := (scalar "preheader").bind nonblank?
    footer := ⟨footer, scalar "footerNote"⟩
    context := scalar "context"
    warnings := nameWarnings ++ (scheme.map Prod.snd).getD [] ++ footerWarnings ++
      interfaceWarnings ++ contentWarnings }

def Lenient.template (x : Lenient) (slug subject : String) (header : Header)
    (scheme : ColorScheme) : Template where
  slug := slug
  name := x.name
  description := x.description
  subject := subject
  preheader := x.preheader
  colorScheme := scheme
  header := header
  blocks := x.blocks
  footer := x.footer
  declarations := []
  context := x.context

def errorOf : Except Diagnostic α → List Diagnostic
  | .ok _ => []
  | .error e => [e]

end Source

namespace Import

open Source

def declaring (declared : Option (List VariableDeclaration)) (warnings : List Diagnostic)
    (t : Template) : Import :=
  let (declarations, variableWarnings) := withInferred declared t.variableNames
  let template := { t with declarations }
  match template.validate with
  | .ok () => ⟨some template, [], warnings ++ variableWarnings⟩
  | .error e => ⟨none, [e.diagnostic], warnings ++ variableWarnings⟩

def ofSource (text : String) : Import :=
  let source := Text.Slice.ofString text
  let scalars := scalars source
  let slug := slug scalars
  let subject := subject scalars
  let header := header source
  let scheme := colorScheme scalars
  let rest := lenient source scalars slug.toOption scheme.toOption
  match slug, subject, header, scheme with
  | .ok slug, .ok subject, .ok header, .ok (scheme, _) =>
    declaring rest.declared rest.warnings (rest.template slug subject header scheme)
  | slug, subject, header, scheme =>
    ⟨none, errorOf slug ++ errorOf subject ++ errorOf header ++ errorOf scheme, rest.warnings⟩

end Import

end EmailTemplates
