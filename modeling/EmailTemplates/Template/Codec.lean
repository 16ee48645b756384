import EmailTemplates.Block.Codec
import EmailTemplates.Json.Parser
import EmailTemplates.Template.Basic

namespace EmailTemplates

namespace Header

def toJson (h : Header) : Json :=
  .object (Json.optionalMember "emoji" (h.emoji.map .string) ++ [("title", .string h.title)] ++
    Json.optionalMember "subtitle" (h.subtitle.map .string))

def ofJson? (j : Json) : Option Header := do
  let r ← Record.ofJson? ["emoji", "title", "subtitle"] j
  return ⟨← r.optional "emoji" Json.string?, ← r.required "title" Json.string?,
    ← r.optional "subtitle" Json.string?⟩

end Header

namespace Footer

def toJson (f : Footer) : Json :=
  .object ([("kind", .string f.kind.id)] ++ Json.optionalMember "note" (f.note.map .string))

def ofJson? (j : Json) : Option Footer := do
  let r ← Record.ofJson? ["kind", "note"] j
  return ⟨← r.withDefault "kind" .standard fun j => do FooterKind.ofId? (← j.name? false),
    ← r.optional "note" Json.string?⟩

end Footer

namespace VariableDeclaration

def toJson (v : VariableDeclaration) : Json :=
  .object ([("name", .string v.name), ("kind", .string v.kind.id)] ++
    if v.optional then [("optional", .bool true)] else [])

def ofJson? (j : Json) : Option VariableDeclaration := do
  let r ← Record.ofJson? ["name", "kind", "optional"] j
  return ⟨← r.required "name" Json.string?,
    ← r.withDefault "kind" .text fun j => do VariableKind.ofId? (← j.name? false),
    ← r.withDefault "optional" false Json.bool?⟩

end VariableDeclaration

namespace Template

def toJson (t : Template) : Json :=
  .object ([("slug", .string t.slug), ("name", .string t.name)] ++
    Json.optionalMember "description" (t.description.map .string) ++
    [("subject", .string t.subject)] ++
    Json.optionalMember "preheader" (t.preheader.map .string) ++
    [("colorScheme", t.colorScheme.toJson), ("header", t.header.toJson),
     ("blocks", .array (t.blocks.map Block.toJson)), ("footer", t.footer.toJson),
     ("variables", .array (t.declarations.map VariableDeclaration.toJson))] ++
    Json.optionalMember "context" (t.context.map .string))

def ofJson? (j : Json) : Option Template := do
  let r ← Record.ofJson?
    ["slug", "name", "description", "subject", "preheader", "colorScheme", "header", "blocks",
     "footer", "variables", "context"] j
  return {
    slug := ← r.required "slug" Json.string?
    name := ← r.required "name" Json.string?
    description := ← r.optional "description" Json.string?
    subject := ← r.required "subject" Json.string?
    preheader := ← r.optional "preheader" Json.string?
    colorScheme := ← r.withDefault "colorScheme" .blue (ColorScheme.ofJson? false)
    header := ← r.required "header" Header.ofJson?
    blocks := ← r.withDefault "blocks" [] (Json.list? (Block.read? 2))
    footer := ← r.withDefault "footer" ⟨.standard, none⟩ Footer.ofJson?
    declarations := ← r.withDefault "variables" [] (Json.list? VariableDeclaration.ofJson?)
    context := ← r.optional "context" Json.string? }

inductive LoadError where
  | json
  | invalid (e : TemplateError)
deriving DecidableEq, Repr

def load (j : Option Json) : Except LoadError Template :=
  match j.bind ofJson? with
  | none => .error .json
  | some t =>
    match t.validate with
    | .ok () => .ok t
    | .error e => .error (.invalid e)

def loadText (text : String) : Except LoadError Template :=
  load (Json.parse? text)

end Template

end EmailTemplates
