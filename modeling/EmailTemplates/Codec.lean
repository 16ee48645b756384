import EmailTemplates.Diagnostic.CodeInfo
import EmailTemplates.Diagnostic.Codec
import EmailTemplates.Email
import EmailTemplates.Source.Import
import EmailTemplates.SystemTemplate
import EmailTemplates.Template.Codec

namespace EmailTemplates

def VariableDefinition.toJson (d : VariableDefinition) : Json :=
  .object [("name", .string d.name), ("label", .string d.label), ("kind", .string d.kind.id),
    ("category", .string d.category.id), ("example", .string d.sample),
    ("availableIn", .array (d.availableIn.map .string))]

def SystemTemplate.toJson (s : SystemTemplate) : Json :=
  .object [("slug", .string s.slug), ("name", .string s.name),
    ("description", .string s.description), ("category", .string s.category),
    ("colorScheme", s.colorScheme.toJson)]

def CodeInfo.toJson (info : CodeInfo) : Json :=
  .object [("subsystem", .string info.subsystem), ("title", .string info.title),
    ("message_template", .string info.messageTemplate), ("docs_url", .string info.docsUrl),
    ("since_version", .string info.sinceVersion)]

def Diagnostic.docsUrl? (d : Diagnostic) : Option String :=
  (d.code.bind CodeInfo.find?).map CodeInfo.docsUrl

def Company.ofJson? (j : Json) : Option Company := do
  let r ← Record.ofJson? ["company-name", "company-address", "support-email", "footer-note"] j
  return {
    name := ← r.withDefault "company-name" Company.unnamed.name Json.string?
    address := ← r.optional "company-address" Json.string?
    supportEmail := ← r.optional "support-email" Json.string?
    footerNote := ← r.optional "footer-note" Json.string? }

def RenderedEmail.toJson (e : RenderedEmail) : Json :=
  .object [("subject", .string e.subject), ("html", .string e.html),
    ("unresolved", .array (e.unresolved.map .string))]

def Import.toJson (i : Import) : Json :=
  .object [("template", (i.template.map Template.toJson).getD .null),
    ("errors", .array (i.errors.map Diagnostic.toJson)),
    ("warnings", .array (i.warnings.map Diagnostic.toJson))]

end EmailTemplates
