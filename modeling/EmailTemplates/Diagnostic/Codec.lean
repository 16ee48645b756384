import EmailTemplates.Diagnostic.Basic
import EmailTemplates.Json.Record

namespace EmailTemplates

namespace Severity

def id : Severity → String
  | error => "error"
  | warning => "warning"
  | info => "info"

def ofId? (s : String) : Option Severity :=
  [error, warning, info].find? (·.id == s)

end Severity

namespace DetailKind

def id : DetailKind → String
  | error => "error"
  | info => "info"
  | note => "note"

def ofId? (s : String) : Option DetailKind :=
  [error, info, note].find? (·.id == s)

end DetailKind

namespace Span

def offset? : Json → Option Nat :=
  Json.natBelow? UInt64.size

def toJson (s : Span) : Json :=
  .object [("start", .nat s.start), ("end", .nat s.stop)]

def ofJson? (j : Json) : Option Span := do
  let r ← Record.ofJson? ["start", "end"] j
  return ⟨← r.required "start" offset?, ← r.required "end" offset?⟩

end Span

namespace Detail

def toJson (d : Detail) : Json :=
  .object ([("kind", .string d.kind.id), ("content", .string d.content)] ++
    Json.optionalMember "location" (d.location.map Span.toJson))

def ofJson? (j : Json) : Option Detail := do
  let r ← Record.ofJson? ["kind", "content", "location"] j
  return {
    kind := ← r.required "kind" fun j => do DetailKind.ofId? (← j.name? false)
    content := ← r.required "content" Json.string?
    location := ← r.optionalInList "location" Span.ofJson? }

end Detail

namespace Diagnostic

def toJson (d : Diagnostic) : Json :=
  .object (Json.optionalMember "code" (d.code.map .string) ++
    [("title", .string d.title), ("kind", .string d.severity.id)] ++
    Json.optionalMember "problem" (d.problem.map .string) ++
    (if d.details.isEmpty then [] else [("details", .array (d.details.map Detail.toJson))]) ++
    (if d.hints.isEmpty then [] else [("hints", .array (d.hints.map .string))]) ++
    Json.optionalMember "location" (d.location.map Span.toJson))

def ofJson? (j : Json) : Option Diagnostic := do
  let r ← Record.ofJson?
    ["code", "title", "kind", "problem", "details", "hints", "location"] j
  return {
    code := ← r.optionalInList "code" Json.string?
    title := ← r.required "title" Json.string?
    severity := ← r.required "kind" fun j => do Severity.ofId? (← j.name? false)
    problem := ← r.optionalInList "problem" Json.string?
    details := ← r.withDefault "details" [] (Json.list? Detail.ofJson?)
    hints := ← r.withDefault "hints" [] (Json.list? Json.string?)
    location := ← r.optionalInList "location" Span.ofJson? }

end Diagnostic

end EmailTemplates
