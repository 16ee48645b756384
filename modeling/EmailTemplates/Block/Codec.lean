import EmailTemplates.Block.Basic
import EmailTemplates.Json.Record

namespace EmailTemplates

namespace Json

/-- The tag of a value and its other fields. Where `lenient`, the tag may be given by its place
among all tags. -/
def tagged? (tag : String) (tags : List String) (lenient : Bool) : Json → Option (String × Json)
  | object members =>
    match members.filter (·.1 == tag) with
    | [(_, value)] => do
      return (← tagOf? value, object (members.filter (·.1 != tag)))
    | _ => none
  | array (value :: items) => do return (← tagOf? value, array items)
  | _ => none
where
  tagOf? : Json → Option String
    | string s => some s
    | nat n => if lenient then tags[n]? else none
    | _ => none

end Json

namespace ColorScheme

def toJson (scheme : ColorScheme) : Json :=
  .string scheme.id

def ofJson? (lenient : Bool) (j : Json) : Option ColorScheme := do
  ofId? (← j.name? lenient)

end ColorScheme

namespace InfoItem

def toJson (item : InfoItem) : Json :=
  .object [("label", .string item.label), ("value", .string item.value)]

def ofJson? (j : Json) : Option InfoItem := do
  let r ← Record.ofJson? ["label", "value"] j
  return ⟨← r.required "label" Json.string?, ← r.required "value" Json.string?⟩

end InfoItem

namespace Step

def toJson (step : Step) : Json :=
  .object [("title", .string step.title), ("description", .string step.description)]

def ofJson? (j : Json) : Option Step := do
  let r ← Record.ofJson? ["title", "description"] j
  return ⟨← r.required "title" Json.string?, ← r.required "description" Json.string?⟩

end Step

namespace Block

open Json (optionalMember)

def Content.members : Content → List (String × Json)
  | greeting nameVariable => [("nameVariable", .string nameVariable)]
  | paragraph text => [("text", .string text)]
  | infoBox title items scheme =>
    optionalMember "title" (title.map .string) ++
      [("items", .array (items.map InfoItem.toJson))] ++
      optionalMember "colorScheme" (scheme.map ColorScheme.toJson)
  | button label urlVariable scheme =>
    [("label", .string label), ("urlVariable", .string urlVariable)] ++
      optionalMember "colorScheme" (scheme.map ColorScheme.toJson)
  | stepList title steps =>
    optionalMember "title" (title.map .string) ++ [("steps", .array (steps.map Step.toJson))]
  | code value label => [("code", .string value)] ++ optionalMember "label" (label.map .string)
  | image contentId alt width =>
    [("contentId", .string contentId), ("alt", .string alt)] ++
      optionalMember "width" (width.map fun w => .nat w.toNat)
  | divider => []
  | spacer height => [("height", .nat height.toNat)]
  | heading text level => [("text", .string text), ("level", .nat level.toNat)]
  | list items ordered =>
    [("items", .array (items.map .string)), ("ordered", .bool ordered)]
  | link text urlVariable scheme =>
    [("text", .string text), ("urlVariable", .string urlVariable)] ++
      optionalMember "colorScheme" (scheme.map ColorScheme.toJson)
  | customHtml html => [("html", .string html)]

def toJson (b : Block) : Json :=
  .object (("type", .string b.kind.id) :: ("id", .string b.id) :: b.content.members)

def fieldNames : BlockKind → List String
  | .greeting => ["nameVariable"]
  | .paragraph => ["text"]
  | .infoBox => ["title", "items", "colorScheme"]
  | .button => ["label", "urlVariable", "colorScheme"]
  | .stepList => ["title", "steps"]
  | .code => ["code", "label"]
  | .image => ["contentId", "alt", "width"]
  | .divider => []
  | .spacer => ["height"]
  | .heading => ["text", "level"]
  | .list => ["items", "ordered"]
  | .link => ["text", "urlVariable", "colorScheme"]
  | .customHtml => ["html"]

def width? (j : Json) : Option UInt32 :=
  (j.natBelow? UInt32.size).map UInt32.ofNat

def level? (j : Json) : Option UInt8 :=
  (j.natBelow? UInt8.size).map UInt8.ofNat

def Content.ofRecord? (r : Record) : BlockKind → Option Content
  | .greeting => do return .greeting (← r.required "nameVariable" Json.string?)
  | .paragraph => do return .paragraph (← r.required "text" Json.string?)
  | .infoBox => do
    return .infoBox (← r.optional "title" Json.string?)
      (← r.required "items" (Json.list? InfoItem.ofJson?))
      (← r.optional "colorScheme" (ColorScheme.ofJson? true))
  | .button => do
    return .button (← r.required "label" Json.string?) (← r.required "urlVariable" Json.string?)
      (← r.optional "colorScheme" (ColorScheme.ofJson? true))
  | .stepList => do
    return .stepList (← r.optional "title" Json.string?)
      (← r.required "steps" (Json.list? Step.ofJson?))
  | .code => do
    return .code (← r.required "code" Json.string?) (← r.optional "label" Json.string?)
  | .image => do
    return .image (← r.required "contentId" Json.string?) (← r.required "alt" Json.string?)
      (← r.optional "width" width?)
  | .divider => some .divider
  | .spacer => do return .spacer (← r.required "height" width?)
  | .heading => do
    return .heading (← r.required "text" Json.string?) (← r.withDefault "level" 2 level?)
  | .list => do
    return .list (← r.required "items" (Json.list? Json.string?))
      (← r.withDefault "ordered" false Json.bool?)
  | .link => do
    return .link (← r.required "text" Json.string?) (← r.required "urlVariable" Json.string?)
      (← r.optional "colorScheme" (ColorScheme.ofJson? true))
  | .customHtml => do return .customHtml (← r.required "html" Json.string?)

def ofJson? (nested : Bool) (j : Json) : Option Block := do
  let (tag, rest) ← j.tagged? "type" (BlockKind.all.map BlockKind.id) nested
  let kind ← BlockKind.ofId? tag
  let r ← Record.ofJson? ("id" :: fieldNames kind) rest
  return ⟨← r.required "id" Json.string?, ← Content.ofRecord? r kind⟩

def read? (enclosing : Nat) (j : Json) : Option Block := do
  ofJson? false (← j.wholly? (Json.maxDepth - enclosing))

end Block

end EmailTemplates
