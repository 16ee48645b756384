import EmailTemplates.Diagnostic.Codec
import EmailTemplates.Draft.Codec
import EmailTemplates.Proofs.Json.Record
import EmailTemplates.Proofs.SystemTemplate
import EmailTemplates.Template.Codec
import Mathlib

namespace EmailTemplates

open Json (written orNone? Fits fits_string fits_nat fits_bool fits_array fits_object fits_written)

namespace Json

@[simp] theorem string?_string (s : String) : (string s).string? = some s := rfl

@[simp] theorem bool?_bool (b : Bool) : (bool b).bool? = some b := rfl

@[simp] theorem orNone?_string (value : Option String) :
    orNone? string? (value.map string) = some value :=
  orNone?_map (fun _ => nofun) fun _ _ => rfl

@[simp] theorem list?_string (values : List String) :
    list? string? (array (values.map string)) = some values :=
  list?_map fun _ _ => rfl

end Json

@[simp] theorem ColorScheme.ofJson?_toJson (lenient : Bool) (scheme : ColorScheme) :
    ofJson? lenient scheme.toJson = some scheme := ofId?_id scheme

@[simp] theorem ColorScheme.orNone?_toJson (lenient : Bool) (scheme : Option ColorScheme) :
    orNone? (ofJson? lenient) (scheme.map toJson) = some scheme :=
  Json.orNone?_map (fun _ => nofun) fun scheme _ => ofJson?_toJson lenient scheme

namespace Block

@[simp] theorem width?_nat (w : UInt32) : width? (.nat w.toNat) = some w := by
  rw [width?, Json.natBelow?_of_lt w.toNat_lt, Option.map_some, UInt32.ofNat_toNat]

@[simp] theorem orNone?_width (width : Option UInt32) :
    orNone? width? (width.map fun w => .nat w.toNat) = some width :=
  Json.orNone?_map (fun _ => nofun) fun w _ => width?_nat w

@[simp] theorem level?_nat (level : UInt8) : level? (.nat level.toNat) = some level := by
  rw [level?, Json.natBelow?_of_lt level.toNat_lt, Option.map_some, UInt8.ofNat_toNat]

end Block

theorem InfoItem.ofJson?_toJson (item : InfoItem) : ofJson? item.toJson = some item := by
  obtain ⟨r, hr, h⟩ := @Record.exists_holds item.toJson ["label", "value"]
    [("label", some (.string item.label)), ("value", some (.string item.value))]
    rfl rfl (by decide)
  simp [ofJson?, hr, h.required, List.lookup]

theorem Step.ofJson?_toJson (step : Step) : ofJson? step.toJson = some step := by
  obtain ⟨r, hr, h⟩ := @Record.exists_holds step.toJson ["title", "description"]
    [("title", some (.string step.title)), ("description", some (.string step.description))]
    rfl rfl (by decide)
  simp [ofJson?, hr, h.required, List.lookup]

@[simp] theorem InfoItem.list?_toJson (items : List InfoItem) :
    Json.list? ofJson? (.array (items.map toJson)) = some items :=
  Json.list?_map fun item _ => ofJson?_toJson item

@[simp] theorem Step.list?_toJson (steps : List Step) :
    Json.list? ofJson? (.array (steps.map toJson)) = some steps :=
  Json.list?_map fun step _ => ofJson?_toJson step

theorem Json.tagged?_object {tag : String} {tags : List String} {lenient : Bool} (s : String)
    {fields : List (String × Option Json)} (htag : tag ∉ fields.map Prod.fst) :
    (object ((tag, .string s) :: written fields)).tagged? tag tags lenient =
      some (s, object (written fields)) := by
  have hne : ∀ m ∈ written fields, m.1 ≠ tag := by
    rintro m hm rfl
    exact htag ((map_fst_written_sublist fields).subset (List.mem_map_of_mem hm))
  have htagged : (written fields).filter (·.1 == tag) = [] :=
    List.filter_eq_nil_iff.mpr fun m hm => by simpa using hne m hm
  have hrest : (written fields).filter (·.1 != tag) = written fields :=
    List.filter_eq_self.mpr fun m hm => by simpa using hne m hm
  simp [tagged?, htagged, hrest, tagged?.tagOf?]

namespace Block

def Content.fieldValues : Content → List (String × Option Json)
  | greeting nameVariable => [("nameVariable", some (.string nameVariable))]
  | paragraph text => [("text", some (.string text))]
  | infoBox title items scheme =>
    [("title", title.map .string), ("items", some (.array (items.map InfoItem.toJson))),
      ("colorScheme", scheme.map ColorScheme.toJson)]
  | button label urlVariable scheme =>
    [("label", some (.string label)), ("urlVariable", some (.string urlVariable)),
      ("colorScheme", scheme.map ColorScheme.toJson)]
  | stepList title steps =>
    [("title", title.map .string), ("steps", some (.array (steps.map Step.toJson)))]
  | code value label => [("code", some (.string value)), ("label", label.map .string)]
  | image contentId alt width =>
    [("contentId", some (.string contentId)), ("alt", some (.string alt)),
      ("width", width.map fun w => .nat w.toNat)]
  | divider => []
  | spacer height => [("height", some (.nat height.toNat))]
  | heading text level => [("text", some (.string text)), ("level", some (.nat level.toNat))]
  | list items ordered =>
    [("items", some (.array (items.map .string))), ("ordered", some (.bool ordered))]
  | link text urlVariable scheme =>
    [("text", some (.string text)), ("urlVariable", some (.string urlVariable)),
      ("colorScheme", scheme.map ColorScheme.toJson)]
  | customHtml html => [("html", some (.string html))]

theorem Content.written_fieldValues (content : Content) :
    written content.fieldValues = content.members := by
  cases content with
  | infoBox title items scheme => cases title <;> cases scheme <;> rfl
  | button label v scheme => cases scheme <;> rfl
  | stepList title steps => cases title <;> rfl
  | code value label => cases label <;> rfl
  | image contentId alt width => cases width <;> rfl
  | link text v scheme => cases scheme <;> rfl
  | _ => rfl

theorem Content.map_fst_fieldValues (content : Content) :
    content.fieldValues.map Prod.fst = fieldNames content.kind := by
  cases content <;> rfl

theorem Content.ofRecord?_of_holds {r : Record} {content : Content} {id : Option Json}
    (h : r.Holds (("id", id) :: content.fieldValues)) :
    ofRecord? r content.kind = some content := by
  cases content <;>
    simp [ofRecord?, Content.kind, h.required, h.optional, h.withDefault, fieldValues, List.lookup]

theorem type_not_mem_fieldNames (kind : BlockKind) : "type" ∉ "id" :: fieldNames kind := by
  cases kind <;> decide

theorem nodup_fieldNames (kind : BlockKind) : ("id" :: fieldNames kind).Nodup := by
  cases kind <;> decide

theorem toJson_eq (b : Block) : b.toJson = .object (("type", .string b.kind.id) ::
    written (("id", some (.string b.id)) :: b.content.fieldValues)) := by
  rw [Json.written_some, Content.written_fieldValues]
  rfl

theorem ofJson?_toJson (nested : Bool) (b : Block) : ofJson? nested b.toJson = some b := by
  have hnames : (("id", some (Json.string b.id)) :: b.content.fieldValues).map Prod.fst =
      "id" :: fieldNames b.kind := congrArg (List.cons "id") b.content.map_fst_fieldValues
  obtain ⟨r, hr, h⟩ := Record.exists_holds _ _ rfl hnames (nodup_fieldNames b.kind)
  have hid : r.required "id" Json.string? = some b.id := by simp [h.required, List.lookup]
  have hcontent : Content.ofRecord? r b.kind = some b.content := Content.ofRecord?_of_holds h
  rw [toJson_eq, ofJson?, Json.tagged?_object b.kind.id (hnames ▸ type_not_mem_fieldNames b.kind)]
  simp [BlockKind.ofId?_id, hr, hid, hcontent]

theorem fits_fieldValues (content : Content) :
    ∀ field ∈ content.fieldValues, ∀ value ∈ field.2, value.Fits 2 := by
  have hitems (items : List InfoItem) : (Json.array (items.map InfoItem.toJson)).Fits 2 :=
    fits_array (by simp [InfoItem.toJson, fits_object, fits_string])
  have hsteps (steps : List Step) : (Json.array (steps.map Step.toJson)).Fits 2 :=
    fits_array (by simp [Step.toJson, fits_object, fits_string])
  have hstrings (values : List String) : (Json.array (values.map .string)).Fits 2 :=
    fits_array (by simp [fits_string])
  have hwidth (w : UInt32) : (Json.nat w.toNat).Fits 2 := fits_nat (w.toNat_lt.trans (by decide))
  have hlevel (level : UInt8) : (Json.nat level.toNat).Fits 2 :=
    fits_nat (level.toNat_lt.trans (by decide))
  cases content <;>
    simp [Content.fieldValues, fits_string, fits_bool, hitems, hsteps, hstrings, hwidth, hlevel,
      ColorScheme.toJson]

theorem fits_toJson (b : Block) : b.toJson.Fits 3 := by
  have hfields : ∀ m ∈ written (("id", some (Json.string b.id)) :: b.content.fieldValues),
      m.2.Fits 2 := by
    rintro ⟨name, value⟩ hm
    rcases List.mem_cons.mp (Json.mem_written.mp hm) with hid | hfield
    · cases hid
      exact fits_string b.id
    · exact fits_fieldValues b.content _ hfield _ rfl
  rw [toJson_eq]
  exact fits_object (List.forall_mem_cons.mpr ⟨fits_string _, hfields⟩)

theorem read?_toJson {enclosing : Nat} (h : enclosing ≤ 124) (b : Block) :
    read? enclosing b.toJson = some b := by
  have hlevels : 3 ≤ Json.maxDepth - enclosing := by
    rw [Json.maxDepth]
    omega
  rw [read?, Json.wholly?_of_fits b.fits_toJson hlevels]
  exact ofJson?_toJson false b

end Block

theorem Header.toJson_eq (header : Header) : header.toJson = .object (written
    [("emoji", header.emoji.map .string), ("title", some (.string header.title)),
      ("subtitle", header.subtitle.map .string)]) := by
  simp [toJson, written, Json.optionalMember]

theorem Header.ofJson?_toJson (header : Header) : ofJson? header.toJson = some header := by
  obtain ⟨r, hr, h⟩ := Record.exists_holds ["emoji", "title", "subtitle"] _ header.toJson_eq rfl
    (by decide)
  simp [ofJson?, hr, h.required, h.optional, List.lookup]

theorem Footer.toJson_eq (footer : Footer) : footer.toJson = .object (written
    [("kind", some (.string footer.kind.id)), ("note", footer.note.map .string)]) := by
  simp [toJson, written, Json.optionalMember]

theorem Footer.ofJson?_toJson (footer : Footer) : ofJson? footer.toJson = some footer := by
  obtain ⟨r, hr, h⟩ := Record.exists_holds ["kind", "note"] _ footer.toJson_eq rfl (by decide)
  simp [ofJson?, hr, h.withDefault, h.optional, List.lookup, Json.name?, FooterKind.ofId?_id]

theorem VariableDeclaration.toJson_eq (v : VariableDeclaration) : v.toJson = .object (written
    [("name", some (.string v.name)), ("kind", some (.string v.kind.id)),
      ("optional", if v.optional then some (.bool true) else none)]) := by
  cases h : v.optional <;> simp [toJson, written, Json.optionalMember, h]

theorem VariableDeclaration.ofJson?_toJson (v : VariableDeclaration) :
    ofJson? v.toJson = some v := by
  obtain ⟨r, hr, h⟩ := Record.exists_holds ["name", "kind", "optional"] _ v.toJson_eq rfl
    (by decide)
  cases v with
  | mk name kind optional =>
    cases optional <;>
      simp [ofJson?, hr, h.required, h.withDefault, List.lookup, Json.name?, VariableKind.ofId?_id]

namespace Template

theorem toJson_eq (t : Template) : t.toJson = .object (written
    [("slug", some (.string t.slug)), ("name", some (.string t.name)),
      ("description", t.description.map .string), ("subject", some (.string t.subject)),
      ("preheader", t.preheader.map .string), ("colorScheme", some t.colorScheme.toJson),
      ("header", some t.header.toJson), ("blocks", some (.array (t.blocks.map Block.toJson))),
      ("footer", some t.footer.toJson),
      ("variables", some (.array (t.declarations.map VariableDeclaration.toJson))),
      ("context", t.context.map .string)]) := by
  simp [toJson, written, Json.optionalMember]

theorem ofJson?_toJson (t : Template) : ofJson? t.toJson = some t := by
  have hblocks : Json.list? (Block.read? 2) (.array (t.blocks.map Block.toJson)) = some t.blocks :=
    Json.list?_map fun b _ => b.read?_toJson (by decide)
  have hdeclarations : Json.list? VariableDeclaration.ofJson?
      (.array (t.declarations.map VariableDeclaration.toJson)) = some t.declarations :=
    Json.list?_map fun v _ => v.ofJson?_toJson
  obtain ⟨r, hr, h⟩ := Record.exists_holds
    ["slug", "name", "description", "subject", "preheader", "colorScheme", "header", "blocks",
      "footer", "variables", "context"] _ t.toJson_eq rfl (by decide)
  simp [ofJson?, hr, h.required, h.optional, h.withDefault, List.lookup, hblocks, hdeclarations,
    Header.ofJson?_toJson, Footer.ofJson?_toJson]

theorem fits_toJson (t : Template) : t.toJson.Fits 5 := by
  have hheader : t.header.toJson.Fits 4 := by
    rw [Header.toJson_eq]
    exact fits_written (by simp [fits_string])
  have hfooter : t.footer.toJson.Fits 4 := by
    rw [Footer.toJson_eq]
    exact fits_written (by simp [fits_string])
  have hblocks : (Json.array (t.blocks.map Block.toJson)).Fits 4 :=
    fits_array (by simp [Block.fits_toJson])
  have hdeclaration (v : VariableDeclaration) : v.toJson.Fits 3 := by
    rw [VariableDeclaration.toJson_eq]
    exact fits_written (by simp [fits_string, fits_bool])
  have hdeclarations : (Json.array (t.declarations.map VariableDeclaration.toJson)).Fits 4 :=
    fits_array (by simp [hdeclaration])
  rw [toJson_eq]
  exact fits_written (by
    simp [fits_string, ColorScheme.toJson, hheader, hfooter, hblocks, hdeclarations])

theorem loadText_of_parse? {t : Template} {text : String} (hv : t.validate = .ok ())
    (htext : Json.parse? text = some t.toJson) : loadText text = .ok t := by
  rw [loadText, load, htext, Option.bind_some, ofJson?_toJson]
  simp only [hv]

end Template

namespace EditCommand

@[simp] theorem index?_nat (index : UInt64) : index? (.nat index.toNat) = some index := by
  rw [index?, Json.natBelow?_of_lt index.toNat_lt, Option.map_some, UInt64.ofNat_toNat]

def tag : EditCommand → String
  | insertBlock .. => "insert-block"
  | replaceBlock _ => "replace-block"
  | moveBlock .. => "move-block"
  | removeBlock _ => "remove-block"
  | setSubject _ => "set-subject"
  | setPreheader _ => "set-preheader"
  | setColorScheme _ => "set-color-scheme"

def fieldValues : EditCommand → List (String × Option Json)
  | insertBlock index block => [("index", some (.nat index.toNat)), ("block", some block.toJson)]
  | replaceBlock block => [("block", some block.toJson)]
  | moveBlock id target => [("id", some (.string id)), ("to", some (.nat target.toNat))]
  | removeBlock id => [("id", some (.string id))]
  | setSubject subject => [("subject", some (.string subject))]
  | setPreheader preheader => [("preheader", some ((preheader.map Json.string).getD .null))]
  | setColorScheme scheme => [("color_scheme", some scheme.toJson)]

theorem toJson_eq (c : EditCommand) :
    c.toJson = .object (("command", .string c.tag) :: written c.fieldValues) := by
  cases c <;> rfl

theorem fits_toJson (c : EditCommand) : c.toJson.Fits 4 := by
  have hindex (index : UInt64) : (Json.nat index.toNat).Fits 3 := fits_nat index.toNat_lt
  have hpreheader (preheader : Option String) :
      ((preheader.map Json.string).getD .null).Fits 3 := by
    cases preheader with
    | none => exact Json.fits_null
    | some preheader => exact fits_string preheader
  cases c <;> refine fits_object ?_ <;>
    simp [fits_string, hindex, hpreheader, Block.fits_toJson, ColorScheme.toJson]

theorem orNone?_preheader (preheader : Option String) :
    orNone? Json.string? (some ((preheader.map Json.string).getD .null)) = some preheader := by
  cases preheader <;> rfl

theorem read?_toJson (c : EditCommand) : read? c.toJson = some c := by
  have htag : "command" ∉ c.fieldValues.map Prod.fst := by cases c <;> simp [fieldValues]
  have hnodup : (c.fieldValues.map Prod.fst).Nodup := by cases c <;> simp [fieldValues]
  obtain ⟨r, hr, h⟩ := Record.exists_holds _ c.fieldValues rfl rfl hnodup
  rw [read?, Json.wholly?_of_fits c.fits_toJson (by decide), Option.bind_eq_bind, Option.bind_some,
    toJson_eq, Json.tagged?_object c.tag htag]
  cases c <;> simp only [fieldValues, List.map_cons, List.map_nil] at hr h <;>
    simp [tag, fieldValues, hr, h.required, h.optionalInList, List.lookup, orNone?_preheader,
      Block.ofJson?_toJson]

end EditCommand

namespace Span

def Addressable (s : Span) : Prop :=
  s.start < UInt64.size ∧ s.stop < UInt64.size

theorem ofJson?_toJson {s : Span} (hs : s.Addressable) : ofJson? s.toJson = some s := by
  have hstart : offset? (.nat s.start) = some s.start := Json.natBelow?_of_lt hs.1
  have hstop : offset? (.nat s.stop) = some s.stop := Json.natBelow?_of_lt hs.2
  obtain ⟨r, hr, h⟩ := @Record.exists_holds s.toJson ["start", "end"]
    [("start", some (.nat s.start)), ("end", some (.nat s.stop))] rfl rfl (by decide)
  simp [ofJson?, hr, h.required, List.lookup, hstart, hstop]

theorem orNone?_toJson {location : Option Span} (h : ∀ s ∈ location, s.Addressable) :
    orNone? ofJson? (location.map toJson) = some location :=
  Json.orNone?_map (fun _ => nofun) fun s hs => ofJson?_toJson (h s hs)

end Span

@[simp] theorem DetailKind.ofId?_id (kind : DetailKind) : ofId? kind.id = some kind := by
  cases kind <;> rfl

@[simp] theorem Severity.ofId?_id (severity : Severity) : ofId? severity.id = some severity := by
  cases severity <;> rfl

theorem Detail.ofJson?_toJson {d : Detail} (hd : ∀ s ∈ d.location, s.Addressable) :
    ofJson? d.toJson = some d := by
  have hwritten : d.toJson = .object (written [("kind", some (.string d.kind.id)),
      ("content", some (.string d.content)), ("location", d.location.map Span.toJson)]) := by
    simp [toJson, written, Json.optionalMember]
  obtain ⟨r, hr, h⟩ := Record.exists_holds ["kind", "content", "location"] _ hwritten rfl
    (by decide)
  simp [ofJson?, hr, h.required, h.optionalInList, List.lookup, Json.name?, Span.orNone?_toJson hd]

namespace Diagnostic

def Addressable (d : Diagnostic) : Prop :=
  (∀ s ∈ d.location, s.Addressable) ∧ ∀ detail ∈ d.details, ∀ s ∈ detail.location, s.Addressable

theorem toJson_eq (d : Diagnostic) : d.toJson = .object (written
    [("code", d.code.map .string), ("title", some (.string d.title)),
      ("kind", some (.string d.severity.id)), ("problem", d.problem.map .string),
      ("details", Json.unlessEmpty (d.details.map Detail.toJson)),
      ("hints", Json.unlessEmpty (d.hints.map .string)),
      ("location", d.location.map Span.toJson)]) := by
  have hdetails := @Json.written_unlessEmpty "details" (d.details.map Detail.toJson)
  have hhints := @Json.written_unlessEmpty "hints" (d.hints.map .string)
  rw [List.isEmpty_map] at hdetails hhints
  simp [toJson, written, Json.optionalMember_some, hdetails, hhints]

theorem ofJson?_toJson {d : Diagnostic} (hd : d.Addressable) : ofJson? d.toJson = some d := by
  have hdetails : (Json.unlessEmpty (d.details.map Detail.toJson)).elim (some [])
      (Json.list? Detail.ofJson?) = some d.details :=
    Json.elim_unlessEmpty fun detail hmem => Detail.ofJson?_toJson (hd.2 detail hmem)
  have hhints : (Json.unlessEmpty (d.hints.map .string)).elim (some [])
      (Json.list? Json.string?) = some d.hints :=
    Json.elim_unlessEmpty fun _ _ => rfl
  obtain ⟨r, hr, h⟩ := Record.exists_holds
    ["code", "title", "kind", "problem", "details", "hints", "location"] _ d.toJson_eq rfl
    (by decide)
  simp [ofJson?, hr, h.required, h.optionalInList, h.withDefault, List.lookup, Json.name?,
    Span.orNone?_toJson hd.1, hdetails, hhints]

end Diagnostic

theorem json_loses_nothing :
    (∀ t : Template, Template.ofJson? t.toJson = some t) ∧
      (∀ b : Block, Block.read? 0 b.toJson = some b ∧
        ∀ nested, Block.ofJson? nested b.toJson = some b) ∧
      (∀ c : EditCommand, EditCommand.read? c.toJson = some c) ∧
      (∀ d : Diagnostic, d.Addressable → Diagnostic.ofJson? d.toJson = some d) ∧
      ∀ t : Template, t.validate = .ok () →
        Template.loadText t.toJson.compact = .ok t ∧
          Template.loadText (t.toJson.pretty 0) = .ok t := by
  refine ⟨Template.ofJson?_toJson, fun b => ?_, EditCommand.read?_toJson, fun d hd => ?_,
    fun t hv => ?_⟩
  · exact ⟨b.read?_toJson (by decide), fun nested => b.ofJson?_toJson nested⟩
  · exact Diagnostic.ofJson?_toJson hd
  · have hplain : t.toJson.IsPlain := t.fits_toJson.plain
    exact ⟨Template.loadText_of_parse? hv (Json.parse?_compact hplain),
      Template.loadText_of_parse? hv (Json.parse?_pretty hplain)⟩

theorem json_loses_nothing_welcome :
    let t := SystemTemplate.welcome.starter
    let d := (Diagnostic.warning "Missing subject").withLocation ⟨12, 40⟩
    t.validate = .ok () ∧ Template.loadText t.toJson.compact = .ok t ∧
      Template.loadText (t.toJson.pretty 0) = .ok t ∧
      d.Addressable ∧ Diagnostic.ofJson? d.toJson = some d := by
  obtain ⟨-, -, -, hmessages, hload⟩ := json_loses_nothing
  have hv : SystemTemplate.welcome.starter.validate = .ok () :=
    SystemTemplate.validate_starter SystemTemplate.welcome_mem_all
  have hd : ((Diagnostic.warning "Missing subject").withLocation ⟨12, 40⟩).Addressable := by
    refine ⟨?_, nofun⟩
    rintro s ⟨⟩
    exact ⟨by decide, by decide⟩
  exact ⟨hv, (hload _ hv).1, (hload _ hv).2, hd, hmessages _ hd⟩

end EmailTemplates
