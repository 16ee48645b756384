import EmailTemplates.Proofs.Source.Bytewise
import EmailTemplates.Proofs.Source.Required
import EmailTemplates.Proofs.Source.Sliced
import EmailTemplates.Proofs.Text.Span

namespace EmailTemplates

open Text (Slice byteLength)

/-- A text can be cut at both ends of such a span. -/
structure Span.PointsInto (span : Span) (text : String) : Prop where
  ordered : span.start ≤ span.stop
  inside : span.stop ≤ text.utf8ByteSize
  start : (⟨span.start⟩ : String.Pos.Raw).IsValid text
  stop : (⟨span.stop⟩ : String.Pos.Raw).IsValid text

structure Diagnostic.PointsInto (d : Diagnostic) (text : String) : Prop where
  location : ∀ span ∈ d.location, span.PointsInto text
  details : ∀ detail ∈ d.details, ∀ span ∈ detail.location, span.PointsInto text ∧
    ∃ whole ∈ d.location, whole.start ≤ span.start ∧ span.stop ≤ whole.stop

namespace Text

theorem Slice.IsPartOf.pointsInto {part : Slice} {text : String}
    (h : part.IsPartOf (.ofString text)) : part.span.PointsInto text := by
  obtain ⟨before, after, hchars, hstart⟩ := h
  have htext : text.toList = before ++ (part.chars ++ after) := hchars
  have hpart : part.start = byteLength before := hstart.trans (Nat.zero_add _)
  have hstop : part.stop = byteLength (before ++ part.chars) := by
    rw [Slice.stop, hpart, byteLength_append]
  have hvalid : (⟨part.stop⟩ : String.Pos.Raw).IsValid text :=
    hstop ▸ isValid_append (htext.trans (List.append_assoc ..).symm)
  exact {
    ordered := Nat.le_add_right _ _
    inside := hvalid.le_utf8ByteSize
    start := by
      rw [Slice.span, hpart]
      exact isValid_append htext
    stop := hvalid }

end Text

namespace Source

open Literal (pieces)

structure Located (source : Slice) (d : Diagnostic) : Prop where
  location : ∀ span ∈ d.location, ∃ part : Slice, Sliced source part ∧ part.span = span
  details : ∀ detail ∈ d.details, ∀ span ∈ detail.location, ∃ whole part : Slice,
    Sliced source whole ∧ d.location = some whole.span ∧ part.IsPartOf whole ∧ part.span = span

section

variable {source : Slice} {d : Diagnostic}

theorem located_of_nowhere (h : d.location = none)
    (hdetails : ∀ detail ∈ d.details, detail.location = none) : Located source d where
  location := by
    rw [h]
    exact nofun
  details := by
    intro detail hdetail
    rw [hdetails detail hdetail]
    exact nofun

theorem located_of_sliced {part : Slice} (hpart : Sliced source part)
    (h : d.location = some part.span)
    (hdetails : ∀ detail ∈ d.details, detail.location = none) : Located source d where
  location := by
    rw [h]
    rintro _ ⟨⟩
    exact ⟨part, hpart, rfl⟩
  details := by
    intro detail hdetail
    rw [hdetails detail hdetail]
    exact nofun

theorem sliced_of_find? {name : String} {x : Scalar}
    (h : Scalar.find? (scalars source) name = some x) : Sliced source x.raw :=
  .scalar (List.mem_of_find?_eq_some h)

theorem located_of_violates {r : Requirement} (h : Violates source r d) : Located source d := by
  cases h with
  | noSlug _ => exact located_of_nowhere rfl (List.forall_mem_nil _)
  | badSlug hs _ => exact located_of_sliced (sliced_of_find? hs) rfl (List.forall_mem_nil _)
  | noSubject _ => exact located_of_nowhere rfl (List.forall_mem_nil _)
  | blankSubject hs _ => exact located_of_sliced (sliced_of_find? hs) rfl (List.forall_mem_nil _)
  | noHeader _ => exact located_of_nowhere rfl (List.forall_mem_nil _)
  | noTitle hobject _ => exact located_of_sliced (.header hobject) rfl (List.forall_mem_nil _)
  | unknownScheme hs _ => exact located_of_sliced (sliced_of_find? hs) rfl (List.forall_mem_nil _)

theorem located_name {slug : Option String} (h : d ∈ (name (scalars source) slug).2) :
    Located source d := by
  unfold name at h
  split at h
  · cases h
  · cases List.mem_singleton.mp h
    exact located_of_nowhere rfl (List.forall_mem_nil _)

theorem located_colorScheme {p : ColorScheme × List Diagnostic}
    (hp : colorScheme (scalars source) = .ok p) (h : d ∈ p.2) : Located source d := by
  unfold colorScheme at hp
  split at hp
  · split at hp
    · cases hp
      cases h
    · cases hp
  · cases hp
    cases List.mem_singleton.mp h
    exact located_of_nowhere rfl (List.forall_mem_nil _)

theorem located_footerKind (h : d ∈ (footerKind (scalars source)).2) : Located source d := by
  unfold footerKind at h
  split at h
  · rename_i s hs
    split at h
    · cases h
    · cases List.mem_singleton.mp h
      exact located_of_sliced (sliced_of_find? hs) rfl (List.forall_mem_singleton.mpr rfl)
  · cases List.mem_singleton.mp h
    exact located_of_nowhere rfl (List.forall_mem_nil _)

theorem located_interface (h : d ∈ (interface source).2) : Located source d := by
  unfold interface at h
  split at h
  · cases h
  · rename_i members hmembers
    obtain ⟨p, hp, hd⟩ := List.mem_flatMap.mp h
    obtain ⟨m, hm, rfl⟩ := List.mem_map.mp hp
    unfold declaration at hd
    split at hd
    · cases hd
    · rename_i comment hkind
      split at hd
      · cases hd
      · cases List.mem_singleton.mp hd
        exact located_of_sliced (.kind hmembers (mem_of_mem_distinctMembers hm) hkind) rfl
          (List.forall_mem_nil _)

inductive Reported (segment : Segment) : Diagnostic → Prop
  | unsupported {code : Slice} : .unsupported code ∈ pieces segment.slice →
      Reported segment (unsupportedExpression code.span)
  | looseText : Reported segment (skippedText segment.slice.span)
  | unmapped (tag : String) :
      Reported segment (withRebuildHint (skippedElement tag segment.slice.span))
  | unclosed (tag : String) :
      Reported segment (withRebuildHint ((skippedElement tag segment.slice.span).withDetail .error
        ("`<" ++ tag ++ ">` is never closed") (openingSpan segment.slice)))

theorem reported_of_mem_addSegment {scheme : ColorScheme} {c : Content} {segment : Segment}
    (h : d ∈ (c.addSegment scheme segment).warnings) : d ∈ c.warnings ∨ Reported segment d := by
  have hwarn (h : d ∈ c.warnings ++
      (Literal.unsupported (pieces segment.slice)).map unsupportedExpression) :
      d ∈ c.warnings ∨ Reported segment d := by
    refine (List.mem_append.mp h).imp_right fun h => ?_
    obtain ⟨span, hspan, rfl⟩ := List.mem_map.mp h
    obtain ⟨piece, hpiece, hcode⟩ := List.mem_filterMap.mp hspan
    cases piece with
    | unsupported code =>
      cases hcode
      exact .unsupported hpiece
    | char c => cases hcode
    | reference name => cases hcode
  have hskip {w : Diagnostic} (hw : Reported segment w) (h : d ∈ c.warnings ++
      (Literal.unsupported (pieces segment.slice)).map unsupportedExpression ++ [w]) :
      d ∈ c.warnings ∨ Reported segment d := by
    rcases List.mem_append.mp h with h | h
    · exact hwarn h
    · cases List.mem_singleton.mp h
      exact .inr hw
  unfold Content.addSegment at h
  dsimp only at h
  split at h
  · split at h
    · exact hwarn h
    · exact hwarn h
  · exact hskip .looseText h
  · rename_i tag _
    split at h
    · exact hwarn h
    · exact hskip (.unmapped tag) h
  · rename_i tag _
    exact hskip (.unclosed tag) h

theorem reported_of_mem_foldl {scheme : ColorScheme} {segments : List Segment} {c : Content}
    (h : d ∈ (segments.foldl (Content.addSegment scheme) c).warnings) :
    d ∈ c.warnings ∨ ∃ segment ∈ segments, Reported segment d := by
  induction segments generalizing c with
  | nil => exact .inl h
  | cons segment segments ih =>
    rcases ih h with h | ⟨other, hother, hd⟩
    · exact (reported_of_mem_addSegment h).imp_right fun hd => ⟨segment, List.mem_cons_self, hd⟩
    · exact .inr ⟨other, List.mem_cons_of_mem _ hother, hd⟩

theorem located_of_reported {body : Slice} {segment : Segment}
    (hbody : contentBody source = .ok body) (hs : segment ∈ segments body)
    (h : Reported segment d) : Located source d := by
  have hsegment : Sliced source segment.slice := .segment hbody hs
  cases h with
  | unsupported hcode =>
    obtain ⟨expression, hi⟩ := Literal.interpolates_of_unsupported hcode
    exact located_of_sliced (.interpolation hbody hs hi) rfl (List.forall_mem_nil _)
  | looseText => exact located_of_sliced hsegment rfl (List.forall_mem_nil _)
  | unmapped tag => exact located_of_sliced hsegment rfl (List.forall_mem_nil _)
  | unclosed tag =>
    refine ⟨?_, List.forall_mem_singleton.mpr ?_⟩
    · rintro _ ⟨⟩
      exact ⟨_, hsegment, rfl⟩
    · rintro _ ⟨⟩
      exact ⟨_, _, hsegment, rfl, Slice.isPartOf_take _ segment.slice, rfl⟩

theorem located_contentBody (h : contentBody source = .error d) : Located source d := by
  unfold contentBody at h
  split at h
  · cases h
    exact located_of_nowhere rfl (List.forall_mem_nil _)
  · rename_i start _ rest hfind
    split at h
    · cases h
      exact located_of_sliced (.contentStart hfind) rfl (List.forall_mem_nil _)
    · cases h

theorem located_content {scheme : ColorScheme} (h : d ∈ (content scheme source).2) :
    Located source d := by
  unfold content at h
  split at h
  · rename_i w hw
    cases List.mem_singleton.mp h
    exact located_contentBody hw
  · rename_i body hbody
    rcases reported_of_mem_foldl h with h | ⟨segment, hs, hd⟩
    · cases h
    · exact located_of_reported hbody hs hd

theorem located_lenient {slug : Option String}
    (h : d ∈ (lenient source (scalars source) slug
      (colorScheme (scalars source)).toOption).warnings) : Located source d := by
  simp only [lenient, List.mem_append] at h
  rcases h with (((h | h) | h) | h) | h
  · exact located_name h
  · cases hp : colorScheme (scalars source) with
    | ok p =>
      rw [hp] at h
      exact located_colorScheme hp h
    | error e =>
      rw [hp] at h
      cases h
  · exact located_footerKind h
  · exact located_interface h
  · exact located_content h

theorem located_withInferred {declared : Option (List VariableDeclaration)}
    {referenced : List String} (h : d ∈ (withInferred declared referenced).2) :
    Located source d := by
  unfold withInferred at h
  split at h
  · obtain ⟨name, -, rfl⟩ := List.mem_map.mp h
    exact located_of_nowhere rfl (List.forall_mem_singleton.mpr rfl)
  · dsimp only at h
    split at h
    · cases h
    · cases List.mem_singleton.mp h
      exact located_of_nowhere rfl (List.forall_mem_nil _)

theorem located_declaring {declared : Option (List VariableDeclaration)}
    {warnings : List Diagnostic} {t : Template} (hw : ∀ w ∈ warnings, Located source w)
    (h : d ∈ (Import.declaring declared warnings t).diagnostics) : Located source d := by
  have hwarnings (h : d ∈ warnings ++ (withInferred declared t.variableNames).2) :
      Located source d := (List.mem_append.mp h).elim (hw d) located_withInferred
  unfold Import.declaring Import.diagnostics at h
  dsimp only at h
  split at h
  · exact hwarnings h
  · rcases List.mem_cons.mp h with rfl | h
    · exact located_of_nowhere rfl (List.forall_mem_nil _)
    · exact hwarnings h

end

theorem located_ofSource {text : String} {d : Diagnostic}
    (h : d ∈ (Import.ofSource text).diagnostics) : Located (.ofString text) d := by
  have hlenient {slug : Option String} := @located_lenient (.ofString text) d slug
  have herrors (h : d ∈ Requirement.all.flatMap (violations (.ofString text))) :
      Located (.ofString text) d := by
    obtain ⟨r, -, hr⟩ := List.mem_flatMap.mp h
    exact located_of_violates (mem_violations.mp hr)
  rw [flatMap_violations] at herrors
  unfold Import.ofSource at h
  dsimp only at h
  split at h
  · exact located_declaring (fun w hw => located_lenient hw) h
  · exact (List.mem_append.mp h).elim herrors hlenient

end Source

namespace Import

open Source Source.Bytes

theorem diagnostics_point_into_source (text : String) :
    (∀ d ∈ (ofSource text).diagnostics, d.PointsInto text) ∧
      (∀ part, Sliced (.ofString text) part →
        part.IsPartOf (.ofString text) ∧ part.span.PointsInto text) ∧
      ∀ cs, Agree '}' cs (HeaderObject.bodyLength none 0 cs) (objectEnd none 0 (Text.utf8 cs)) ∧
        Agree '`' cs (Literal.bodyLength cs) (literalEnd (Text.utf8 cs)) ∧
        Agree '}' cs (Literal.expressionLength 0 cs) (expressionEnd 0 (Text.utf8 cs)) := by
  have hsliced {part : Slice} (h : Sliced (.ofString text) part) : part.span.PointsInto text :=
    h.isPartOf.pointsInto
  refine ⟨fun d hd => ?_, fun part h => ⟨h.isPartOf, hsliced h⟩, fun cs =>
    ⟨@agree_objectEnd none nofun 0 cs, agree_literalEnd cs, agree_expressionEnd 0 cs⟩⟩
  obtain ⟨hlocation, hdetails⟩ := located_ofSource hd
  constructor
  · intro span hspan
    obtain ⟨part, hpart, rfl⟩ := hlocation span hspan
    exact hsliced hpart
  · intro detail hdetail span hspan
    obtain ⟨whole, part, hwhole, hd, hpart, rfl⟩ := hdetails detail hdetail span hspan
    exact ⟨(hpart.trans hwhole.isPartOf).pointsInto, whole.span, hd, hpart.start_le, hpart.stop_le⟩

end Import

end EmailTemplates
