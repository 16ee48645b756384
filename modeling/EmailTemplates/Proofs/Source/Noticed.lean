import EmailTemplates.Proofs.Source.Located
import EmailTemplates.Proofs.Source.Passed

namespace EmailTemplates

open Text (Slice byteLength byteLength_append)

namespace Text

variable {cs ds es fs : List Char}

theorem append_cases (h : cs ++ ds = es ++ fs) (hne : cs ≠ []) :
    (∃ after, cs = es ++ after) ∨
      ∃ front c d back, es = front ++ c :: d :: back ∧ cs = front ++ [c] ∧
        ds = d :: (back ++ fs) := by
  rcases List.append_eq_append_iff.mp h with ⟨cut, hes, hds⟩ | ⟨after, hcs, -⟩
  · cases cut with
    | nil => exact .inl ⟨[], by rw [hes, List.append_nil, List.append_nil]⟩
    | cons d back =>
      obtain ⟨front, c, rfl⟩ := (List.eq_nil_or_concat' cs).resolve_left hne
      exact .inr ⟨front, c, d, back, by rw [hes, List.append_assoc]; rfl, rfl, hds⟩
  · exact .inl ⟨after, hcs⟩

theorem Slice.IsPartOf.eq_of_span {s a b : Slice} (ha : a.IsPartOf s) (hb : b.IsPartOf s)
    (h : a.span = b.span) : a = b := by
  obtain ⟨before, after, hs, hstart⟩ := ha
  obtain ⟨before', after', hs', hstart'⟩ := hb
  have hstarts : a.start = b.start := congrArg Span.start h
  have hstops : a.start + byteLength a.chars = b.start + byteLength b.chars :=
    congrArg Span.stop h
  obtain ⟨-, hrest⟩ := eq_of_byteLength_eq (hs.symm.trans hs') (by omega)
  obtain ⟨hchars, -⟩ := eq_of_byteLength_eq hrest (by omega)
  obtain ⟨start, chars⟩ := a
  obtain ⟨start', chars'⟩ := b
  cases hstarts
  cases hchars
  rfl

end Text

/-- An unsupported expression is reported at the place of the code. -/
def Import.Notices (i : Import) (code : Slice) : Prop :=
  ∃ d ∈ i.warnings, d.title = "Unsupported expression" ∧ d.location = some code.span

namespace Source

open Literal (Cut Passed Takes codeOf pieces unsupported)

variable {s body code expression : Slice} {segment : Segment} {d : Diagnostic}

theorem unsupported_mem_pieces (hcode : Passed body code expression)
    (hname : Literal.nameOf? expression.chars = none) (hs : segment ∈ segments body)
    (hpart : code.IsPartOf segment.slice) : .unsupported code ∈ pieces segment.slice := by
  obtain ⟨before, after, hbody, hstart, hcut, -⟩ := exists_cuts_of_mem_segments hs
  obtain ⟨before', after', hsegment, hstart'⟩ := hpart
  cases hcode with
  | @code x e rest hx he hchars =>
    -- what is taken before the interpolation is what is before the segment and within it
    have hparts : x ++ (codeOf e ++ rest) = before ++ before' ++ (codeOf e ++ after' ++ after) := by
      rw [← hchars, hbody, hsegment]
      simp only [List.append_assoc]
    have hplace : byteLength x = byteLength (before ++ before') := by
      have hsum := hstart'.trans (congrArg (· + byteLength before') hstart)
      rw [byteLength_append]
      dsimp only at hsum
      omega
    obtain ⟨rfl, hrest⟩ := Text.eq_of_byteLength_eq hparts hplace
    rw [hrest] at hx
    have hcut' : Cut before (before' ++ (codeOf e ++ after')) := by
      rw [← hsegment]
      exact hcut.of_append_right
    obtain ⟨ps, hps⟩ := hx.of_append.stops_of_cut hcut' segment.slice.start
    rw [← hsegment, ← hstart'] at hps
    have hslice : pieces segment.slice = _ := hps
    rw [hslice]
    exact List.mem_append_right ps (Literal.unsupported_mem_pieces_codeOf he hname _ after')

theorem Literal.Passed.chars_eq (h : Passed body code expression) :
    code.chars = codeOf expression.chars := by
  cases h
  rfl

theorem Literal.Passed.isPartOf (h : Passed body code expression) :
    code.IsPartOf body ∧ expression.IsPartOf code := by
  cases h with
  | @code x e rest hx he hchars =>
    refine ⟨⟨x, rest, hchars, rfl⟩, ['$', '{'], ['}'], rfl, ?_⟩
    rw [byteLength_append, ← Nat.add_assoc]

theorem not_angle_of_mem_codeOf {e : List Char} (hopen : '<' ∉ e) (hclose : '>' ∉ e) {c : Char}
    (h : c ∈ codeOf e) : c ≠ '<' ∧ c ≠ '>' := by
  simp only [codeOf, List.mem_cons, List.mem_append, List.not_mem_nil, or_false] at h
  rcases h with rfl | rfl | h | rfl
  · decide
  · decide
  · exact ⟨fun heq => hopen (heq ▸ h), fun heq => hclose (heq ▸ h)⟩
  · decide

theorem exists_segment_of_no_angle (hcode : Passed body code expression)
    (hopen : '<' ∉ expression.chars) (hclose : '>' ∉ expression.chars) :
    ∃ segment ∈ segments body, code.IsPartOf segment.slice := by
  cases hcode with
  | @code x e rest hx he hchars =>
    -- the segment that has the dollar sign
    obtain ⟨segment, hs, hle, hge⟩ :=
      (covers_segments body).outside x '$' _ hchars (by decide)
    obtain ⟨before, after, hbody, hstart, -, hangle⟩ := exists_cuts_of_mem_segments hs
    obtain ⟨before', rfl, hrest⟩ := Text.exists_append_of_byteLength_le (hbody.symm.trans hchars)
      (by omega)
    have hstop : segment.slice.stop = segment.slice.start + byteLength segment.slice.chars := rfl
    have hdollar : '$'.utf8Size = 1 := rfl
    rw [byteLength_append] at hge
    obtain ⟨held, hsegment, hheld⟩ := Text.exists_append_of_byteLength_le hrest.symm (by omega)
    have hne : held ≠ [] := by
      rintro rfl
      rw [hsegment, List.append_nil] at hstop
      omega
    refine ⟨segment, hs, ?_⟩
    rcases Text.append_cases hheld.symm hne with ⟨after', rfl⟩ | ⟨front, c, d, back, hcut, rfl, rfl⟩
    · exact ⟨before', after', hsegment, by rw [hstart, byteLength_append, Nat.add_assoc]⟩
    · -- the cut is between two characters of the interpolation
      rw [hsegment, ← List.append_assoc, ← List.append_assoc] at hangle
      rcases hangle.beside with rfl | rfl
      · exact absurd rfl (not_angle_of_mem_codeOf hopen hclose (by simp [hcut])).2
      · exact absurd rfl (not_angle_of_mem_codeOf hopen hclose (by simp [hcut])).1

def tellsUnsupported (d : Diagnostic) : Bool :=
  d.title == "Unsupported expression"

def unsupportedIn (segment : Segment) : List Diagnostic :=
  (unsupported (pieces segment.slice)).map unsupportedExpression

theorem filter_addSegment (scheme : ColorScheme) (c : Content) (segment : Segment) :
    (c.addSegment scheme segment).warnings.filter tellsUnsupported =
      c.warnings.filter tellsUnsupported ++ unsupportedIn segment := by
  have hall : (unsupportedIn segment).filter tellsUnsupported = unsupportedIn segment := by
    refine List.filter_eq_self.mpr fun d hd => ?_
    obtain ⟨span, -, rfl⟩ := List.mem_map.mp hd
    rfl
  have hwarn : (c.warnings ++ unsupportedIn segment).filter tellsUnsupported =
      c.warnings.filter tellsUnsupported ++ unsupportedIn segment := by
    rw [List.filter_append, hall]
  have hskip {w : Diagnostic} (hw : tellsUnsupported w = false) :
      (c.warnings ++ unsupportedIn segment ++ [w]).filter tellsUnsupported =
        c.warnings.filter tellsUnsupported ++ unsupportedIn segment := by
    rw [List.filter_append, hwarn, List.filter_cons_of_neg (by simp [hw]), List.filter_nil,
      List.append_nil]
  unfold Content.addSegment
  dsimp only
  split
  · split
    · exact hwarn
    · exact hwarn
  · exact hskip rfl
  · split
    · exact hwarn
    · exact hskip rfl
  · exact hskip rfl

theorem filter_foldl (scheme : ColorScheme) (segments : List Segment) (c : Content) :
    (segments.foldl (Content.addSegment scheme) c).warnings.filter tellsUnsupported =
      c.warnings.filter tellsUnsupported ++ segments.flatMap unsupportedIn := by
  induction segments generalizing c with
  | nil => simp
  | cons segment segments ih =>
    rw [List.foldl_cons, ih, filter_addSegment, List.flatMap_cons, List.append_assoc]

theorem filter_content (scheme : ColorScheme) {source : Slice} (h : contentBody source = .ok body) :
    (content scheme source).2.filter tellsUnsupported = (segments body).flatMap unsupportedIn := by
  rw [content, h]
  exact filter_foldl scheme (segments body) ⟨[], [], none, []⟩

theorem filter_name (scalars : List Scalar) (slug : Option String) :
    (name scalars slug).2.filter tellsUnsupported = [] := by
  unfold name
  split
  · rfl
  · rfl

theorem filter_colorScheme (scalars : List Scalar) :
    (((colorScheme scalars).toOption.map Prod.snd).getD []).filter tellsUnsupported = [] := by
  unfold colorScheme
  split
  · split
    · rfl
    · rfl
  · rfl

theorem filter_footerKind (scalars : List Scalar) :
    (footerKind scalars).2.filter tellsUnsupported = [] := by
  unfold footerKind
  split
  · split
    · rfl
    · rfl
  · rfl

theorem filter_interface (source : Slice) :
    (interface source).2.filter tellsUnsupported = [] := by
  unfold interface
  split
  · rfl
  · refine List.filter_eq_nil_iff.mpr fun d hd => ?_
    obtain ⟨p, hp, hd⟩ := List.mem_flatMap.mp hd
    obtain ⟨m, -, rfl⟩ := List.mem_map.mp hp
    unfold declaration at hd
    split at hd
    · cases hd
    · split at hd
      · cases hd
      · cases List.mem_singleton.mp hd
        exact Bool.false_ne_true

theorem filter_withInferred (declared : Option (List VariableDeclaration))
    (referenced : List String) :
    (withInferred declared referenced).2.filter tellsUnsupported = [] := by
  unfold withInferred
  split
  · refine List.filter_eq_nil_iff.mpr fun d hd => ?_
    obtain ⟨name, -, rfl⟩ := List.mem_map.mp hd
    exact Bool.false_ne_true
  · dsimp only
    split
    · rfl
    · rfl

theorem filter_lenient {source : Slice} (h : contentBody source = .ok body)
    (slug : Option String) :
    (lenient source (scalars source) slug
      (colorScheme (scalars source)).toOption).warnings.filter tellsUnsupported =
      (segments body).flatMap unsupportedIn := by
  simp only [lenient, List.filter_append, filter_name, filter_colorScheme, filter_footerKind,
    filter_interface, filter_content _ h, List.nil_append]

theorem filter_ofSource {text : String} (h : contentBody (.ofString text) = .ok body) :
    (Import.ofSource text).warnings.filter tellsUnsupported =
      (segments body).flatMap unsupportedIn := by
  unfold Import.ofSource
  dsimp only
  split
  · have hdeclaring {declared warnings} (t : Template) :
        (Import.declaring declared warnings t).warnings.filter tellsUnsupported =
          warnings.filter tellsUnsupported := by
      unfold Import.declaring
      dsimp only
      split
      · rw [List.filter_append, filter_withInferred, List.append_nil]
      · rw [List.filter_append, filter_withInferred, List.append_nil]
    rw [hdeclaring]
    exact filter_lenient h _
  · exact filter_lenient h _

theorem notices_iff {text : String} (hbody : contentBody (.ofString text) = .ok body)
    (hcode : code.IsPartOf body) : (Import.ofSource text).Notices code ↔
      ∃ segment ∈ segments body, .unsupported code ∈ pieces segment.slice := by
  have hmem (d : Diagnostic) : d ∈ (Import.ofSource text).warnings ∧ tellsUnsupported d = true ↔
      ∃ segment ∈ segments body, d ∈ unsupportedIn segment := by
    rw [← List.mem_filter, filter_ofSource hbody, List.mem_flatMap]
  constructor
  · rintro ⟨d, hd, htitle, hlocation⟩
    obtain ⟨segment, hs, hd⟩ := (hmem d).mp ⟨hd, beq_iff_eq.mpr htitle⟩
    obtain ⟨span, hspan, rfl⟩ := List.mem_map.mp hd
    obtain ⟨piece, hpiece, hspan⟩ := List.mem_filterMap.mp hspan
    cases piece with
    | char c => cases hspan
    | reference name => cases hspan
    | unsupported other =>
      cases hspan
      obtain ⟨inner, hother⟩ := Literal.interpolates_of_unsupported hpiece
      have hpart := hother.isPartOf.1.trans ((covers_segments body).inside segment hs)
      cases hpart.eq_of_span hcode (Option.some.inj hlocation)
      exact ⟨segment, hs, hpiece⟩
  · rintro ⟨segment, hs, hpiece⟩
    have hspan : code.span ∈ unsupported (pieces segment.slice) :=
      List.mem_filterMap.mpr ⟨_, hpiece, rfl⟩
    have hd := (hmem _).mpr ⟨segment, hs, List.mem_map_of_mem hspan⟩
    exact ⟨_, hd.1, rfl, rfl⟩

theorem noticed_iff_within_segment {text : String} {start rest : Slice} {n : Nat}
    (hstart : (Slice.ofString text).find ContentStart.read = some (start, (), rest))
    (hend : Literal.bodyLength rest.chars = some n)
    (hcode : (code, expression) ∈ Literal.interpolations rest)
    (hname : Literal.nameOf? expression.chars = none) :
    code.IsPartOf (.ofString text) ∧ code.chars = codeOf expression.chars ∧
      ((Import.ofSource text).Notices code ↔
        ∃ segment ∈ segments (rest.take n), code.IsPartOf segment.slice) ∧
      ('<' ∉ expression.chars → '>' ∉ expression.chars →
        (Import.ofSource text).Notices code) := by
  have hbody : contentBody (.ofString text) = .ok (rest.take n) := by
    rw [contentBody, hstart]
    simp only [hend]
  have hpassed := (Literal.mem_interpolations_iff.mp hcode).take hend
  have hiff : (Import.ofSource text).Notices code ↔
      ∃ segment ∈ segments (rest.take n), code.IsPartOf segment.slice := by
    rw [notices_iff hbody hpassed.isPartOf.1]
    constructor
    · rintro ⟨segment, hs, hpiece⟩
      obtain ⟨inner, hi⟩ := Literal.interpolates_of_unsupported hpiece
      exact ⟨segment, hs, hi.isPartOf.1⟩
    · rintro ⟨segment, hs, hpart⟩
      exact ⟨segment, hs, unsupported_mem_pieces hpassed hname hs hpart⟩
  refine ⟨hpassed.isPartOf.1.trans (isPartOf_contentBody hbody), hpassed.chars_eq, hiff, ?_⟩
  exact fun hopen hclose => hiff.mpr (exists_segment_of_no_angle hpassed hopen hclose)

theorem noticed_call :
    let text := "export const content = `<p>$\x7bf(x)\x7d</p>`;"
    let code : Slice := ⟨27, "$\x7bf(x)\x7d".toList⟩
    (Import.ofSource text).Notices code ∧
      ∃ segment ∈ segments ⟨24, "<p>$\x7bf(x)\x7d</p>".toList⟩, code.IsPartOf segment.slice := by
  intro text code
  let rest : Slice := ⟨24, "<p>$\x7bf(x)\x7d</p>`;".toList⟩
  have hstart : (Slice.ofString text).find ContentStart.read = some (.ofString text, (), rest) := by
    decide +kernel
  have hcode : (code, ⟨29, "f(x)".toList⟩) ∈ Literal.interpolations rest := by decide +kernel
  obtain ⟨-, -, hiff, hplain⟩ := noticed_iff_within_segment hstart
    (by decide +kernel : Literal.bodyLength rest.chars = some 14) hcode (by decide +kernel)
  have hnotices := hplain (by decide) (by decide)
  exact ⟨hnotices, hiff.mp hnotices⟩

theorem unnoticed_markup :
    let text := "export const content = `<p>$\x7ba ? \"</p><p>\" : \"\"\x7d</p>`;"
    let code : Slice := ⟨27, "$\x7ba ? \"</p><p>\" : \"\"\x7d".toList⟩
    let expression : Slice := ⟨29, "a ? \"</p><p>\" : \"\"".toList⟩
    (Slice.ofString text).find ContentStart.read =
        some (.ofString text, (), (Slice.ofString text).drop 24) ∧
      (code, expression) ∈ Literal.interpolations ((Slice.ofString text).drop 24) ∧
      Literal.nameOf? expression.chars = none ∧ ¬ (Import.ofSource text).Notices code := by
  intro text code expression
  have hnone : (Import.ofSource text).warnings.filter tellsUnsupported = [] := by decide +kernel
  refine ⟨by decide +kernel, by decide +kernel, by decide +kernel, ?_⟩
  rintro ⟨d, hd, htitle, -⟩
  exact List.filter_eq_nil_iff.mp hnone d hd (beq_iff_eq.mpr htitle)

end Source

end EmailTemplates
