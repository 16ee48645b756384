import EmailTemplates.Proofs.Source.Segments
import EmailTemplates.Source.Import

namespace EmailTemplates.Source

open EmailTemplates.Text (Slice)
open Outcome

namespace ContentStart

theorem isEndOf_skipParameters {s rest : Slice} (h : skipParameters s = some rest) :
    rest.IsEndOf s := by
  obtain ⟨s1, h1, h⟩ := Option.bind_eq_some_iff.mp h
  obtain ⟨⟨a, s2⟩, h2, h⟩ := Option.bind_eq_some_iff.mp h
  cases h
  exact (Slice.isEndOf_skipBlanks s2).trans
    ((Slice.isEndOf_splitAt? h2).trans (Slice.isEndOf_expect h1))

end ContentStart

theorem isEndOf_skipWordType {s rest : Slice} (h : skipWordType s = some rest) :
    rest.IsEndOf s := by
  unfold skipWordType at h
  split at h
  · cases h
    exact Slice.isEndOf_refl s
  · rename_i s1 h1
    obtain ⟨⟨a, s2⟩, h2, rfl⟩ := Option.map_eq_some_iff.mp h
    exact (Slice.isEndOf_skipBlanks s2).trans
      ((Slice.isEndOf_run h2).trans ((Slice.isEndOf_skipBlanks s1).trans (Slice.isEndOf_expect h1)))

namespace ContentStart

theorem leavesEnd_readFunction : Slice.LeavesEnd readFunction := by
  intro s a rest h
  obtain ⟨s1, h1, h⟩ := Option.bind_eq_some_iff.mp h
  obtain ⟨s2, h2, h⟩ := Option.bind_eq_some_iff.mp h
  obtain ⟨s3, h3, h⟩ := Option.bind_eq_some_iff.mp h
  obtain ⟨s4, h4, h⟩ := Option.bind_eq_some_iff.mp h
  obtain ⟨s5, h5, h⟩ := Option.bind_eq_some_iff.mp h
  obtain ⟨s6, h6, h⟩ := Option.bind_eq_some_iff.mp h
  obtain ⟨s7, h7, h⟩ := Option.bind_eq_some_iff.mp h
  obtain ⟨s8, h8, h⟩ := Option.bind_eq_some_iff.mp h
  cases h
  have e3 : s3.IsEndOf s := Slice.isEndOf_words h1 h2 h3
  have e5 : s5.IsEndOf s3 := (isEndOf_skipWordType h5).trans
    ((isEndOf_skipParameters h4).trans (Slice.isEndOf_skipBlanks s3))
  have e7 : s7.IsEndOf s5 := (Slice.isEndOf_expectText h7).trans
    ((Slice.isEndOf_skipBlanks s6).trans (Slice.isEndOf_expect h6))
  have e8 : rest.IsEndOf s7 := (Slice.isEndOf_expect h8).trans (Slice.isEndOf_skipBlanks s7)
  exact e8.trans (e7.trans (e5.trans e3))

theorem isEndOf_getD {x : Option Slice} {s : Slice} (h : ∀ rest, x = some rest → rest.IsEndOf s) :
    (x.getD s).IsEndOf s := by
  cases x with
  | none => exact Slice.isEndOf_refl s
  | some rest => exact h rest rfl

theorem leavesEnd_readConstant : Slice.LeavesEnd readConstant := by
  intro s a rest h
  obtain ⟨s1, h1, h⟩ := Option.bind_eq_some_iff.mp h
  obtain ⟨s2, h2, h⟩ := Option.bind_eq_some_iff.mp h
  obtain ⟨s3, h3, h⟩ := Option.bind_eq_some_iff.mp h
  obtain ⟨s4, h4, h⟩ := Option.bind_eq_some_iff.mp h
  obtain ⟨s5, h5, h⟩ := Option.bind_eq_some_iff.mp h
  obtain ⟨s6, h6, h⟩ := Option.bind_eq_some_iff.mp h
  obtain ⟨s7, h7, h⟩ := Option.bind_eq_some_iff.mp h
  cases h
  have e3 : s3.IsEndOf s := Slice.isEndOf_words h1 h2 h3
  have e6 : s6.skipBlanks.IsEndOf s3 := (Slice.isEndOf_skipBlanks s6).trans
    ((Slice.isEndOf_expect h6).trans ((Slice.isEndOf_skipBlanks s5).trans
      ((Slice.isEndOf_expectText h5).trans (Slice.isEndOf_skipBlanks? h4))))
  -- the parameters and the arrow are both there or both left out
  refine (Slice.isEndOf_expect h7).trans ((isEndOf_getD fun r hr => ?_).trans (e6.trans e3))
  obtain ⟨t1, ht1, hr⟩ := Option.bind_eq_some_iff.mp hr
  obtain ⟨t2, ht2, hr⟩ := Option.bind_eq_some_iff.mp hr
  cases hr
  exact (Slice.isEndOf_skipBlanks t2).trans
    ((Slice.isEndOf_expectText ht2).trans (isEndOf_skipParameters ht1))

theorem leavesEnd_read : Slice.LeavesEnd read := by
  intro s a rest h
  unfold read at h
  cases hf : readFunction s with
  | some p =>
    rw [hf] at h
    cases h
    exact leavesEnd_readFunction _ _ _ hf
  | none =>
    rw [hf] at h
    exact leavesEnd_readConstant _ _ _ h

end ContentStart

theorem isPartOf_contentBody {source body : Slice} (h : contentBody source = .ok body) :
    body.IsPartOf source := by
  unfold contentBody at h
  split at h
  · cases h
  · rename_i start a rest hf
    split at h
    · cases h
    · rename_i n hn
      cases h
      obtain ⟨hstart, hrest⟩ := ContentStart.leavesEnd_read.find hf
      exact (Slice.isPartOf_take n rest).trans_isEndOf (hrest.trans hstart)

def tellsSkipped (d : Diagnostic) : Bool :=
  d.title == "Unrecognized content skipped"

/-- What may become of a segment that is not a comment: the block that it is recognized as, or a
warning that it was skipped, at its place. -/
inductive Becomes (scheme : ColorScheme) (segment : Segment) : Block ⊕ Diagnostic → Prop
  | block {tag id : String} {content : Block.Content} {own : Option ColorScheme} :
      segment.kind = .element tag true →
      recognize scheme tag (Literal.text (Literal.pieces segment.slice)) = some content →
      Becomes scheme segment (.inl ⟨id, Content.withMarkedScheme own content⟩)
  | warning {w : Diagnostic} : tellsSkipped w = true → w.location = some segment.slice.span →
      Becomes scheme segment (.inr w)

namespace Content

def skips (c : Content) : List Diagnostic :=
  c.warnings.filter tellsSkipped

theorem skips_warn_unsupported (c : Content) (spans : List Span) :
    (c.warn (spans.map unsupportedExpression)).skips = c.skips := by
  have hnone : (spans.map unsupportedExpression).filter tellsSkipped = [] := by
    rw [List.filter_eq_nil_iff]
    intro w hw
    obtain ⟨span, -, rfl⟩ := List.mem_map.mp hw
    exact Bool.false_ne_true
  rw [skips, skips, warn, List.filter_append, hnone, List.append_nil]

theorem skips_skip (c : Content) {w : Diagnostic} (h : tellsSkipped w = true) :
    (c.skip w).skips = c.skips ++ [w] := by
  rw [skips, skips, skip, List.filter_append, List.filter_cons_of_pos h, List.filter_nil]

def Adds (c c' : Content) (outcomes : List (Block ⊕ Diagnostic)) : Prop :=
  c'.blocks = c.blocks ++ outcomes.filterMap Sum.getLeft? ∧
    c'.skips = c.skips ++ outcomes.filterMap Sum.getRight?

theorem addSegment_comment (scheme : ColorScheme) (c : Content) {segment : Segment}
    (h : segment.kind = .comment) : Adds c (c.addSegment scheme segment) [] := by
  have hskips := c.skips_warn_unsupported (Literal.unsupported (Literal.pieces segment.slice))
  unfold addSegment
  simp only [h]
  split
  · exact ⟨(List.append_nil _).symm, hskips.trans (List.append_nil _).symm⟩
  · exact ⟨(List.append_nil _).symm, hskips.trans (List.append_nil _).symm⟩

theorem adds_skip {c c' : Content} {w : Diagnostic} (hblocks : c'.blocks = c.blocks)
    (hskips : c'.skips = c.skips) (h : tellsSkipped w = true) : Adds c (c'.skip w) [.inr w] := by
  refine ⟨?_, ?_⟩
  · exact hblocks.trans (List.append_nil _).symm
  · rw [skips_skip c' h, hskips]
    rfl

theorem addSegment_becomes (scheme : ColorScheme) (c : Content) {segment : Segment}
    (h : segment.kind ≠ .comment) :
    ∃ outcome, Becomes scheme segment outcome ∧ Adds c (c.addSegment scheme segment) [outcome] := by
  have hskips := c.skips_warn_unsupported (Literal.unsupported (Literal.pieces segment.slice))
  unfold addSegment
  cases hk : segment.kind with
  | comment => exact absurd hk h
  | text => exact ⟨_, .warning rfl rfl, adds_skip rfl hskips rfl⟩
  | element tag closed =>
    cases closed with
    | true =>
      dsimp only
      split
      · rename_i content hr
        refine ⟨_, .block hk hr, rfl, ?_⟩
        exact hskips.trans (List.append_nil _).symm
      · exact ⟨_, .warning rfl rfl, adds_skip rfl hskips rfl⟩
    | false => exact ⟨_, .warning rfl rfl, adds_skip rfl hskips rfl⟩

theorem Adds.trans {c c' c'' : Content} {xs ys : List (Block ⊕ Diagnostic)} (h : Adds c c' xs)
    (h' : Adds c' c'' ys) : Adds c c'' (xs ++ ys) := by
  refine ⟨?_, ?_⟩
  · rw [h'.1, h.1, List.filterMap_append, List.append_assoc]
  · rw [h'.2, h.2, List.filterMap_append, List.append_assoc]

theorem foldl_addSegment_becomes (scheme : ColorScheme) (segments : List Segment) (c : Content) :
    ∃ outcomes, List.Forall₂ (Becomes scheme) (segments.filter (·.kind != .comment)) outcomes ∧
      Adds c (segments.foldl (addSegment scheme) c) outcomes := by
  induction segments generalizing c with
  | nil => exact ⟨[], .nil, (List.append_nil _).symm, (List.append_nil _).symm⟩
  | cons segment segments ih =>
    obtain ⟨outcomes, hbecome, hadds⟩ := ih (c.addSegment scheme segment)
    rw [List.foldl_cons]
    by_cases h : segment.kind = .comment
    · rw [List.filter_cons_of_neg (by simp [h])]
      exact ⟨outcomes, hbecome, (c.addSegment_comment scheme h).trans hadds⟩
    · obtain ⟨outcome, hone, hadd⟩ := c.addSegment_becomes scheme h
      rw [List.filter_cons_of_pos (by simp [h])]
      exact ⟨outcome :: outcomes, .cons hone hbecome, hadd.trans hadds⟩

end Content

theorem becomes_of_mem_content {scheme : ColorScheme} {source body : Slice}
    (hbody : contentBody source = .ok body) {b : Block} (hb : b ∈ (content scheme source).1) :
    ∃ segment ∈ segments body, Becomes scheme segment (.inl b) := by
  obtain ⟨outcomes, hbecome, hblocks, -⟩ :=
    Content.foldl_addSegment_becomes scheme (segments body) ⟨[], [], none, []⟩
  rw [content, hbody] at hb
  rw [List.nil_append] at hblocks
  have hb' : b ∈ outcomes.filterMap Sum.getLeft? := hblocks ▸ hb
  obtain ⟨outcome, houtcome, hleft⟩ := List.mem_filterMap.mp hb'
  obtain rfl := Sum.getLeft?_eq_some_iff.mp hleft
  obtain ⟨hlength, hzip⟩ := List.forall₂_iff_zip.mp hbecome
  rw [← List.map_snd_zip hlength.ge] at houtcome
  obtain ⟨⟨segment, _⟩, hmem, rfl⟩ := List.mem_map.mp houtcome
  exact ⟨segment, List.mem_of_mem_filter (List.of_mem_zip hmem).1, hzip hmem⟩

theorem length_outcomes (outcomes : List (Block ⊕ Diagnostic)) :
    (outcomes.filterMap Sum.getLeft?).length + (outcomes.filterMap Sum.getRight?).length =
      outcomes.length := by
  induction outcomes with
  | nil => rfl
  | cons outcome outcomes ih =>
    cases outcome with
    | inl b =>
      simp only [List.filterMap_cons, Sum.getLeft?_inl, Sum.getRight?_inl, List.length_cons]
      omega
    | inr w =>
      simp only [List.filterMap_cons, Sum.getLeft?_inr, Sum.getRight?_inr, List.length_cons]
      omega

theorem content_accounts_for_segments :
    (∀ body : Slice, Covers (segments body) body) ∧
      ∀ (scheme : ColorScheme) (source body : Slice), contentBody source = .ok body →
        body.IsPartOf source ∧
        (∃ outcomes,
          List.Forall₂ (Becomes scheme) ((segments body).filter (·.kind != .comment)) outcomes ∧
          (content scheme source).1 = outcomes.filterMap Sum.getLeft? ∧
          (content scheme source).2.filter tellsSkipped = outcomes.filterMap Sum.getRight?) ∧
        (content scheme source).1.length + ((content scheme source).2.filter tellsSkipped).length =
          ((segments body).filter (·.kind != .comment)).length := by
  refine ⟨covers_segments, ?_⟩
  intro scheme source body hbody
  obtain ⟨outcomes, hbecome, hblocks, hskips⟩ :=
    Content.foldl_addSegment_becomes scheme (segments body) ⟨[], [], none, []⟩
  rw [Content.skips, Content.skips, List.filter_nil, List.nil_append] at hskips
  rw [List.nil_append] at hblocks
  have hcontent : content scheme source =
      (((segments body).foldl (Content.addSegment scheme) ⟨[], [], none, []⟩).blocks,
        ((segments body).foldl (Content.addSegment scheme) ⟨[], [], none, []⟩).warnings) := by
    rw [content, hbody]
  rw [hcontent]
  refine ⟨isPartOf_contentBody hbody, ⟨outcomes, hbecome, hblocks, hskips⟩, ?_⟩
  rw [hblocks, hskips, length_outcomes, hbecome.length_eq]

theorem content_accounts_for_loose_text :
    let source : Slice := ⟨0, "export const content = `Hi`;".toList⟩
    let body : Slice := ⟨24, "Hi".toList⟩
    contentBody source = .ok body ∧ body.IsPartOf source ∧
      (content .blue source).1.length + ((content .blue source).2.filter tellsSkipped).length =
        ((segments body).filter (·.kind != .comment)).length := by
  have hfind : Slice.find ContentStart.read ⟨0, "export const content = `Hi`;".toList⟩ =
      some (⟨0, "export const content = `Hi`;".toList⟩, (), ⟨24, "Hi`;".toList⟩) := rfl
  have hlength : Literal.bodyLength "Hi`;".toList = some 2 := by
    simp [Literal.bodyLength]
  have hbody : contentBody ⟨0, "export const content = `Hi`;".toList⟩ = .ok ⟨24, "Hi".toList⟩ := by
    rw [contentBody, hfind]
    simp only [hlength]
    rfl
  obtain ⟨hpart, -, hcount⟩ := content_accounts_for_segments.2 .blue _ _ hbody
  exact ⟨hbody, hpart, hcount⟩

end EmailTemplates.Source
