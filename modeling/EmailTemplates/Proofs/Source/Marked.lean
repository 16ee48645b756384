import EmailTemplates.Proofs.Source.Account
import EmailTemplates.Proofs.Source.Content
import EmailTemplates.Proofs.Source.Named

namespace EmailTemplates.Source

open EmailTemplates.Text (Slice)

namespace Segment

def markup (segment : Segment) : List Char :=
  Literal.text (Literal.pieces segment.slice)

def marker? (segment : Segment) : Option Marker :=
  if segment.kind = .comment then Marker.ofComment? (Text.trim segment.markup) else none

def content? (scheme : ColorScheme) (segment : Segment) : Option Block.Content :=
  match segment.kind with
  | .element tag true => recognize scheme tag segment.markup
  | _ => none

end Segment

def markers (segments : List Segment) : List Marker :=
  segments.filterMap Segment.marker?

namespace Content

variable {scheme : ColorScheme} {c : Content} {segment : Segment}

theorem addSegment_of_marker {m : Marker} (h : segment.marker? = some m) :
    (c.addSegment scheme segment).blocks = c.blocks ∧
      (c.addSegment scheme segment).marker = some m := by
  unfold Segment.marker? at h
  split at h
  · rename_i hk
    have hm : Marker.ofComment? (Text.trim (Literal.text (Literal.pieces segment.slice))) =
        some m := h
    simp only [addSegment, hk, hm]
    exact ⟨rfl, trivial⟩
  · cases h

theorem addSegment_of_comment (hk : segment.kind = .comment) (h : segment.marker? = none) :
    (c.addSegment scheme segment).blocks = c.blocks ∧
      (c.addSegment scheme segment).marker = c.marker := by
  rw [Segment.marker?, if_pos hk] at h
  have hm : Marker.ofComment? (Text.trim (Literal.text (Literal.pieces segment.slice))) = none := h
  simp only [addSegment, hk, hm]
  exact ⟨rfl, rfl⟩

theorem addSegment_of_content {content : Block.Content}
    (h : segment.content? scheme = some content) :
    ∃ warnings, c.addSegment scheme segment = (c.warn warnings).add content := by
  unfold Segment.content? at h
  split at h
  · rename_i tag hk
    have hr : recognize scheme tag (Literal.text (Literal.pieces segment.slice)) =
        some content := h
    simp only [addSegment, hk, hr]
    exact ⟨_, rfl⟩
  · cases h

theorem addSegment_of_none (hk : segment.kind ≠ .comment) (h : segment.content? scheme = none) :
    ∃ warnings w, c.addSegment scheme segment = (c.warn warnings).skip w := by
  unfold addSegment
  cases hkind : segment.kind with
  | comment => exact absurd hkind hk
  | text => exact ⟨_, _, rfl⟩
  | element tag closed =>
    cases closed with
    | false => exact ⟨_, _, rfl⟩
    | true =>
      have hr : recognize scheme tag (Literal.text (Literal.pieces segment.slice)) = none := by
        rw [Segment.content?, hkind] at h
        exact h
      simp only [hr]
      exact ⟨_, _, rfl⟩

structure Attributed (c : Content) (ids : List String) : Prop where
  blocks : ∀ b ∈ c.blocks, b.id ∈ ids ∨ ∃ n, b.id = numberedId b.kind n
  marker : ∀ m ∈ c.marker, m.id ∈ ids

variable {ids : List String}

theorem chosenId_marked_or_numbered (used : List String) (marked : Option String) (kind : BlockKind)
    (index : Nat) :
    chosenId used marked kind index ∈ marked ∨ ∃ n, chosenId used marked kind index =
      numberedId kind n := by
  unfold chosenId
  split
  · rename_i id hid
    exact .inl (Option.filter_eq_some_iff.mp hid).1
  · exact .inr ⟨_, rfl⟩

theorem Attributed.add (h : c.Attributed ids) (content : Block.Content) :
    (c.add content).Attributed ids := by
  refine ⟨fun b hb => ?_, by simp [Content.add, Content.nextId]⟩
  rcases List.mem_append.mp hb with hb | hb
  · exact h.blocks b hb
  · cases List.mem_singleton.mp hb
    rcases chosenId_marked_or_numbered c.usedIds (c.marker.map (·.id))
      (withMarkedScheme (c.marker.bind (·.scheme)) content).kind c.blocks.length with hid | ⟨n, hn⟩
    · obtain ⟨m, hm, heq⟩ := Option.map_eq_some_iff.mp hid
      exact .inl (heq ▸ h.marker m hm)
    · exact .inr ⟨n, hn⟩

theorem Attributed.addSegment (h : c.Attributed ids) (scheme : ColorScheme) (segment : Segment) :
    (c.addSegment scheme segment).Attributed (ids ++ segment.marker?.toList.map (·.id)) := by
  have hold {x : String} (hx : x ∈ ids) : x ∈ ids ++ segment.marker?.toList.map (·.id) :=
    List.mem_append_left _ hx
  have hkept : ∀ b ∈ c.blocks, b.id ∈ ids ++ segment.marker?.toList.map (·.id) ∨
      ∃ n, b.id = numberedId b.kind n := fun b hb => (h.blocks b hb).imp_left hold
  by_cases hk : segment.kind = .comment
  · cases hm : segment.marker? with
    | some m =>
      obtain ⟨hblocks, hmarker⟩ := @addSegment_of_marker scheme c segment m hm
      rw [hm] at hkept
      refine ⟨hblocks ▸ hkept, fun x hx => ?_⟩
      rw [hmarker] at hx
      cases hx
      simp
    | none =>
      obtain ⟨hblocks, hmarker⟩ := @addSegment_of_comment scheme c segment hk hm
      rw [hm] at hkept hold
      exact ⟨hblocks ▸ hkept, fun x hx => hold (h.marker x (hmarker ▸ hx))⟩
  · cases hr : segment.content? scheme with
    | some content =>
      obtain ⟨warnings, heq⟩ := @addSegment_of_content scheme c segment content hr
      have hwarn : (c.warn warnings).Attributed (ids ++ segment.marker?.toList.map (·.id)) :=
        ⟨hkept, fun x hx => hold (h.marker x hx)⟩
      rw [heq]
      exact hwarn.add content
    | none =>
      obtain ⟨warnings, w, heq⟩ := @addSegment_of_none scheme c segment hk hr
      rw [heq]
      exact ⟨hkept, fun x hx => by cases hx⟩

theorem attributed_foldl (scheme : ColorScheme) (segments : List Segment)
    (h : c.Attributed ids) :
    (segments.foldl (addSegment scheme) c).Attributed (ids ++ (markers segments).map (·.id)) := by
  induction segments generalizing c ids with
  | nil => simpa [markers] using h
  | cons segment segments ih =>
    have hrest := ih (h.addSegment scheme segment)
    have hcons : markers (segment :: segments) = segment.marker?.toList ++ markers segments := by
      cases hm : segment.marker? <;> simp [markers, hm]
    rwa [hcons, List.map_append, ← List.append_assoc, List.foldl_cons]

theorem foldl_comments (scheme : ColorScheme) {between : List Segment}
    (h : ∀ s ∈ between, s.kind = .comment ∧ s.marker? = none) (c : Content) :
    (between.foldl (addSegment scheme) c).blocks = c.blocks ∧
      (between.foldl (addSegment scheme) c).marker = c.marker := by
  induction between generalizing c with
  | nil => exact ⟨rfl, rfl⟩
  | cons segment between ih =>
    obtain ⟨⟨hk, hm⟩, hrest⟩ := List.forall_mem_cons.mp h
    obtain ⟨hblocks, hmarker⟩ := @addSegment_of_comment scheme c segment hk hm
    obtain ⟨hblocks', hmarker'⟩ := ih hrest (c.addSegment scheme segment)
    exact ⟨hblocks'.trans hblocks, hmarker'.trans hmarker⟩

theorem blocks_prefix_foldl (scheme : ColorScheme) (segments : List Segment) (c : Content) :
    c.blocks <+: (segments.foldl (addSegment scheme) c).blocks := by
  induction segments generalizing c with
  | nil => exact List.prefix_refl _
  | cons segment segments ih =>
    refine List.IsPrefix.trans ?_ (ih (c.addSegment scheme segment))
    by_cases hk : segment.kind = .comment
    · exact ⟨_, (c.addSegment_comment scheme hk).1.symm⟩
    · obtain ⟨outcome, -, hadds⟩ := c.addSegment_becomes scheme hk
      exact ⟨_, hadds.1.symm⟩

end Content

theorem id_of_marked_element (scheme : ColorScheme) {source body : Slice}
    (hbody : contentBody source = .ok body)
    (hids : ((markers (segments body)).map (·.id)).Nodup)
    {before between after : List Segment} {marked element : Segment} {marker : Marker}
    {shown : Block.Content}
    (hsegments : segments body = before ++ marked :: (between ++ element :: after))
    (hmarked : marked.marker? = some marker)
    (hbetween : ∀ s ∈ between, s.kind = .comment ∧ s.marker? = none)
    (helement : element.content? scheme = some shown) :
    ∃ b later, (content scheme source).1 = (readSegments scheme before).blocks ++ b :: later ∧
      b.content = Content.withMarkedScheme marker.scheme shown ∧
      (b.id = marker.id ∨ ∃ a ∈ (readSegments scheme before).blocks,
        a.id = marker.id ∧ ∃ n, marker.id = Content.numberedId a.kind n) := by
  have hearlier := @Content.attributed_foldl ⟨[], [], none, []⟩ [] scheme before
    ⟨by simp, by simp⟩
  rw [List.nil_append] at hearlier
  generalize hc : before.foldl (Content.addSegment scheme) ⟨[], [], none, []⟩ = c at hearlier
  obtain ⟨hb₁, hm₁⟩ := @Content.addSegment_of_marker scheme c _ _ hmarked
  obtain ⟨hb₂, hm₂⟩ := Content.foldl_comments scheme hbetween (c.addSegment scheme marked)
  generalize hd : between.foldl (Content.addSegment scheme) (c.addSegment scheme marked) = d
    at hb₂ hm₂
  have hblocks : d.blocks = c.blocks := hb₂.trans hb₁
  obtain ⟨warnings, hadd⟩ := @Content.addSegment_of_content scheme d _ _ helement
  obtain ⟨later, hlater⟩ := Content.blocks_prefix_foldl scheme after (d.addSegment scheme element)
  -- the block that the element becomes, and the id that it is given
  have hmarker : (d.warn warnings).marker = some marker := hm₂.trans hm₁
  have hused : d.usedIds = d.blocks.map (·.id) := by
    rw [← hd, ← List.foldl_cons (l := between), ← hc, ← List.foldl_append]
    exact Content.usedIds_foldl _ rfl
  let id := Content.chosenId d.usedIds (some marker.id)
    (Content.withMarkedScheme marker.scheme shown).kind d.blocks.length
  let b : Block := ⟨id, Content.withMarkedScheme marker.scheme shown⟩
  have hnew : (d.addSegment scheme element).blocks = c.blocks ++ [b] := by
    rw [hadd]
    simp only [Content.add, Content.nextId, hmarker, Option.map_some, Option.bind_some]
    exact congrArg (· ++ [b]) hblocks
  refine ⟨b, later, ?_, rfl, ?_⟩
  · rw [content_of_body hbody, hsegments]
    simp only [readSegments, List.foldl_append, List.foldl_cons, hc, hd]
    rw [← hlater, hnew, List.append_assoc]
    rfl
  · by_cases htaken : marker.id ∈ d.usedIds
    · refine .inr ?_
      obtain ⟨a, ha, haid⟩ := List.mem_map.mp (hused ▸ htaken)
      have hac : a ∈ c.blocks := hblocks ▸ ha
      refine ⟨a, by rwa [readSegments, hc], haid, ?_⟩
      rcases hearlier.blocks a hac with hid | ⟨n, hn⟩
      · -- no earlier marker has the id
        rw [hsegments] at hids
        simp only [markers, List.filterMap_append, List.filterMap_cons, hmarked, List.map_append,
          List.map_cons, List.nodup_append] at hids
        exact absurd rfl (hids.2.2 _ (haid ▸ hid) _ List.mem_cons_self)
      · exact ⟨n, haid ▸ hn⟩
    · exact .inl (Content.chosenId_marked htaken _ _)

theorem id_of_marked_element_intro :
    let source : Slice := ⟨0, "export const content = `<p>A</p><!-- block: intro --><p>B</p>`;".toList⟩
    let before : List Segment := [⟨.element "p" true, ⟨24, "<p>A</p>".toList⟩⟩]
    ∃ b later, (content .blue source).1 = (readSegments .blue before).blocks ++ b :: later ∧
      b.content = .paragraph "B" ∧
      (b.id = "intro" ∨ ∃ a ∈ (readSegments .blue before).blocks,
        a.id = "intro" ∧ ∃ n, "intro" = Content.numberedId a.kind n) := by
  have hbody : contentBody
      ⟨0, "export const content = `<p>A</p><!-- block: intro --><p>B</p>`;".toList⟩ =
        .ok ⟨24, "<p>A</p><!-- block: intro --><p>B</p>".toList⟩ := by
    decide +kernel
  have hsegments : segments ⟨24, "<p>A</p><!-- block: intro --><p>B</p>".toList⟩ =
      [⟨.element "p" true, ⟨24, "<p>A</p>".toList⟩⟩] ++
        ⟨.comment, ⟨32, "<!-- block: intro -->".toList⟩⟩ ::
          ([] ++ ⟨.element "p" true, ⟨53, "<p>B</p>".toList⟩⟩ :: []) := by
    decide +kernel
  exact @id_of_marked_element .blue _ _ hbody (by decide +kernel) _ [] _ _ _ ⟨"intro", none⟩
    (.paragraph "B") hsegments (by decide +kernel) (by simp) (by decide +kernel)

theorem numbered_before_marked :
    let source : Slice :=
      ⟨0, "export const content = `<p>A</p><!-- block: paragraph-1 --><p>B</p>`;".toList⟩
    (contentBody source).map (fun body => markers (segments body)) =
        .ok [⟨"paragraph-1", none⟩] ∧
      (content .blue source).1 =
        [⟨"paragraph-1", .paragraph "A"⟩, ⟨"paragraph-2", .paragraph "B"⟩] := by
  decide +kernel

end EmailTemplates.Source
