import EmailTemplates.Proofs.Source.Content

namespace EmailTemplates.Source

open EmailTemplates.Text (Slice byteLength)
open Markup (text line)

structure IsSegment (kind : SegmentKind) (cs : List Char) : Prop where
  head : cs.head? = some '<'
  next : ∀ n rest, ∃ k, Segment.next ⟨n, cs ++ rest⟩ = (kind, ⟨k, rest⟩)

theorem isSegment_marker {m : Marker} (h : Marker.canName m.id = true) :
    IsSegment .comment m.text.toList :=
  ⟨Marker.head?_text m, Segment.next_marker h⟩

theorem Stands.isSegment {m : Markup} {tag : String} (h : Stands m tag) :
    IsSegment (.element tag true) (Literal.encode (text m)) :=
  ⟨head?_encode_of_head h.head, h.next⟩

namespace Segment

def shape (segment : Segment) : SegmentKind × List Char :=
  (segment.kind, segment.slice.chars)

end Segment

def inLines (shapes : List (SegmentKind × List Char)) : List Char :=
  shapes.flatMap fun shape => shape.2 ++ ['\n']

theorem segments_inLines {shapes : List (SegmentKind × List Char)}
    (h : ∀ shape ∈ shapes, IsSegment shape.1 shape.2) (n : Nat) (rest : List Char) :
    ∃ pieces k, segments ⟨n, '\n' :: (inLines shapes ++ rest)⟩ =
      pieces ++ segments ⟨k, '\n' :: rest⟩ ∧ pieces.map Segment.shape = shapes := by
  induction shapes generalizing n with
  | nil => exact ⟨[], n, rfl, rfl⟩
  | cons shape shapes ih =>
    obtain ⟨hshape, hshapes⟩ := List.forall_mem_cons.mp h
    have hchars : inLines (shape :: shapes) ++ rest =
        shape.2 ++ '\n' :: (inLines shapes ++ rest) := by
      simp [inLines]
    obtain ⟨m, hm⟩ := hshape.next (n + byteLength ['\n']) ('\n' :: (inLines shapes ++ rest))
    obtain ⟨pieces, k, hpieces, hmap⟩ := ih hshapes m
    refine ⟨⟨shape.1, ⟨n + byteLength ['\n'], shape.2⟩⟩ :: pieces, k, ?_, ?_⟩
    · rw [hchars, segments_line hshape.head hm, hpieces, List.cons_append]
    · rw [List.map_cons, hmap]
      rfl

def markerShape (scheme : ColorScheme) (b : Block) : List (SegmentKind × List Char) :=
  if Marker.canName b.id then [(.comment, (markerOf scheme b).text.toList)] else []

theorem inLines_markerShape (scheme : ColorScheme) (b : Block) :
    inLines (markerShape scheme b) = (markerLine scheme b).toList := by
  unfold markerShape markerLine
  split
  · rw [String.toList_append]
    exact List.append_nil _
  · rfl

theorem isSegment_of_mem_markerShape {scheme : ColorScheme} {b : Block} :
    ∀ shape ∈ markerShape scheme b, IsSegment shape.1 shape.2 := by
  unfold markerShape
  split
  · rename_i hnamed
    exact List.forall_mem_singleton.mpr (isSegment_marker (m := markerOf scheme b) hnamed)
  · simp

theorem segments_markerLine (scheme : ColorScheme) (b : Block) (n : Nat) (rest : List Char) :
    ∃ pieces k, segments ⟨n, '\n' :: ((markerLine scheme b).toList ++ rest)⟩ =
      pieces ++ segments ⟨k, '\n' :: rest⟩ ∧
        pieces.map Segment.shape = markerShape scheme b := by
  rw [← inLines_markerShape]
  exact segments_inLines isSegment_of_mem_markerShape n rest

structure Stretch where
  block : Block
  first : String × Markup
  others : List (String × Markup)

namespace Stretch

def elements (s : Stretch) : List (String × Markup) :=
  s.first :: s.others

def drawn (s : Stretch) : Block × Markup :=
  (s.block, s.elements.flatMap fun e => line e.2)

def Standing (s : Stretch) : Prop :=
  ∀ e ∈ s.elements, Stands e.2 e.1

def elementShape (e : String × Markup) : SegmentKind × List Char :=
  (.element e.1 true, Literal.encode (text e.2))

variable (scheme : ColorScheme)

def shapes (s : Stretch) : List (SegmentKind × List Char) :=
  markerShape scheme s.block ++ s.elements.map elementShape

def content? (e : String × Markup) : Option Block.Content :=
  recognize scheme e.1 (text e.2)

def left (s : Stretch) : Option Block :=
  (content? scheme s.first).map fun content =>
    ⟨s.block.id, Content.withMarkedScheme (markedScheme scheme s.block) content⟩

def unread (s : Stretch) : List String :=
  (s.elements.filter fun e => (content? scheme e).isNone).map (·.1)

end Stretch

variable {scheme : ColorScheme}

theorem inLines_elements (elements : List (String × Markup)) :
    inLines (elements.map Stretch.elementShape) =
      Literal.encode (text (elements.flatMap fun e => line e.2)) := by
  induction elements with
  | nil => exact Literal.encode_nil.symm
  | cons e elements ih =>
    rw [List.flatMap_cons, Markup.text_append, (inLines_line e.2).encode_append, encode_line, ← ih]
    rfl

theorem toList_contentText_drawn (s : Stretch) (rest : List (Block × Markup)) :
    (contentText scheme (s.drawn :: rest)).toList =
      inLines (s.shapes scheme) ++ (contentText scheme rest).toList := by
  rw [Stretch.drawn, contentText, String.toList_append, String.toList_append, toList_literalText,
    Stretch.shapes, inLines, List.flatMap_append]
  exact congrArg (· ++ _) (congrArg₂ (· ++ ·) (inLines_markerShape scheme s.block).symm
    (inLines_elements s.elements).symm)

theorem segments_drawn {s : Stretch} (h : s.Standing) (n : Nat) (rest : List (Block × Markup)) :
    ∃ pieces k, segments ⟨n, '\n' :: (contentText scheme (s.drawn :: rest)).toList⟩ =
        pieces ++ segments ⟨k, '\n' :: (contentText scheme rest).toList⟩ ∧
      pieces.map Segment.shape = s.shapes scheme := by
  rw [toList_contentText_drawn]
  refine segments_inLines (List.forall_mem_append.mpr ⟨isSegment_of_mem_markerShape, ?_⟩) n _
  exact List.forall_mem_map.mpr fun e he => (h e he).isSegment

def TellsUnread (tag : String) (w : Diagnostic) : Prop :=
  ∃ span, w = withRebuildHint (skippedElement tag span)

namespace Content

theorem addSegment_unread {e : String × Markup} (hr : Stretch.content? scheme e = none)
    {piece : Segment} (hp : piece.shape = Stretch.elementShape e) (c : Content) :
    c.addSegment scheme piece = c.skip (withRebuildHint (skippedElement e.1 piece.slice.span)) := by
  obtain ⟨kind, ⟨n, cs⟩⟩ := piece
  obtain ⟨rfl, rfl⟩ := Prod.mk.inj hp
  obtain ⟨htext, hun⟩ := Literal.pieces_encode n (text e.2)
  have hr' : recognize scheme e.1 (text e.2) = none := hr
  simp only [addSegment, htext, hun, List.map_nil, warn_nil, hr']

theorem foldl_unread {elements : List (String × Markup)}
    (hr : ∀ e ∈ elements, Stretch.content? scheme e = none) {pieces : List Segment}
    (hp : pieces.map Segment.shape = elements.map Stretch.elementShape) {c : Content}
    (hc : c.marker = none) :
    ∃ ws, List.Forall₂ TellsUnread (elements.map (·.1)) ws ∧
      pieces.foldl (addSegment scheme) c = ⟨c.blocks, c.usedIds, none, c.warnings ++ ws⟩ := by
  induction elements generalizing pieces c with
  | nil =>
    cases List.map_eq_nil_iff.mp hp
    exact ⟨[], .nil, by rw [List.append_nil, ← hc]; rfl⟩
  | cons e elements ih =>
    obtain ⟨piece, pieces, rfl, hpiece, hpieces⟩ := List.map_eq_cons_iff.mp hp
    obtain ⟨he, helements⟩ := List.forall_mem_cons.mp hr
    let w := withRebuildHint (skippedElement e.1 piece.slice.span)
    obtain ⟨ws, hws, hfold⟩ := @ih helements pieces hpieces (c.skip w) rfl
    refine ⟨w :: ws, .cons ⟨piece.slice.span, rfl⟩ hws, ?_⟩
    rw [List.foldl_cons, addSegment_unread he hpiece, hfold]
    simp [skip]

end Content

structure Leaves (scheme : ColorScheme) (p : Block × Markup) (left : Option Block)
    (unread : List String) : Prop where
  named : Marker.canName p.1.id = true
  drawn : ∃ s : Stretch, s.drawn = p ∧ s.Standing ∧
    (∀ e ∈ s.others, Stretch.content? scheme e = none) ∧ s.left scheme = left ∧
    s.unread scheme = unread

theorem Content.foldl_stretch {s : Stretch} (hn : Marker.canName s.block.id = true)
    (ho : ∀ e ∈ s.others, Stretch.content? scheme e = none) {pieces : List Segment}
    (hp : pieces.map Segment.shape = s.shapes scheme) {c : Content} (hid : s.block.id ∉ c.usedIds) :
    ∃ ws, List.Forall₂ TellsUnread (s.unread scheme) ws ∧
      pieces.foldl (addSegment scheme) c =
        ⟨c.blocks ++ (s.left scheme).toList, c.usedIds ++ (s.left scheme).toList.map (·.id), none,
          c.warnings ++ ws⟩ := by
  have hmarker : markerShape scheme s.block = [(.comment, (markerOf scheme s.block).text.toList)] :=
    if_pos hn
  rw [Stretch.shapes, hmarker] at hp
  obtain ⟨comment, pieces, rfl, hcomment, hp⟩ := List.map_eq_cons_iff.mp hp
  obtain ⟨piece, pieces, rfl, hpiece, hpieces⟩ := List.map_eq_cons_iff.mp hp
  obtain ⟨kind, ⟨n, cs⟩⟩ := comment
  obtain ⟨rfl, rfl⟩ := Prod.mk.inj hcomment
  have hmarked := @Content.addSegment_marker scheme (markerOf scheme s.block) hn c n
  have hothers : (s.others.filter fun e => (Stretch.content? scheme e).isNone) = s.others :=
    List.filter_eq_self.mpr fun e he => by rw [ho e he]; rfl
  rw [List.foldl_cons, List.foldl_cons, hmarked]
  cases hr : Stretch.content? scheme s.first with
  | none =>
    -- nothing is left of the block, and its marker is passed over with the element
    let w := withRebuildHint (skippedElement s.first.1 piece.slice.span)
    obtain ⟨ws, hws, hfold⟩ := foldl_unread ho hpieces
      (c := Content.skip { c with marker := markerOf scheme s.block } w) rfl
    refine ⟨w :: ws, ?_, ?_⟩
    · rw [Stretch.unread, Stretch.elements, List.filter_cons_of_pos (by simp [hr]), hothers]
      exact .cons ⟨piece.slice.span, rfl⟩ hws
    · rw [addSegment_unread hr hpiece, hfold, Stretch.left, hr]
      simp [skip]
  | some content =>
    obtain ⟨kind, ⟨m, cs⟩⟩ := piece
    obtain ⟨rfl, rfl⟩ := Prod.mk.inj hpiece
    have hadd := @addSegment_element scheme _ s.first.1 _ hr
      { c with marker := markerOf scheme s.block } m
    have hnew := add_marked (c := { c with marker := some (markerOf scheme s.block) })
      (m := markerOf scheme s.block) rfl hid content
    obtain ⟨ws, hws, hfold⟩ := foldl_unread ho hpieces
      (c := Content.add { c with marker := some (markerOf scheme s.block) } content) rfl
    refine ⟨ws, ?_, ?_⟩
    · rw [Stretch.unread, Stretch.elements, List.filter_cons_of_neg (by simp [hr]), hothers]
      exact hws
    · rw [hadd, hfold, hnew, Stretch.left, hr]
      rfl

theorem foldl_segments {left : Block → Option Block} {unread : Block → List String}
    {bms : List (Block × Markup)}
    (h : ∀ p ∈ bms, Leaves scheme p (left p.1) (unread p.1)) (c : Content) (hc : c.marker = none)
    (hids : (c.usedIds ++ bms.map (·.1.id)).Nodup) (n : Nat) :
    ∃ ws, List.Forall₂ TellsUnread (bms.flatMap fun p => unread p.1) ws ∧
      (segments ⟨n, '\n' :: (contentText scheme bms).toList⟩).foldl (Content.addSegment scheme) c =
        ⟨c.blocks ++ bms.filterMap (fun p => left p.1),
          c.usedIds ++ (bms.filterMap fun p => left p.1).map (·.id), none, c.warnings ++ ws⟩ := by
  induction bms generalizing c n with
  | nil =>
    have hnil : (contentText scheme []).toList = [] := rfl
    refine ⟨[], .nil, ?_⟩
    rw [hnil, segments_nil]
    simp [← hc]
  | cons p bms ih =>
    obtain ⟨⟨hnamed, s, rfl, hstanding, hothers, hleft, hunread⟩, hrest⟩ :=
      List.forall_mem_cons.mp h
    obtain ⟨pieces, k, hsegments, hpieces⟩ := @segments_drawn scheme _ hstanding n bms
    have hid : s.block.id ∉ c.usedIds := fun hm =>
      (List.nodup_append.mp hids).2.2 s.block.id hm s.block.id List.mem_cons_self rfl
    obtain ⟨ws, hws, hfold⟩ := Content.foldl_stretch hnamed hothers hpieces hid
    have hsub : (c.usedIds ++ (s.left scheme).toList.map (·.id) ++ bms.map (·.1.id)).Sublist
        (c.usedIds ++ (s.drawn :: bms).map (·.1.id)) := by
      rw [List.append_assoc]
      refine (List.Sublist.refl _).append ?_
      cases hr : Stretch.content? scheme s.first with
      | none =>
        rw [Stretch.left, hr]
        exact List.sublist_cons_self _ _
      | some content =>
        rw [Stretch.left, hr]
        exact List.Sublist.refl _
    obtain ⟨ws', hws', hfold'⟩ := ih hrest ⟨c.blocks ++ (s.left scheme).toList,
      c.usedIds ++ (s.left scheme).toList.map (·.id), none, c.warnings ++ ws⟩ rfl
      (hids.sublist hsub) k
    refine ⟨ws ++ ws', ?_, ?_⟩
    · rw [List.flatMap_cons, ← hunread]
      exact List.rel_append hws hws'
    · have hleft' : left s.drawn.1 = s.left scheme := hleft.symm
      rw [hsegments, List.foldl_append, hfold, hfold', List.filterMap_cons, hleft']
      cases s.left scheme <;> simp

end EmailTemplates.Source
