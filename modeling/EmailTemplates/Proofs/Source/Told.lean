import EmailTemplates.Proofs.Source.Depth
import EmailTemplates.Proofs.Source.Forest
import EmailTemplates.Proofs.Source.Marked
import EmailTemplates.Proofs.Source.Stretch

namespace EmailTemplates.Source

open EmailTemplates.Text (Slice byteLength byteLength_append isBlank)
open Tag (between?)

variable {scheme : ColorScheme} {cs name : List Char} {depth n : Nat}

namespace Segment

theorem afterClosing_of_not_mem (h : '>' ∉ cs) (depth n : Nat) :
    afterClosing name depth ⟨n, cs⟩ = none := by
  induction cs generalizing n with
  | nil =>
    rw [afterClosing]
    rfl
  | cons c cs ih =>
    have hcs : '>' ∉ cs := fun hmem => h (List.mem_cons_of_mem c hmem)
    have hread : Tag.read ⟨n, c :: cs⟩ = none := by
      by_cases hc : c = '<'
      · rw [hc]
        exact Tag.read_of_not_mem hcs n
      · exact Tag.read_eq_none hc n cs
    rw [afterClosing_of_read_none hread]
    exact ih hcs _

theorem afterClosing_append {rest : Slice} (h : afterClosing name depth ⟨n, cs⟩ = some rest)
    (k : Nat) (ds : List Char) :
    ∃ m, afterClosing name depth ⟨k, cs ++ ds⟩ = some ⟨m, rest.chars ++ ds⟩ := by
  induction hlen : cs.length using Nat.strong_induction_on generalizing cs depth n k with
  | _ len ih =>
    subst hlen
    cases cs with
    | nil =>
      rw [afterClosing_of_not_mem List.not_mem_nil] at h
      cases h
    | cons c cs =>
      have hgoOn (hread : Tag.read ⟨n, c :: cs⟩ = none)
          (hread' : Tag.read ⟨k, c :: (cs ++ ds)⟩ = none) :
          ∃ m, afterClosing name depth ⟨k, c :: cs ++ ds⟩ = some ⟨m, rest.chars ++ ds⟩ := by
        rw [afterClosing_of_read_none hread] at h
        rw [List.cons_append, afterClosing_of_read_none hread']
        exact ih _ (Nat.lt_succ_self _) h _ rfl
      by_cases hc : c = '<'
      · subst hc
        by_cases hmem : '>' ∈ cs
        · obtain ⟨inside, after, rfl, hinside⟩ := List.eq_append_cons_of_mem hmem
          obtain ⟨m, hm⟩ := Tag.read_angles hinside n after
          obtain ⟨m', hm'⟩ := Tag.read_angles hinside k (after ++ ds)
          cases hbetween : between? inside with
          | none =>
            rw [hbetween] at hm hm'
            exact hgoOn hm (by simpa using hm')
          | some tag =>
            rw [hbetween, Option.map_some] at hm hm'
            rw [List.cons_append, List.append_assoc, List.cons_append]
            rcases tag.moves_or name depth with ⟨depth', hmoves⟩ | ⟨rfl, hname, hself, hclosing⟩
            · rw [afterClosing_of_moves hm hmoves] at h
              rw [afterClosing_of_moves hm' hmoves]
              exact ih _ (by simp; omega) h _ rfl
            · rw [afterClosing_of_some (Slice.find_of_some hm)] at h
              rw [afterClosing_of_some (Slice.find_of_some hm')]
              simp only [hname, hself, hclosing, ne_eq, not_true_eq_false, Bool.false_eq_true,
                or_self, if_false, Bool.not_true, Option.some.injEq] at h ⊢
              subst h
              exact ⟨m', rfl⟩
        · rw [afterClosing_of_read_none (Tag.read_of_not_mem hmem n),
            afterClosing_of_not_mem hmem] at h
          cases h
      · exact hgoOn (Tag.read_eq_none hc n cs) (Tag.read_eq_none hc k (cs ++ ds))

theorem comment?_append {kind : SegmentKind} {rest : Slice}
    (h : comment? ⟨n, '<' :: cs⟩ = some (kind, rest)) (hrest : rest.chars ≠ []) (k : Nat)
    (ds : List Char) :
    ∃ m, comment? ⟨k, '<' :: (cs ++ ds)⟩ = some (kind, ⟨m, rest.chars ++ ds⟩) := by
  unfold comment? at h
  split at h
  · rename_i hopen
    have hopen' : "<!--".toList.isPrefixOf ('<' :: (cs ++ ds)) = true :=
      List.isPrefixOf_iff_prefix.mpr
        ((List.isPrefixOf_iff_prefix.mp hopen).trans (List.prefix_append ('<' :: cs) ds))
    split at h
    · rename_i hsplit
      cases h
      obtain ⟨m, hm⟩ := Slice.splitAt?_extend hsplit k ds
      rw [List.cons_append] at hm
      refine ⟨m, ?_⟩
      rw [comment?]
      simp only [hopen', if_true, hm]
    · cases h
      simp at hrest
  · cases h

theorem comment?_append_eq_none (hmem : '>' ∈ cs) (h : comment? ⟨n, '<' :: cs⟩ = none) (k : Nat)
    (ds : List Char) : comment? ⟨k, '<' :: (cs ++ ds)⟩ = none := by
  have hopen : ¬ "<!--".toList <+: '<' :: cs := by
    intro hopen
    rw [comment?, if_pos (List.isPrefixOf_iff_prefix.mpr hopen)] at h
    split at h <;> cases h
  have hopen' : ¬ "<!--".toList <+: '<' :: (cs ++ ds) := by
    intro hopen'
    rcases List.prefix_or_prefix_of_prefix hopen' (List.prefix_append ('<' :: cs) ds) with h | h
    · exact hopen h
    · exact absurd (h.subset (List.mem_cons_of_mem _ hmem)) (by decide)
  rw [comment?, if_neg fun hp => hopen' (List.isPrefixOf_iff_prefix.mp hp)]

theorem element?_append {kind : SegmentKind} {rest : Slice} (hmem : '>' ∈ cs)
    (h : element? ⟨n, '<' :: cs⟩ = some (kind, rest)) (hclosed : ∀ tag, kind ≠ .element tag false)
    (k : Nat) (ds : List Char) :
    ∃ m, element? ⟨k, '<' :: (cs ++ ds)⟩ = some (kind, ⟨m, rest.chars ++ ds⟩) := by
  obtain ⟨inside, after, rfl, hinside⟩ := List.eq_append_cons_of_mem hmem
  obtain ⟨m, hm⟩ := Tag.read_angles hinside n after
  obtain ⟨m', hm'⟩ := Tag.read_angles hinside k (after ++ ds)
  rw [List.append_assoc, List.cons_append]
  unfold element? at h ⊢
  rw [hm] at h
  rw [hm']
  cases hbetween : between? inside with
  | none =>
    rw [hbetween] at h
    cases h
  | some tag =>
    simp only [hbetween, Option.map_some, Option.bind_eq_bind, Option.bind_some] at h ⊢
    split at h
    · cases h
    · rename_i hopening
      rw [if_neg hopening]
      split at h
      · rename_i hvoid
        cases h
        rw [if_pos hvoid]
        exact ⟨m', rfl⟩
      · rename_i hvoid
        rw [if_neg hvoid]
        split at h
        · rename_i hclosing
          cases h
          obtain ⟨i, hi⟩ := afterClosing_append hclosing m' ds
          rw [hi]
          exact ⟨i, rfl⟩
        · cases h
          exact absurd rfl (hclosed _)

theorem element?_eq_none_iff {inside : List Char} (h : '>' ∉ inside) (n : Nat)
    (rest : List Char) : element? ⟨n, '<' :: (inside ++ '>' :: rest)⟩ = none ↔
      ∀ tag ∈ between? inside, tag.closing = true := by
  obtain ⟨m, hm⟩ := Tag.read_angles h n rest
  rw [element?, hm]
  cases between? inside with
  | none => simp
  | some tag =>
    simp only [Option.map_some, Option.bind_eq_bind, Option.bind_some, Option.mem_some_iff,
      forall_eq']
    cases tag.closing with
    | true => simp
    | false =>
      simp only [Bool.false_eq_true, if_false, iff_false]
      split
      · exact Option.some_ne_none _
      · split <;> exact Option.some_ne_none _

theorem element?_append_eq_none (hmem : '>' ∈ cs) (h : element? ⟨n, '<' :: cs⟩ = none) (k : Nat)
    (ds : List Char) : element? ⟨k, '<' :: (cs ++ ds)⟩ = none := by
  obtain ⟨inside, after, rfl, hinside⟩ := List.eq_append_cons_of_mem hmem
  rw [List.append_assoc, List.cons_append, element?_eq_none_iff hinside]
  exact (element?_eq_none_iff hinside n after).mp h

theorem chars_of_unclosed {s : Slice} {tag : String} (h : (next s).1 = .element tag false) :
    (next s).2.chars = [] := by
  have helement := element?_of_next h
  generalize next s = p at h helement ⊢
  obtain ⟨kind, rest⟩ := p
  cases h
  obtain ⟨⟨t, r⟩, -, h⟩ := Option.bind_eq_some_iff.mp helement
  obtain ⟨-, h⟩ := Outcome.unless_none_eq_some.mp h
  split at h
  · cases h
  · split at h
    · cases h
    · cases h
      exact List.drop_length

theorem next_of_ne {c : Char} (hc : c ≠ '<') (n : Nat) (cs : List Char) :
    (next ⟨n, c :: cs⟩).1 = .text := by
  have hcomment : comment? ⟨n, c :: cs⟩ = none := by
    rw [comment?, if_neg]
    intro hopen
    obtain ⟨rest, hrest⟩ := List.isPrefixOf_iff_prefix.mp hopen
    exact hc (List.cons.inj hrest).1.symm
  rw [next, hcomment, element?, Tag.read_eq_none hc]
  rfl

theorem next_append (hmem : '>' ∈ cs)
    (hclosed : ∀ tag, (next ⟨n, '<' :: cs⟩).1 ≠ .element tag false)
    (hcomment : (next ⟨n, '<' :: cs⟩).1 = .comment → (next ⟨n, '<' :: cs⟩).2.chars ≠ [])
    (k : Nat) (ds : List Char) :
    (next ⟨n, '<' :: cs⟩).1 = .text ∧ (next ⟨k, '<' :: (cs ++ ds)⟩).1 = .text ∨
      ∃ m, next ⟨k, '<' :: (cs ++ ds)⟩ =
        ((next ⟨n, '<' :: cs⟩).1, ⟨m, (next ⟨n, '<' :: cs⟩).2.chars ++ ds⟩) := by
  cases hc : comment? ⟨n, '<' :: cs⟩ with
  | some p =>
    obtain ⟨kind, rest⟩ := p
    have hnext : next ⟨n, '<' :: cs⟩ = (kind, rest) := by
      rw [next, hc]
      rfl
    rw [hnext] at hcomment ⊢
    have hkind : kind = .comment := by
      unfold comment? at hc
      split at hc
      · split at hc <;> cases hc <;> rfl
      · cases hc
    obtain ⟨m, hm⟩ := comment?_append hc (hcomment hkind) k ds
    refine .inr ⟨m, ?_⟩
    rw [next, hm]
    rfl
  | none =>
    have hc' := comment?_append_eq_none hmem hc k ds
    cases he : element? ⟨n, '<' :: cs⟩ with
    | some p =>
      obtain ⟨kind, rest⟩ := p
      have hnext : next ⟨n, '<' :: cs⟩ = (kind, rest) := by
        rw [next, hc, he]
        rfl
      rw [hnext] at hclosed ⊢
      obtain ⟨m, hm⟩ := element?_append hmem he hclosed k ds
      refine .inr ⟨m, ?_⟩
      rw [next, hc', hm]
      rfl
    | none =>
      have he' := element?_append_eq_none hmem he k ds
      rw [next, next, hc, hc', he, he']
      exact .inl ⟨rfl, rfl⟩

end Segment

/-- Loose text, an element that is not closed, or one of no known shape. -/
def Segment.Skipped (scheme : ColorScheme) (segment : Segment) : Prop :=
  segment.kind ≠ .comment ∧ segment.content? scheme = none

/-- Where the fragment stands, above the other blocks, one of the segments that begin in it is
skipped. -/
def Told (scheme : ColorScheme) (m : Markup) (below : List (Block × Markup)) : Prop :=
  ∀ n, ∃ segment ∈ segments ⟨n, (literalText m).toList ++ (contentText scheme below).toList⟩,
    segment.slice.start < n + byteLength (literalText m).toList ∧ segment.Skipped scheme

theorem skipped_of_text {segment : Segment} (h : segment.kind = .text) :
    segment.Skipped scheme := by
  simp [Segment.Skipped, Segment.content?, h]

theorem skipped_of_unread {tag : String} {segment : Segment} (hr : recognize scheme tag cs = none)
    (h : segment.shape = (.element tag true, Literal.encode cs)) :
    segment.Skipped scheme := by
  obtain ⟨kind, ⟨n, chars⟩⟩ := segment
  obtain ⟨rfl, rfl⟩ := Prod.mk.inj h
  refine ⟨SegmentKind.noConfusion, ?_⟩
  exact (congrArg (recognize scheme tag) (Literal.pieces_encode n cs).1).trans hr

theorem segments_cons_append {c : Char} (hc : isBlank c = false) (hbehind : c = '<' → '>' ∈ cs)
    (n : Nat) (ds : List Char) : ∃ kind taken rest,
      c :: cs = taken ++ rest ∧ rest.length < (c :: cs).length ∧
      segments ⟨n, c :: cs⟩ = ⟨kind, ⟨n, taken⟩⟩ :: segments ⟨n + byteLength taken, rest⟩ ∧
      (∀ tag, kind = .element tag false → rest = []) ∧
      ((∀ tag, kind ≠ .element tag false) → (kind = .comment → rest ≠ []) →
        segments ⟨n, c :: (cs ++ ds)⟩ =
            ⟨kind, ⟨n, taken⟩⟩ :: segments ⟨n + byteLength taken, rest ++ ds⟩ ∨
          ∃ text after, segments ⟨n, c :: (cs ++ ds)⟩ = ⟨.text, ⟨n, text⟩⟩ :: after) := by
  obtain ⟨taken, rest, m, hchars, hlt, hnext, hsegments⟩ := exists_segments_cons hc n cs
  obtain ⟨taken', rest', m', -, -, -, hsegments'⟩ := exists_segments_cons hc n (cs ++ ds)
  have hrest : (Segment.next ⟨n, c :: cs⟩).2 = ⟨m, rest⟩ := congrArg Prod.snd hnext
  refine ⟨_, taken, rest, hchars, hlt, hsegments, ?_, fun hclosed hcomment => ?_⟩
  · intro tag hkind
    have hnil := Segment.chars_of_unclosed hkind
    rwa [hrest] at hnil
  · have htext (h : (Segment.next ⟨n, c :: (cs ++ ds)⟩).1 = .text) :
        ∃ text after, segments ⟨n, c :: (cs ++ ds)⟩ = ⟨.text, ⟨n, text⟩⟩ :: after := by
      rw [h] at hsegments'
      exact ⟨taken', _, hsegments'⟩
    by_cases hopen : c = '<'
    · subst hopen
      rcases Segment.next_append (hbehind rfl) hclosed (fun h => hrest ▸ hcomment h) n ds with
        ⟨-, h⟩ | ⟨i, h⟩
      · exact .inr (htext h)
      · have hhead : taken.head? = some '<' := by
          cases taken with
          | nil => exact absurd (hchars ▸ hlt) (Nat.lt_irrefl _)
          | cons d taken => rw [List.head?_cons, (List.cons.inj hchars).1]
        rw [hrest, ← List.cons_append, hchars, List.append_assoc] at h
        rw [← List.cons_append, hchars, List.append_assoc]
        exact .inl (segments_tag hhead h)
    · exact .inr (htext (Segment.next_of_ne hopen n (cs ++ ds)))

theorem exists_skipped_append {segment : Segment} (hends : ∀ a b, cs = a ++ '<' :: b → '>' ∈ b)
    (hmem : segment ∈ segments ⟨n, cs⟩) (hskipped : segment.Skipped scheme)
    (hclosed : ∀ tag, segment.kind ≠ .element tag false) (ds : List Char) :
    ∃ segment ∈ segments ⟨n, cs ++ ds⟩,
      segment.slice.start < n + byteLength cs ∧ segment.Skipped scheme := by
  induction hlen : cs.length using Nat.strong_induction_on generalizing n cs with
  | _ len ih =>
    subst hlen
    cases cs with
    | nil =>
      rw [segments_of_blank rfl] at hmem
      cases hmem
    | cons c cs =>
      cases hc : isBlank c with
      | true =>
        have hblank : [c].all isBlank = true := by simp [hc]
        rw [← List.singleton_append, segments_blanks hblank] at hmem
        rw [← List.singleton_append, List.append_assoc, segments_blanks hblank,
          byteLength_append, ← Nat.add_assoc]
        refine ih _ (Nat.lt_succ_self _) (fun a b h => ?_) hmem rfl
        exact hends (c :: a) b (congrArg _ h)
      | false =>
        obtain ⟨kind, taken, rest, hchars, hlt, hsegments, hunclosed, hsame⟩ :=
          segments_cons_append hc (fun h => hends [] cs (h ▸ rfl)) n ds
        have hfront : n < n + byteLength (c :: cs) := by
          have hpos := c.utf8Size_pos
          rw [Text.byteLength_cons]
          omega
        rw [hsegments] at hmem
        rw [List.cons_append]
        rcases List.mem_cons.mp hmem with rfl | hmem
        · rcases hsame hclosed (fun h => absurd h hskipped.1) with h | ⟨text, after, h⟩
          · exact ⟨_, h ▸ List.mem_cons_self, hfront, hskipped⟩
          · exact ⟨_, h ▸ List.mem_cons_self, hfront, skipped_of_text rfl⟩
        · have hne : rest ≠ [] := by
            rintro rfl
            rw [segments_of_blank rfl] at hmem
            cases hmem
          rcases hsame (fun tag h => hne (hunclosed tag h)) (fun _ => hne) with
            h | ⟨text, after, h⟩
          · have hends' : ∀ a b, rest = a ++ '<' :: b → '>' ∈ b := by
              intro a b hrest
              refine hends (taken ++ a) b ?_
              rw [hchars, hrest, List.append_assoc]
            obtain ⟨segment, hin, hstart, hs⟩ := ih _ hlt hends' hmem rfl
            refine ⟨segment, h ▸ List.mem_cons_of_mem _ hin, ?_, hs⟩
            rwa [hchars, byteLength_append, ← Nat.add_assoc]
          · exact ⟨_, h ▸ List.mem_cons_self, hfront, skipped_of_text rfl⟩

theorem mem_behind {a b before after : List Char} (hafter : '<' ∉ after)
    (h : before ++ '>' :: after = a ++ '<' :: b) : '>' ∈ b := by
  rcases List.append_eq_append_iff.mp h with ⟨c, -, h⟩ | ⟨c, -, h⟩
  · cases c with
    | nil => cases h
    | cons d c =>
      obtain ⟨-, rfl⟩ := List.cons.inj h
      exact absurd (List.mem_append_right c List.mem_cons_self) hafter
  · cases c with
    | nil => cases h
    | cons d c =>
      obtain ⟨-, rfl⟩ := List.cons.inj h
      exact List.mem_append_right c List.mem_cons_self

theorem told_of_alone {m : Markup} (hends : ∀ a b, (literalText m).toList = a ++ '<' :: b → '>' ∈ b)
    (h : ∀ n, ∃ segment ∈ segments ⟨n, (literalText m).toList⟩,
      segment.Skipped scheme ∧ ∀ tag, segment.kind ≠ .element tag false)
    (below : List (Block × Markup)) : Told scheme m below := by
  intro n
  obtain ⟨segment, hmem, hskipped, hclosed⟩ := h n
  exact exists_skipped_append hends hmem hskipped hclosed _

example (below : List (Block × Markup)) :
    Told .blue (Fragment.customHtml "<div>x</div><div>y</div>") below := by
  let f : Forest := .element (.plain "div" (by decide)) rfl (.text ['x'] (by decide) .nil)
    (.element (.plain "div" (by decide)) rfl (.text ['y'] (by decide) .nil)
      (.text ['\n'] (by decide) .nil))
  have hchars : (literalText (Fragment.customHtml "<div>x</div><div>y</div>")).toList =
      "<div>x</div><div>y</div".toList ++ '>' :: ['\n'] := by
    decide +kernel
  refine told_of_alone (fun a b h => mem_behind (by decide) (hchars.symm.trans h)) ?_ below
  intro n
  have hs : f.IsSpaced := ⟨by decide, trivial⟩
  rw [hchars]
  refine ⟨⟨.element "div" true, ⟨n, "<div>x</div>".toList⟩⟩, ?_, ?_, by simp⟩
  · exact List.mem_of_mem_head? (congrArg List.head? (segments_forest f hs n))
  · have hwritten : "<div>x</div>".toList = Literal.encode "<div>x</div>".toList := by
      decide +kernel
    exact @skipped_of_unread .blue "<div>x</div>".toList "div" _ (by decide +kernel)
      (congrArg (Prod.mk _) hwritten)
namespace Content

theorem warnings_prefix_addSegment (c : Content) (segment : Segment) :
    c.warnings <+: (c.addSegment scheme segment).warnings := by
  have hwarn := List.prefix_append c.warnings
    ((Literal.unsupported (Literal.pieces segment.slice)).map unsupportedExpression)
  unfold addSegment
  dsimp only
  split
  · split <;> exact hwarn
  · exact hwarn.trans (List.prefix_append _ _)
  · split
    · exact hwarn
    · exact hwarn.trans (List.prefix_append _ _)
  · exact hwarn.trans (List.prefix_append _ _)

theorem warnings_prefix_foldl (segments : List Segment) (c : Content) :
    c.warnings <+: (segments.foldl (addSegment scheme) c).warnings := by
  induction segments generalizing c with
  | nil => exact List.prefix_refl _
  | cons segment segments ih =>
    exact (c.warnings_prefix_addSegment segment).trans (ih (c.addSegment scheme segment))

theorem length_warnings_of_skipped {segment : Segment} (h : segment.Skipped scheme) (c : Content) :
    c.warnings.length < (c.addSegment scheme segment).warnings.length := by
  obtain ⟨warnings, w, heq⟩ := @addSegment_of_none scheme c segment h.1 h.2
  rw [heq, skip, warn, List.length_append, List.length_append, List.length_singleton]
  omega

theorem length_warnings_of_mem {segments : List Segment} {segment : Segment}
    (hmem : segment ∈ segments) (h : segment.Skipped scheme) (c : Content) :
    c.warnings.length < (segments.foldl (addSegment scheme) c).warnings.length := by
  obtain ⟨before, after, rfl⟩ := List.append_of_mem hmem
  rw [List.foldl_append, List.foldl_cons]
  have hbefore := (@warnings_prefix_foldl scheme before c).length_le
  have hafter := (@warnings_prefix_foldl scheme after
    ((before.foldl (addSegment scheme) c).addSegment scheme segment)).length_le
  have hsegment := length_warnings_of_skipped h (before.foldl (addSegment scheme) c)
  omega

end Content

end EmailTemplates.Source
