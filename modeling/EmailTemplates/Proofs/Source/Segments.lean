import EmailTemplates.Proofs.Source.Tag
import EmailTemplates.Proofs.Text.Ends

namespace EmailTemplates.Source

open EmailTemplates.Text (Slice byteLength byteLength_append isBlank)
open Outcome

theorem Tag.leavesEnd_upToAngle {s a rest : Slice} (h : upToAngle s = some (a, rest)) :
    rest.IsEndOf s := by
  unfold upToAngle at h
  dsimp only at h
  split at h
  · cases h
  · cases h
    exact (Slice.isEndOf_drop 1 _).trans (Slice.isEndOf_dropWhile _ s)

theorem Tag.prefix_of_upToAngle {s a rest : Slice} (h : upToAngle s = some (a, rest)) :
    a.chars <+: s.chars := by
  unfold upToAngle at h
  dsimp only at h
  split at h
  · cases h
  · cases h
    exact List.takeWhile_prefix _

theorem Tag.exists_upToAngle_of_read {s rest : Slice} {tag : Tag} (h : read s = some (tag, rest)) :
    ∃ s' a : Slice, s'.IsEndOf s ∧ upToAngle s' = some (a, rest) := by
  obtain ⟨s1, h1, h⟩ := Option.bind_eq_some_iff.mp h
  obtain ⟨-, h⟩ := unless_none_eq_some.mp h
  obtain ⟨⟨name, s2⟩, h2, h⟩ := Option.bind_eq_some_iff.mp h
  obtain ⟨-, h⟩ := unless_none_eq_some.mp h
  obtain ⟨⟨a, s3⟩, h3, h⟩ := Option.bind_eq_some_iff.mp h
  cases h
  have hslash : (if (s1.chars.head? == some '/') = true then s1.drop 1 else s1).IsEndOf s1 := by
    split
    · exact Slice.isEndOf_drop 1 s1
    · exact Slice.isEndOf_refl s1
  exact ⟨s2, a, (Slice.isEndOf_run h2).trans (hslash.trans (Slice.isEndOf_expect h1)), h3⟩

theorem Tag.leavesEnd_read : Slice.LeavesEnd read := by
  intro s tag rest h
  obtain ⟨s', a, hend, hread⟩ := exists_upToAngle_of_read h
  exact (leavesEnd_upToAngle hread).trans hend

namespace Segment

theorem isEndOf_afterClosing {name : List Char} {depth : Nat} {s rest : Slice}
    (h : afterClosing name depth s = some rest) : rest.IsEndOf s := by
  induction hn : s.chars.length using Nat.strong_induction_on generalizing s depth with
  | _ n ih =>
    cases hf : s.find Tag.read with
    | none =>
      rw [afterClosing, hf] at h
      cases h
    | some p =>
      obtain ⟨s', tag, r⟩ := p
      have hlt : r.chars.length < n := hn ▸ Slice.length_of_find Tag.advances_read hf
      obtain ⟨hs, hr⟩ := Tag.leavesEnd_read.find hf
      have hend : r.IsEndOf s := hr.trans hs
      rw [afterClosing_of_some hf] at h
      split at h
      · exact (ih _ hlt h rfl).trans hend
      · split at h
        · exact (ih _ hlt h rfl).trans hend
        · split at h
          · cases h
            exact hend
          · exact (ih _ hlt h rfl).trans hend

variable {s rest : Slice} {kind : SegmentKind}

def Follows (rest s : Slice) : Prop :=
  rest.IsEndOf s ∧ rest.chars.length < s.chars.length

theorem follows_drop {n : Nat} (hs : s.chars ≠ []) (hn : n ≠ 0) : Follows (s.drop n) s := by
  refine ⟨Slice.isEndOf_drop n s, ?_⟩
  have hpos := List.length_pos_iff.mpr hs
  rw [Slice.chars_drop, List.length_drop]
  omega

theorem Follows.of_isEndOf {s' : Slice} (h : rest.IsEndOf s') (h' : Follows s' s) :
    Follows rest s :=
  ⟨h.trans h'.1, Nat.lt_of_le_of_lt h.length_le h'.2⟩

theorem follows_comment? (h : comment? s = some (kind, rest)) : Follows rest s := by
  unfold comment? at h
  split at h
  · rename_i hopen
    obtain ⟨tail, htail⟩ := List.isPrefixOf_iff_prefix.mp hopen
    have hs : s.chars ≠ [] := by
      rw [← htail]
      exact List.append_ne_nil_of_left_ne_nil (by decide) tail
    split at h
    · rename_i hsplit
      cases h
      obtain ⟨n, -, rfl, -⟩ := Slice.splitAt?_eq_some hsplit
      exact follows_drop hs (Nat.add_pos_right n (by decide)).ne'
    · cases h
      exact follows_drop hs (List.length_pos_iff.mpr hs).ne'
  · cases h

theorem follows_element? (h : element? s = some (kind, rest)) : Follows rest s := by
  obtain ⟨⟨tag, r⟩, ht, h⟩ := Option.bind_eq_some_iff.mp h
  obtain ⟨-, h⟩ := unless_none_eq_some.mp h
  have hlt : r.chars.length < s.chars.length := Tag.advances_read _ _ _ ht
  have hr : Follows r s := ⟨Tag.leavesEnd_read _ _ _ ht, hlt⟩
  have hs : s.chars ≠ [] := List.length_pos_iff.mp (Nat.zero_lt_of_lt hlt)
  split at h
  · cases h
    exact hr
  · split at h
    · rename_i hclosing
      cases h
      exact .of_isEndOf (isEndOf_afterClosing hclosing) hr
    · cases h
      exact follows_drop hs (List.length_pos_iff.mpr hs).ne'

theorem follows_next (hs : s.chars ≠ []) : Follows (next s).2 s := by
  unfold next
  cases hc : comment? s with
  | some p => exact follows_comment? hc
  | none =>
    cases he : element? s with
    | some p => exact follows_element? he
    | none => exact .of_isEndOf (Slice.isEndOf_dropWhile _ _) (follows_drop hs Nat.one_ne_zero)

theorem element?_of_next {tag : String} {closed : Bool} (h : (next s).1 = .element tag closed) :
    element? s = some (next s) := by
  unfold next at h ⊢
  cases hcomment : comment? s with
  | some p =>
    rw [hcomment] at h
    have hkind : p.1 = .element tag closed := h
    unfold comment? at hcomment
    split at hcomment
    · split at hcomment <;>
      · cases hcomment
        cases hkind
    · cases hcomment
  | none =>
    rw [hcomment] at h
    cases helement : element? s with
    | some p => rfl
    | none =>
      rw [helement] at h
      cases h

end Segment

/-- Each segment is a part of the text that is not empty, each begins where the one before it has
ended or later, and what is not in any of them is blank. -/
structure Covers (segments : List Segment) (s : Slice) : Prop where
  nonempty : ∀ segment ∈ segments, segment.slice.chars ≠ []
  inside : ∀ segment ∈ segments, segment.slice.IsPartOf s
  ordered : segments.Pairwise fun a b => a.slice.stop ≤ b.slice.start
  outside : ∀ before c after, s.chars = before ++ c :: after → isBlank c = false →
    ∃ segment ∈ segments, segment.slice.start ≤ s.start + byteLength before ∧
      s.start + byteLength before + c.utf8Size ≤ segment.slice.stop

theorem covers_of_blank {s : Slice} (h : s.skipBlanks.chars = []) : Covers [] s where
  nonempty := by simp
  inside := by simp
  ordered := .nil
  outside := by
    intro before c after hs hc
    have hmem : c ∈ s.chars := by simp [hs]
    have hblank := List.dropWhile_eq_nil_iff.mp h c hmem
    rw [hc] at hblank
    cases hblank

theorem covers_cons {s s' rest : Slice} {kind : SegmentKind} {segments : List Segment}
    (hs : s' = s.skipBlanks) (hrest : Segment.Follows rest s') (h : Covers segments rest) :
    Covers (⟨kind, s'.before rest⟩ :: segments) s := by
  obtain ⟨hend, hlt⟩ := hrest
  have hskip : s'.IsEndOf s := hs ▸ Slice.isEndOf_skipBlanks s
  have hpart : (s'.before rest).IsPartOf s := (Slice.isPartOf_take _ s').trans_isEndOf hskip
  have hchars : s'.chars = (s'.before rest).chars ++ rest.chars := hend.chars_before
  have hstop : (s'.before rest).stop = rest.start := hend.stop_before
  refine ⟨?_, ?_, ?_, ?_⟩
  · refine List.forall_mem_cons.mpr ⟨?_, h.nonempty⟩
    intro hnil
    rw [hchars, hnil, List.nil_append] at hlt
    exact Nat.lt_irrefl _ hlt
  · refine List.forall_mem_cons.mpr ⟨hpart, ?_⟩
    exact fun segment hmem => (h.inside segment hmem).trans_isEndOf (hend.trans hskip)
  · refine List.pairwise_cons.mpr ⟨?_, h.ordered⟩
    intro segment hmem
    rw [hstop]
    exact (h.inside segment hmem).start_le
  · intro before c after hsplit hc
    -- the blanks before the segment, the segment, or what follows it
    have hgap : s.chars = s.chars.takeWhile isBlank ++ s'.chars := by
      rw [hs]
      exact List.takeWhile_append_dropWhile.symm
    have hstart : s'.start = s.start + byteLength (s.chars.takeWhile isBlank) := by
      rw [hs]
      rfl
    rcases Slice.mem_parts (hgap.symm.trans hsplit) with ⟨after', hblank, -⟩ |
        ⟨before', hb, hs'⟩
    · have hmem : c ∈ s.chars.takeWhile isBlank := by simp [hblank]
      rw [List.mem_takeWhile_imp hmem] at hc
      cases hc
    · rcases Slice.mem_parts (hchars.symm.trans hs') with ⟨after', hin, -⟩ |
          ⟨before'', hb', hr⟩
      · refine ⟨_, List.mem_cons_self, ?_, ?_⟩
        · rw [hb, byteLength_append, ← Nat.add_assoc, ← hstart]
          exact Nat.le_add_right _ _
        · rw [hb, byteLength_append, ← Nat.add_assoc, ← hstart]
          have hlength : (s'.before rest).stop = s'.start + byteLength (s'.before rest).chars := rfl
          rw [hlength, hin, byteLength_append, Text.byteLength_cons]
          omega
      · obtain ⟨segment, hmem, hle, hge⟩ := h.outside before'' c after hr hc
        have hplace : rest.start + byteLength before'' = s.start + byteLength before := by
          have hlength : (s'.before rest).stop = s'.start + byteLength (s'.before rest).chars := rfl
          rw [hb, hb', byteLength_append, byteLength_append, ← hstop, hlength, hstart]
          omega
        rw [hplace] at hle hge
        exact ⟨segment, List.mem_cons_of_mem _ hmem, hle, hge⟩

theorem segments_of_blank {s : Slice} (h : s.skipBlanks.chars = []) : segments s = [] := by
  rw [segments]
  simp [Slice.isEmpty, h]

theorem segments_of_next {s : Slice} (h : s.skipBlanks.chars ≠ []) :
    segments s = ⟨(Segment.next s.skipBlanks).1,
      s.skipBlanks.before (Segment.next s.skipBlanks).2⟩ ::
        segments (Segment.next s.skipBlanks).2 := by
  have hlt : (Segment.next s.skipBlanks).2.chars.length < s.chars.length :=
    Nat.lt_of_lt_of_le (Segment.follows_next h).2 (Slice.isEndOf_skipBlanks s).length_le
  rw [segments]
  simp [Slice.isEmpty, h, hlt]

theorem segments_congr {s s' : Slice} (h : s.skipBlanks = s'.skipBlanks) :
    segments s = segments s' := by
  by_cases hblank : s.skipBlanks.chars = []
  · rw [segments_of_blank hblank, segments_of_blank (h ▸ hblank)]
  · have hblank' : s'.skipBlanks.chars ≠ [] := h ▸ hblank
    rw [segments_of_next hblank, segments_of_next hblank', h]

theorem segments_blanks {cs : List Char} (h : cs.all isBlank = true) (n : Nat)
    (rest : List Char) : segments ⟨n, cs ++ rest⟩ = segments ⟨n + byteLength cs, rest⟩ := by
  have hcs : ∀ c ∈ cs, isBlank c = true := List.all_eq_true.mp h
  refine segments_congr ?_
  simp only [Slice.skipBlanks, Slice.dropWhile, List.takeWhile_append_of_pos hcs,
    List.dropWhile_append_of_pos hcs, Text.byteLength_append, Nat.add_assoc]

theorem exists_segments_cons {c : Char} (hc : isBlank c = false) (n : Nat) (cs : List Char) :
    ∃ taken rest m, c :: cs = taken ++ rest ∧ rest.length < (c :: cs).length ∧
      Segment.next ⟨n, c :: cs⟩ = ((Segment.next ⟨n, c :: cs⟩).1, ⟨m, rest⟩) ∧
      segments ⟨n, c :: cs⟩ = ⟨(Segment.next ⟨n, c :: cs⟩).1, ⟨n, taken⟩⟩ ::
        segments ⟨n + byteLength taken, rest⟩ := by
  have hskip : (⟨n, c :: cs⟩ : Slice).skipBlanks = ⟨n, c :: cs⟩ :=
    Slice.skipBlanks_self n (Slice.head_cons hc cs)
  have hne : (⟨n, c :: cs⟩ : Slice).skipBlanks.chars ≠ [] := by simp [hskip]
  obtain ⟨⟨taken, htaken, hm⟩, hlt⟩ := Segment.follows_next hne
  have hsegments := segments_of_next hne
  rw [hskip] at htaken hm hlt hsegments
  generalize Segment.next ⟨n, c :: cs⟩ = p at *
  obtain ⟨kind, ⟨m, rest⟩⟩ := p
  change c :: cs = taken ++ rest at htaken
  refine ⟨taken, rest, m, htaken, hlt, rfl, ?_⟩
  rw [hsegments, htaken, Slice.before_append]
  exact congrArg _ (congrArg (fun m => segments ⟨m, rest⟩) hm)

theorem exists_next_of_mem_segments {s : Slice} {segment : Segment} (h : segment ∈ segments s) :
    ∃ s' : Slice, s'.IsEndOf s ∧ segment.kind = (Segment.next s').1 ∧
      s'.chars = segment.slice.chars ++ (Segment.next s').2.chars := by
  induction hn : s.chars.length using Nat.strong_induction_on generalizing s with
  | _ n ih =>
    subst hn
    by_cases hblank : s.skipBlanks.chars = []
    · rw [segments_of_blank hblank] at h
      cases h
    obtain ⟨hend, hlt⟩ := Segment.follows_next hblank
    rw [segments_of_next hblank] at h
    rcases List.mem_cons.mp h with rfl | h
    · exact ⟨s.skipBlanks, Slice.isEndOf_skipBlanks s, rfl, hend.chars_before⟩
    · have hshorter := Nat.lt_of_lt_of_le hlt (Slice.isEndOf_skipBlanks s).length_le
      obtain ⟨s', hs', hnext⟩ := ih _ hshorter h rfl
      exact ⟨s', hs'.trans (hend.trans (Slice.isEndOf_skipBlanks s)), hnext⟩

theorem covers_segments (s : Slice) : Covers (segments s) s := by
  induction hn : s.chars.length using Nat.strong_induction_on generalizing s with
  | _ n ih =>
    by_cases h : s.skipBlanks.chars = []
    · rw [segments_of_blank h]
      exact covers_of_blank h
    · have hfollows := Segment.follows_next h
      rw [segments_of_next h]
      refine covers_cons rfl hfollows (ih _ ?_ _ rfl)
      rw [← hn]
      exact Nat.lt_of_lt_of_le hfollows.2 (Slice.isEndOf_skipBlanks s).length_le

end EmailTemplates.Source
