import EmailTemplates.Proofs.Source.Literal
import EmailTemplates.Proofs.Source.Recognize
import EmailTemplates.Proofs.Source.Segments

namespace EmailTemplates.Source

open EmailTemplates.Text (Slice isBlank byteLength byteLength_append)
open Outcome

variable {cs a b : List Char} {c d : Char}

namespace Literal

structure Seam (c : Char) : Prop where
  breaks : Token.breaks c = true
  plain : isSpecial c = false
  notDot : c ≠ '.'

theorem seam_of_isBlank (h : isBlank c = true) : Seam c where
  breaks := Token.breaks_of_isBlank h
  plain := by
    by_contra hspecial
    simp only [isSpecial, Bool.not_eq_false, Bool.or_eq_true, beq_iff_eq] at hspecial
    rcases hspecial with (rfl | rfl) | rfl <;> revert h <;> decide
  notDot := by
    rintro rfl
    revert h
    decide

theorem exists_of_encode_seam (hc : Seam c) (h : encode cs = a ++ c :: b) :
    ∃ x y, cs = x ++ c :: y ∧ encode x = a ∧ encode y = b := by
  induction hn : cs.length using Nat.strong_induction_on generalizing cs a with
  | _ n ih =>
    have hmem : c ∈ cs := by
      refine mem_of_mem_encode hc.breaks hc.plain hc.notDot ?_
      rw [h]
      exact List.mem_append_right a List.mem_cons_self
    obtain ⟨x, y, rfl, hx⟩ := List.eq_append_cons_of_mem hmem
    rw [encode_append hc.breaks hc.plain] at h
    -- the first seam of the text is the first one of what is encoded
    rcases Slice.mem_parts h with ⟨after, hin, -⟩ | ⟨before, rfl, hrest⟩
    · refine absurd (mem_of_mem_encode hc.breaks hc.plain hc.notDot ?_) hx
      rw [hin]
      exact List.mem_append_right a List.mem_cons_self
    · cases before with
      | nil => exact ⟨x, y, rfl, (List.append_nil _).symm, (List.cons.inj hrest).2⟩
      | cons d before =>
        obtain ⟨rfl, hy⟩ := List.cons.inj hrest
        have hlt : y.length < n := by
          rw [← hn, List.length_append, List.length_cons]
          omega
        obtain ⟨u, v, rfl, rfl, hv⟩ := ih _ hlt hy rfl
        refine ⟨x ++ c :: u, v, by simp, ?_, hv⟩
        rw [encode_append hc.breaks hc.plain]

inductive Cut : List Char → List Char → Prop
  | start (b : List Char) : Cut [] b
  | stop (a : List Char) : Cut a []
  | after {a : List Char} {c : Char} (b : List Char) : Seam c → Cut (a ++ [c]) b
  | before {c : Char} {b : List Char} (a : List Char) : Seam c → Cut a (c :: b)

theorem Cut.of_append (h : Cut (cs ++ a) b) : Cut a b := by
  rcases List.eq_nil_or_concat' a with rfl | ⟨a, c, rfl⟩
  · exact .start b
  · rw [← List.append_assoc] at h
    generalize hv : cs ++ a ++ [c] = v at h
    cases h with
    | start => simp at hv
    | stop => exact .stop _
    | after b hc =>
      cases (List.append_inj' hv rfl).2
      exact .after b hc
    | before a hc => exact .before _ hc

theorem Cut.of_append_right (h : Cut a (b ++ cs)) : Cut a b := by
  cases b with
  | nil => exact .stop a
  | cons c b =>
    cases h with
    | start => exact .start _
    | after _ hc => exact .after _ hc
    | before _ hc => exact .before _ hc

theorem Cut.trans (h : Cut a (b ++ cs)) (h' : Cut b cs) : Cut (a ++ b) cs := by
  cases h' with
  | start => rwa [List.append_nil]
  | stop => exact .stop _
  | after _ hc =>
    rw [← List.append_assoc]
    exact .after _ hc
  | before _ hc => exact .before _ hc

theorem Cut.seam (h : Cut (a ++ [c]) (d :: b)) : Seam c ∨ Seam d := by
  generalize hv : a ++ [c] = v at h
  cases h with
  | start => simp at hv
  | after b hc =>
    cases (List.append_inj' hv rfl).2
    exact .inl hc
  | before a hd => exact .inr hd

theorem Seam.ne (h : Seam c) (hd : isSpecial d = true ∨ Token.breaks d = false) : c ≠ d := by
  rintro rfl
  rcases hd with hd | hd
  · exact Bool.false_ne_true (h.plain.symm.trans hd)
  · exact Bool.false_ne_true (hd.symm.trans h.breaks)

theorem Cut.exists_of_encode (hcut : Cut a b) (h : encode cs = a ++ b) :
    ∃ x y, cs = x ++ y ∧ encode x = a ∧ encode y = b := by
  cases hcut with
  | start => exact ⟨[], cs, rfl, encode_nil, h⟩
  | stop => exact ⟨cs, [], (List.append_nil cs).symm, by rw [h, List.append_nil], encode_nil⟩
  | @after a c b hc =>
    rw [List.append_assoc, List.singleton_append] at h
    obtain ⟨x, y, rfl, rfl, hy⟩ := exists_of_encode_seam hc h
    refine ⟨x ++ [c], y, by simp, ?_, hy⟩
    rw [encode_append hc.breaks hc.plain, encode_nil]
  | @before c b a hc =>
    obtain ⟨x, y, rfl, hx, rfl⟩ := exists_of_encode_seam hc h
    refine ⟨x, c :: y, rfl, hx, ?_⟩
    have henc := encode_append hc.breaks hc.plain [] y
    rwa [List.nil_append, encode_nil, List.nil_append] at henc

end Literal

open Literal (Cut Seam seam_of_isBlank)

def CutsOff (rest s : Slice) : Prop :=
  ∃ taken, s.chars = taken ++ rest.chars ∧ Cut taken rest.chars

variable {s s' rest : Slice}

theorem cutsOff_skipBlanks (s : Slice) : CutsOff s.skipBlanks s := by
  refine ⟨s.chars.takeWhile isBlank, List.takeWhile_append_dropWhile.symm, ?_⟩
  rcases List.eq_nil_or_concat' (s.chars.takeWhile isBlank) with hnil | ⟨blanks, c, hblanks⟩
  · rw [hnil]
    exact .start _
  · rw [hblanks]
    refine .after _ (seam_of_isBlank (List.mem_takeWhile_imp (l := s.chars) ?_))
    rw [hblanks]
    exact List.mem_append_right blanks List.mem_cons_self

inductive AtAngle : List Char → List Char → Prop
  | stop (a : List Char) : AtAngle a []
  | after (a b : List Char) : AtAngle (a ++ ['>']) b
  | before (a b : List Char) : AtAngle a ('<' :: b)

theorem AtAngle.append (h : AtAngle a b) (cs : List Char) : AtAngle (cs ++ a) b := by
  cases h with
  | stop => exact .stop _
  | after a b =>
    rw [← List.append_assoc]
    exact .after _ b
  | before a b => exact .before _ b

theorem AtAngle.beside (h : AtAngle (a ++ [c]) (d :: b)) : c = '>' ∨ d = '<' := by
  generalize hv : a ++ [c] = v at h
  cases h with
  | after a b =>
    cases (List.append_inj' hv rfl).2
    exact .inl rfl
  | before a b => exact .inr rfl

theorem AtAngle.cut (h : AtAngle a b) : Cut a b := by
  cases h with
  | stop => exact .stop a
  | after a b => exact .after b ⟨by decide, by decide, by decide⟩
  | before a b => exact .before a ⟨by decide, by decide, by decide⟩

def CutsAtAngle (rest s : Slice) : Prop :=
  ∃ taken, s.chars = taken ++ rest.chars ∧ AtAngle taken rest.chars

def AfterAngle (rest s : Slice) : Prop :=
  ∃ taken, s.chars = taken ++ '>' :: rest.chars

theorem AfterAngle.of_isEndOf (h : AfterAngle rest s') (hs : s'.IsEndOf s) : AfterAngle rest s := by
  obtain ⟨cs, hcs⟩ := h
  obtain ⟨ds, hds, -⟩ := hs
  exact ⟨ds ++ cs, by rw [hds, hcs, List.append_assoc]⟩

theorem AfterAngle.cuts (h : AfterAngle rest s) : CutsAtAngle rest s := by
  obtain ⟨taken, htaken⟩ := h
  exact ⟨taken ++ ['>'], by rw [htaken, List.append_assoc, List.singleton_append], .after _ _⟩

theorem cutsAtAngle_all (s : Slice) : CutsAtAngle (s.drop s.chars.length) s := by
  refine ⟨s.chars, by simp, ?_⟩
  rw [Slice.chars_drop, List.drop_length]
  exact .stop _

theorem eq_of_dropWhile_ne {d : Char} {tail : List Char}
    (h : cs.dropWhile (· != d) = c :: tail) : c = d := by
  have hhead := List.head?_dropWhile_not (· != d) cs
  rw [h] at hhead
  simpa using hhead

theorem Tag.chars_of_upToAngle {inside : Slice} (h : upToAngle s = some (inside, rest)) :
    s.chars = inside.chars ++ '>' :: rest.chars ∧ '>' ∉ inside.chars := by
  unfold upToAngle at h
  dsimp only at h
  split at h
  · cases h
  · rename_i hne
    cases h
    refine ⟨?_, fun hmem => absurd (List.mem_takeWhile_imp hmem) (by decide)⟩
    cases hdrop : s.chars.dropWhile (· != '>') with
    | nil => simp [Slice.isEmpty, hdrop] at hne
    | cons c tail =>
      obtain rfl := eq_of_dropWhile_ne hdrop
      rw [Slice.takeWhile, Slice.chars_drop, Slice.chars_dropWhile, hdrop, List.drop_one,
        List.tail_cons, ← hdrop, List.takeWhile_append_dropWhile]

theorem Tag.afterAngle_of_upToAngle {a : Slice} (h : upToAngle s = some (a, rest)) :
    AfterAngle rest s :=
  ⟨a.chars, (chars_of_upToAngle h).1⟩

theorem Tag.afterAngle_of_read {tag : Tag} (h : read s = some (tag, rest)) : AfterAngle rest s := by
  obtain ⟨s', a, hend, hread⟩ := exists_upToAngle_of_read h
  exact (afterAngle_of_upToAngle hread).of_isEndOf hend

namespace Segment

theorem afterAngle_of_afterClosing {name : List Char} {depth : Nat}
    (h : afterClosing name depth s = some rest) : AfterAngle rest s := by
  induction hn : s.chars.length using Nat.strong_induction_on generalizing s depth with
  | _ n ih =>
    cases hf : s.find Tag.read with
    | none =>
      rw [afterClosing, hf] at h
      cases h
    | some p =>
      obtain ⟨s', tag, r⟩ := p
      have hlt : r.chars.length < n := hn ▸ Slice.length_of_find Tag.advances_read hf
      obtain ⟨hs, hr⟩ := Tag.leavesEnd_read.find hf
      rw [afterClosing_of_some hf] at h
      have hgoOn {k : Nat} (h : afterClosing name k r = some rest) : AfterAngle rest s :=
        (ih _ hlt h rfl).of_isEndOf (hr.trans hs)
      split at h
      · exact hgoOn h
      · split at h
        · exact hgoOn h
        · split at h
          · cases h
            exact (Tag.afterAngle_of_read (Slice.read_of_find hf)).of_isEndOf hs
          · exact hgoOn h

variable {kind : SegmentKind}

theorem cutsAtAngle_comment? (h : comment? s = some (kind, rest)) : CutsAtAngle rest s := by
  unfold comment? at h
  split at h
  · split at h
    · rename_i a r hsplit
      cases h
      have hclosing : ("-->" : String).toList = ['-', '-', '>'] := rfl
      have hchars := Slice.chars_of_splitAt? hsplit
      refine AfterAngle.cuts ⟨a.chars ++ ['-', '-'], ?_⟩
      rw [hchars, hclosing]
      simp
    · cases h
      exact cutsAtAngle_all s
  · cases h

theorem cutsAtAngle_element? (h : element? s = some (kind, rest)) : CutsAtAngle rest s := by
  obtain ⟨⟨tag, r⟩, ht, h⟩ := Option.bind_eq_some_iff.mp h
  obtain ⟨-, h⟩ := unless_none_eq_some.mp h
  split at h
  · cases h
    exact (Tag.afterAngle_of_read ht).cuts
  · split at h
    · rename_i hclosing
      cases h
      exact ((afterAngle_of_afterClosing hclosing).of_isEndOf (Tag.leavesEnd_read _ _ _ ht)).cuts
    · cases h
      exact cutsAtAngle_all s

theorem cutsAtAngle_text (s : Slice) : CutsAtAngle ((s.drop 1).dropWhile (· != '<')) s := by
  obtain ⟨taken, htaken, -⟩ := (Slice.isEndOf_dropWhile (· != '<') (s.drop 1)).trans
    (Slice.isEndOf_drop 1 s)
  refine ⟨taken, htaken, ?_⟩
  rw [Slice.chars_dropWhile]
  cases hdrop : (s.drop 1).chars.dropWhile (· != '<') with
  | nil => exact .stop _
  | cons c tail =>
    obtain rfl := eq_of_dropWhile_ne hdrop
    exact .before _ _

theorem cutsAtAngle_next (s : Slice) : CutsAtAngle (next s).2 s := by
  unfold next
  cases hc : comment? s with
  | some p => exact cutsAtAngle_comment? hc
  | none =>
    cases he : element? s with
    | some p => exact cutsAtAngle_element? he
    | none => exact cutsAtAngle_text s

end Segment

theorem exists_cuts_of_mem_segments {segment : Segment} (h : segment ∈ segments s) :
    ∃ before after, s.chars = before ++ (segment.slice.chars ++ after) ∧
      segment.slice.start = s.start + byteLength before ∧
      Cut before (segment.slice.chars ++ after) ∧
      AtAngle (before ++ segment.slice.chars) after := by
  induction hn : s.chars.length using Nat.strong_induction_on generalizing s with
  | _ n ih =>
    subst hn
    by_cases hblank : s.skipBlanks.chars = []
    · rw [segments_of_blank hblank] at h
      cases h
    obtain ⟨blanks, hblanks, hcut⟩ := cutsOff_skipBlanks s
    obtain ⟨taken, htaken, hangle⟩ := Segment.cutsAtAngle_next s.skipBlanks
    obtain ⟨hend, hlt⟩ := Segment.follows_next hblank
    have hstart := (Slice.isEndOf_skipBlanks s).start_eq hblanks
    have hrest := hend.start_eq htaken
    rw [htaken] at hblanks hcut
    rw [segments_of_next hblank] at h
    rcases List.mem_cons.mp h with rfl | h
    · have hslice : (s.skipBlanks.before (Segment.next s.skipBlanks).2).chars = taken :=
        List.append_cancel_right (hend.chars_before.symm.trans htaken)
      rw [← hslice] at hblanks hcut hangle
      exact ⟨blanks, _, hblanks, hstart, hcut, hangle.append blanks⟩
    · have hshorter := Nat.lt_of_lt_of_le hlt (Slice.isEndOf_skipBlanks s).length_le
      obtain ⟨before, after, hchars, hbefore, hcut', hangle'⟩ := ih _ hshorter h rfl
      have hnext := hangle.cut
      rw [hchars] at hblanks hcut hnext
      refine ⟨blanks ++ (taken ++ before), after, ?_, ?_, ?_, ?_⟩
      · rw [hblanks]
        simp only [List.append_assoc]
      · rw [hbefore, hrest, hstart, byteLength_append, byteLength_append]
        omega
      · refine Cut.trans ?_ (hnext.trans hcut')
        rwa [List.append_assoc]
      · have hwhole := hangle'.append (blanks ++ taken)
        simpa only [List.append_assoc] using hwhole

theorem encoded_segments (h : s.chars = Literal.encode cs) :
    ∀ segment ∈ segments s, ∃ ds, ds <:+: cs ∧ segment.slice.chars = Literal.encode ds := by
  intro segment hmem
  obtain ⟨before, after, hs, -, hcut, hangle⟩ := exists_cuts_of_mem_segments hmem
  obtain ⟨x, y, rfl, -, hy⟩ := hcut.exists_of_encode (h.symm.trans hs)
  obtain ⟨ds, z, rfl, hds, -⟩ := hangle.cut.of_append.exists_of_encode hy
  exact ⟨ds, List.infix_append' x ds z, hds.symm⟩

theorem infix_text_of_mem_segments (h : s.chars = Literal.encode cs) {segment : Segment}
    (hmem : segment ∈ segments s) : Literal.text (Literal.pieces segment.slice) <:+: cs := by
  obtain ⟨ds, hds, hchars⟩ := encoded_segments h segment hmem
  have hslice : segment.slice = ⟨segment.slice.start, Literal.encode ds⟩ := by rw [← hchars]
  rw [hslice, (Literal.pieces_encode _ ds).1]
  exact hds

end EmailTemplates.Source
