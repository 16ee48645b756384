import EmailTemplates.Proofs.Source.Keyword
import EmailTemplates.Source.Declaration

namespace EmailTemplates.Source

open EmailTemplates.Text (Slice byteLength)
open Outcome

variable {cs ds rest : List Char} {c : Char}

def Quiet (cs : List Char) : Prop :=
  ∀ u v, cs = u ++ '\n' :: v → ¬ "export".toList <+: v.dropWhile isIndent

def isBarrier (c : Char) : Bool :=
  !isIndent c && !"export".toList.contains c

theorem quiet_of_not_mem (h : '\n' ∉ cs) : Quiet cs := by
  rintro u v rfl
  simp at h

theorem quiet_of_free (h : ¬ "export".toList <:+: cs) : Quiet cs := by
  rintro u v rfl hp
  have hsuffix : v.dropWhile isIndent <:+ u ++ '\n' :: v :=
    (List.dropWhile_suffix _).trans ((List.suffix_cons _ v).trans (List.suffix_append _ _))
  exact h (hp.isInfix.trans hsuffix.isInfix)

theorem dropWhile_append_of_barrier {b : Char} (hb : isBarrier b = true) (cs ds : List Char) :
    (cs ++ b :: ds).dropWhile isIndent = cs.dropWhile isIndent ++ b :: ds := by
  have hindent : isIndent b = false := by
    simpa using (Bool.and_eq_true_iff.mp hb).1
  exact Slice.dropWhile_append_cons hindent cs ds

theorem Quiet.append (hcs : Quiet cs) (hds : Quiet ds)
    (hb : ∀ c ∈ ds.head?, isBarrier c = true) : Quiet (cs ++ ds) := by
  intro u v huv
  rcases List.append_eq_append_iff.mp huv with ⟨a, -, ha⟩ | ⟨a, ha, hv⟩
  · exact hds a v ha
  · cases a with
    | nil => exact hds [] v hv.symm
    | cons x a =>
      rw [List.cons_append] at hv
      obtain ⟨rfl, rfl⟩ := List.cons.inj hv
      have hno := hcs u a ha
      cases ds with
      | nil => rwa [List.append_nil]
      | cons b ds =>
        have hbarrier : isBarrier b = true := hb b rfl
        rw [dropWhile_append_of_barrier hbarrier]
        refine fun hp => hno (prefix_of_append_cons ?_ hp)
        simpa [isBarrier] using (Bool.and_eq_true_iff.mp hbarrier).2

theorem Quiet.append_cons {b : Char} (hcs : Quiet cs) (hb : isBarrier b = true)
    (hds : Quiet (b :: ds)) : Quiet (cs ++ b :: ds) :=
  hcs.append hds (Slice.head_cons hb ds)

theorem Quiet.prepend (h : '\n' ∉ cs) (hds : Quiet ds) : Quiet (cs ++ ds) := by
  intro u v huv
  rcases List.append_eq_append_iff.mp huv with ⟨a, -, ha⟩ | ⟨a, ha, hv⟩
  · exact hds a v ha
  · cases a with
    | nil => exact hds [] v hv.symm
    | cons x a =>
      obtain ⟨rfl, -⟩ := List.cons.inj hv
      simp [ha] at h

theorem Quiet.cons (h : c ≠ '\n') (hcs : Quiet cs) : Quiet (c :: cs) :=
  @Quiet.prepend [c] _ (by simpa using Ne.symm h) hcs

theorem Quiet.newline (hcs : Quiet cs) (hb : ∀ c ∈ cs.head?, isBarrier c = true) :
    Quiet ('\n' :: cs) :=
  @Quiet.append ['\n'] _ (fun u v huv => by
    cases u with
    | nil =>
      obtain ⟨-, rfl⟩ := List.cons.inj huv
      simp
    | cons x u =>
      have hlen := congrArg List.length huv
      simp at hlen) hcs hb

theorem length_identifier {s a s' : Slice} (h : identifier s = some (a, s')) :
    s'.chars.length < s.chars.length := by
  unfold identifier at h
  split at h
  · exact Slice.length_run h
  · cases h

theorem length_readQuoted {s a s' : Slice} (h : Quoted.read s = some (a, s')) :
    s'.chars.length < s.chars.length := by
  unfold Quoted.read at h
  split at h
  · cases h
  · rename_i quote cs hs
    split at h
    · obtain ⟨k, -, hk⟩ := Option.map_eq_some_iff.mp h
      cases hk
      rw [Slice.chars_drop, hs, List.length_drop, List.length_cons]
      omega
    · cases h

namespace Scalar

theorem length_skipType {s s' : Slice} (h : skipType s = some s') :
    s'.chars.length ≤ s.chars.length := by
  unfold skipType at h
  split at h
  · cases h
    exact Nat.le_refl _
  · rename_i s1 h1
    dsimp only at h
    split at h
    · obtain ⟨⟨a, s2⟩, h2, h⟩ := Option.bind_eq_some_iff.mp h
      cases h
      have l1 := Slice.length_expect h1
      have l2 := Slice.length_run h2
      have l3 := Slice.length_dropWhile Text.isBlank s1
      have l4 := Slice.length_dropWhile Text.isBlank s2
      simp only [Slice.skipBlanks] at l2 ⊢
      omega
    · cases h

theorem advances_read : Slice.Advances read := by
  intro s a rest h
  obtain ⟨s1, h1, h⟩ := Option.bind_eq_some_iff.mp h
  obtain ⟨s2, h2, h⟩ := Option.bind_eq_some_iff.mp h
  obtain ⟨s3, h3, h⟩ := Option.bind_eq_some_iff.mp h
  obtain ⟨s4, h4, h⟩ := Option.bind_eq_some_iff.mp h
  obtain ⟨⟨name, s5⟩, h5, h⟩ := Option.bind_eq_some_iff.mp h
  obtain ⟨s6, h6, h⟩ := Option.bind_eq_some_iff.mp h
  obtain ⟨s7, h7, h⟩ := Option.bind_eq_some_iff.mp h
  obtain ⟨⟨raw, s8⟩, h8, h⟩ := Option.bind_eq_some_iff.mp h
  cases h
  have l0 := Slice.length_dropWhile isIndent s
  have l1 := Slice.length_expectText h1
  have l2 := Slice.length_skipBlanks? h2
  have l3 := Slice.length_expectText h3
  have l4 := Slice.length_skipBlanks? h4
  have l5 := length_identifier h5
  have l6 := length_skipType h6
  have l7 := Slice.length_expect h7
  have l8 := length_readQuoted h8
  have d5 := Slice.length_dropWhile Text.isBlank s5
  have d7 := Slice.length_dropWhile Text.isBlank s7
  simp only [Slice.skipBlanks] at l6 l8
  omega

theorem read_eq_none (h : ¬ "export".toList <+: cs.dropWhile isIndent) (n : Nat) :
    read ⟨n, cs⟩ = none := by
  have hnot : "export".toList.isPrefixOf (cs.dropWhile isIndent) = false := by
    rwa [← Bool.not_eq_true, List.isPrefixOf_iff_prefix]
  rw [read, Slice.expectText]
  simp only [Slice.chars_dropWhile, hnot, Bool.false_eq_true, if_false]
  rfl

end Scalar

def scalarsFrom (s : Slice) : List Scalar :=
  Slice.findAllInLines.go Scalar.read true s

theorem scalarsFrom_quiet (h : Quiet ('\n' :: cs)) (n : Nat) (rest : List Char) :
    ∃ m, scalarsFrom ⟨n, cs ++ '\n' :: rest⟩ = scalarsFrom ⟨m, rest⟩ := by
  suffices hgo : ∀ b n, (b = true → ¬ "export".toList <+: cs.dropWhile isIndent) → Quiet cs →
      ∃ m, Slice.findAllInLines.go Scalar.read b ⟨n, cs ++ '\n' :: rest⟩ =
        Slice.findAllInLines.go Scalar.read true ⟨m, rest⟩ from
    hgo true n (fun _ => h [] cs rfl) fun u v huv => h ('\n' :: u) v (by rw [huv]; rfl)
  clear h n
  have hread (n : Nat) (cs : List Char) (h : ¬ "export".toList <+: cs.dropWhile isIndent) :
      Scalar.read ⟨n, cs ++ '\n' :: rest⟩ = none := by
    refine Scalar.read_eq_none (fun hp => h ?_) n
    rw [dropWhile_append_of_barrier (by decide)] at hp
    exact prefix_of_append_cons (by decide) hp
  induction cs with
  | nil =>
    intro b n hb _
    exact ⟨_, Slice.findAllInLines_of_none fun h => hread n [] (hb h)⟩
  | cons c cs ih =>
    intro b n hb hcs
    have hnext : (c == '\n') = true → ¬ "export".toList <+: cs.dropWhile isIndent := fun hc =>
      hcs [] cs (by rw [beq_iff_eq.mp hc]; rfl)
    obtain ⟨m, hm⟩ := ih (c == '\n') (n + c.utf8Size) hnext fun u v huv =>
      hcs (c :: u) v (by rw [huv]; rfl)
    refine ⟨m, ?_⟩
    exact (Slice.findAllInLines_of_none fun h => hread n (c :: cs) (hb h)).trans hm

end EmailTemplates.Source
