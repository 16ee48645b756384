import EmailTemplates.Text.Blank
import EmailTemplates.Text.Word
import Mathlib

namespace EmailTemplates.Text

theorem isBlank_of_isNameChar {c : Char} (h : isNameChar c = true) : isBlank c = false := by
  simp only [isNameChar, Char.isAlphanum, Char.isAlpha, Char.isUpper, Char.isLower, Char.isDigit,
    Bool.or_eq_true, Bool.and_eq_true, decide_eq_true_eq, beq_iff_eq, ge_iff_le,
    UInt32.le_iff_toNat_le] at h
  simp only [isBlank, Bool.or_eq_false_iff, Bool.and_eq_false_iff, decide_eq_false_iff_not,
    beq_eq_false_iff_ne, ne_eq]
  rcases h with h | rfl
  · simp at h
    omega
  · decide

def blanks : List Char :=
  (List.range 5).map (fun k => Char.ofNat (9 + k)) ++
    (List.range 11).map (fun k => Char.ofNat (0x2000 + k)) ++
    [0x20, 0x85, 0xA0, 0x1680, 0x2028, 0x2029, 0x202F, 0x205F, 0x3000].map Char.ofNat

theorem mem_blanks {c : Char} (h : isBlank c = true) : c ∈ blanks := by
  rw [← Char.ofNat_toNat c]
  simp only [isBlank, Bool.or_eq_true, Bool.and_eq_true, decide_eq_true_eq, beq_iff_eq] at h
  simp only [blanks, List.mem_append]
  by_cases h1 : 9 ≤ c.toNat ∧ c.toNat ≤ 13
  · refine .inl (.inl (List.mem_map.mpr ⟨c.toNat - 9, List.mem_range.mpr (by omega), ?_⟩))
    rw [Nat.add_sub_cancel' h1.1]
  · by_cases h2 : 0x2000 ≤ c.toNat ∧ c.toNat ≤ 0x200A
    · refine .inl (.inr (List.mem_map.mpr ⟨c.toNat - 0x2000, List.mem_range.mpr (by omega), ?_⟩))
      rw [Nat.add_sub_cancel' h2.1]
    · refine .inr (List.mem_map_of_mem ?_)
      simp only [List.mem_cons, List.not_mem_nil, or_false]
      omega

theorem not_mem_of_blank {c : Char} {cs : List Char} (hc : isBlank c = false)
    (h : ∀ d ∈ cs, isBlank d = true) : c ∉ cs := by
  intro hmem
  rw [h c hmem] at hc
  cases hc

theorem isWord_of_isBlank {c : Char} (h : isBlank c = true) : isWord c = false := by
  have hall : ∀ c ∈ blanks, isWord c = false := by decide +kernel
  exact hall c (mem_blanks h)

theorem isDigit_of_isBlank {c : Char} (h : isBlank c = true) : isDigit c = false := by
  have hall : ∀ c ∈ blanks, isDigit c = false := by decide +kernel
  exact hall c (mem_blanks h)

theorem trimEnd_eq_rdropWhile (cs : List Char) : trimEnd cs = cs.rdropWhile isBlank := rfl

theorem prefix_trimEnd (cs : List Char) : trimEnd cs <+: cs := by
  rw [trimEnd_eq_rdropWhile]
  exact List.rdropWhile_prefix isBlank cs

theorem isBlank_head_of_dropWhile {cs ds : List Char} {c : Char}
    (h : cs.dropWhile isBlank = c :: ds) : isBlank c = false := by
  have hne : cs.dropWhile isBlank ≠ [] := by simp [h]
  have hhead := List.head_dropWhile_not isBlank hne
  simpa [h] using hhead

theorem isBlank_head_of_trim {cs ds : List Char} {c : Char} (h : trim cs = c :: ds) :
    isBlank c = false := by
  obtain ⟨tail, htail⟩ := prefix_trimEnd (trimStart cs)
  rw [trim] at h
  rw [h] at htail
  exact isBlank_head_of_dropWhile htail.symm

theorem exists_blanks (cs : List Char) : ∃ before after, cs = before ++ (trim cs ++ after) ∧
    (∀ c ∈ before, isBlank c = true) ∧ ∀ c ∈ after, isBlank c = true := by
  refine ⟨cs.takeWhile isBlank, (cs.dropWhile isBlank).rtakeWhile isBlank, ?_,
    fun c => List.mem_takeWhile_imp, fun c => List.mem_rtakeWhile_imp⟩
  rw [trim, trimEnd_eq_rdropWhile, trimStart, List.rdropWhile_append_rtakeWhile,
    List.takeWhile_append_dropWhile]

theorem infix_trim (cs : List Char) : trim cs <:+: cs :=
  (prefix_trimEnd _).isInfix.trans (List.dropWhile_suffix _).isInfix

theorem mem_of_mem_trim {cs : List Char} {c : Char} (h : c ∈ trim cs) : c ∈ cs :=
  (infix_trim cs).subset h

theorem mem_trim_iff {cs : List Char} {c : Char} (hc : isBlank c = false) :
    c ∈ trim cs ↔ c ∈ cs := by
  refine ⟨mem_of_mem_trim, fun hmem => ?_⟩
  obtain ⟨before, after, hcs, hbefore, hafter⟩ := exists_blanks cs
  rw [hcs, List.mem_append, List.mem_append] at hmem
  rcases hmem with hmem | hmem | hmem
  · exact absurd hmem (not_mem_of_blank hc hbefore)
  · exact hmem
  · exact absurd hmem (not_mem_of_blank hc hafter)

theorem trim_eq_nil {cs : List Char} : trim cs = [] ↔ cs.all isBlank = true := by
  obtain ⟨before, after, hcs, hbefore, hafter⟩ := exists_blanks cs
  rw [List.all_eq_true]
  constructor
  · intro h c hc
    rw [hcs, h, List.nil_append, List.mem_append] at hc
    exact hc.elim (hbefore c) (hafter c)
  · intro h
    by_contra hne
    obtain ⟨c, ds, ht⟩ := List.exists_cons_of_ne_nil hne
    have hc : c ∈ cs := mem_of_mem_trim (by simp [ht])
    have hblank := h c hc
    rw [isBlank_head_of_trim ht] at hblank
    cases hblank

theorem isBlankText_eq_isEmpty_trim (s : String) : isBlankText s = (trim s.toList).isEmpty := by
  rw [Bool.eq_iff_iff, List.isEmpty_iff, trim_eq_nil]
  rfl

theorem trim_trim (cs : List Char) : trim (trim cs) = trim cs := by
  have hstart : trimStart (trim cs) = trim cs := by
    cases ht : trim cs with
    | nil => rfl
    | cons c ds => exact List.dropWhile_cons_of_neg (by simp [isBlank_head_of_trim ht])
  rw [trim, hstart, trim, trimEnd_eq_rdropWhile, trimEnd_eq_rdropWhile, List.rdropWhile_idempotent]

theorem trim_of_not_blank {cs : List Char} (h : ∀ c ∈ cs, isBlank c = false) : trim cs = cs := by
  have hdrop {ds : List Char} (hd : ∀ c ∈ ds, isBlank c = false) : ds.dropWhile isBlank = ds := by
    cases ds with
    | nil => rfl
    | cons d ds => simp [hd d List.mem_cons_self]
  rw [trim, trimStart, hdrop h, trimEnd, hdrop, List.reverse_reverse]
  exact fun c hc => h c (List.mem_reverse.mp hc)

theorem trim_of_ends {c d : Char} (hc : isBlank c = false) (hd : isBlank d = false)
    (cs : List Char) : trim (c :: (cs ++ [d])) = c :: (cs ++ [d]) := by
  have hrev : (c :: (cs ++ [d])).reverse = d :: (cs.reverse ++ [c]) := by simp
  have hdrop : (d :: (cs.reverse ++ [c])).dropWhile isBlank = d :: (cs.reverse ++ [c]) := by
    simp [hd]
  rw [trim, trimStart, List.dropWhile_cons_of_neg (by simp [hc]), trimEnd, hrev, hdrop, ← hrev,
    List.reverse_reverse]

end EmailTemplates.Text
