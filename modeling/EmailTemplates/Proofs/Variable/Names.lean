import EmailTemplates.Markup.Basic
import EmailTemplates.Proofs.Variable.Pieces
import Mathlib

namespace EmailTemplates.Variable

open EmailTemplates.Text (isNameChar)

theorem addNew_cons (seen : List String) (name : String) (names : List String) :
    addNew seen (name :: names) =
      addNew (if seen.contains name then seen else seen ++ [name]) names := rfl

theorem mem_addNew {n : String} {seen names : List String} :
    n ∈ addNew seen names ↔ n ∈ seen ∨ n ∈ names := by
  induction names generalizing seen with
  | nil => simp [addNew]
  | cons name names ih =>
    rw [addNew_cons, ih]
    by_cases h : seen.contains name = true
    · have hm : name ∈ seen := by simpa using h
      rw [if_pos h, List.mem_cons]
      constructor
      · rintro (hs | hn)
        · exact .inl hs
        · exact .inr (.inr hn)
      · rintro (hs | rfl | hn)
        · exact .inl hs
        · exact .inl hm
        · exact .inr hn
    · rw [if_neg h]
      simp [or_assoc]

theorem nodup_addNew {seen names : List String} (h : seen.Nodup) : (addNew seen names).Nodup := by
  induction names generalizing seen with
  | nil => exact h
  | cons name names ih =>
    rw [addNew_cons]
    by_cases hc : seen.contains name = true
    · rw [if_pos hc]
      exact ih h
    · rw [if_neg hc]
      have hm : name ∉ seen := by simpa using hc
      refine ih (List.nodup_append.mpr ⟨h, by simp, ?_⟩)
      intro a ha b hb
      cases List.mem_singleton.mp hb
      exact fun he => hm (he ▸ ha)

theorem mem_extract {n text : String} : n ∈ extract text ↔ n ∈ occurrences text := by
  simp [extract, mem_addNew]

theorem mem_insertSorted {n name : String} {names : List String} :
    n ∈ insertSorted name names ↔ n = name ∨ n ∈ names := by
  induction names with
  | nil => simp [insertSorted]
  | cons m names ih =>
    unfold insertSorted
    split
    · simp
    · split
      · rename_i h
        simp [h]
      · simp only [List.mem_cons, ih]
        exact or_left_comm

theorem pairwise_insertSorted {name : String} {names : List String}
    (h : names.Pairwise (· < ·)) : (insertSorted name names).Pairwise (· < ·) := by
  induction names with
  | nil => simp [insertSorted]
  | cons m names ih =>
    obtain ⟨hm, hnames⟩ := List.pairwise_cons.mp h
    unfold insertSorted
    split
    · rename_i hlt
      refine List.pairwise_cons.mpr ⟨?_, h⟩
      intro x hx
      rcases List.mem_cons.mp hx with rfl | hx
      · exact hlt
      · exact lt_trans hlt (hm x hx)
    · split
      · exact h
      · rename_i hlt hne
        refine List.pairwise_cons.mpr ⟨?_, ih hnames⟩
        intro x hx
        rcases mem_insertSorted.mp hx with rfl | hx
        · exact lt_of_le_of_ne (not_lt.mp hlt) (Ne.symm hne)
        · exact hm x hx

theorem mem_sorted {n : String} {names : List String} : n ∈ sorted names ↔ n ∈ names := by
  induction names with
  | nil => rfl
  | cons name names ih =>
    change n ∈ insertSorted name (sorted names) ↔ _
    rw [mem_insertSorted, ih, List.mem_cons]

theorem pairwise_sorted (names : List String) : (sorted names).Pairwise (· < ·) := by
  induction names with
  | nil => exact .nil
  | cons name names ih => exact pairwise_insertSorted ih

def bytes (text : String) : List UInt8 :=
  text.toList.flatMap String.utf8EncodeChar

theorem toNat_lt_of_isNameChar {c : Char} (h : isNameChar c = true) : c.val.toNat < 128 := by
  simp only [isNameChar, Char.isAlphanum, Char.isAlpha, Char.isUpper, Char.isLower, Char.isDigit,
    Bool.or_eq_true, Bool.and_eq_true, decide_eq_true_eq, beq_iff_eq, ge_iff_le,
    UInt32.le_iff_toNat_le] at h
  rcases h with ((⟨_, h⟩ | ⟨_, h⟩) | ⟨_, h⟩) | rfl
  · exact lt_of_le_of_lt h (by decide)
  · exact lt_of_le_of_lt h (by decide)
  · exact lt_of_le_of_lt h (by decide)
  · decide

theorem utf8EncodeChar_of_isNameChar {c : Char} (h : isNameChar c = true) :
    String.utf8EncodeChar c = [c.val.toUInt8] := by
  have hlt := toNat_lt_of_isNameChar h
  have hsize : c.utf8Size = 1 := by
    rw [Char.utf8Size]
    rw [if_pos]
    rw [UInt32.le_iff_toNat_le]
    exact Nat.le_of_lt_succ hlt
  exact String.utf8EncodeChar_eq_singleton hsize

theorem flatMap_utf8EncodeChar_lt {cs ds : List Char} (hc : ∀ c ∈ cs, isNameChar c = true)
    (hd : ∀ d ∈ ds, isNameChar d = true) (h : cs < ds) :
    cs.flatMap String.utf8EncodeChar < ds.flatMap String.utf8EncodeChar := by
  induction cs generalizing ds with
  | nil =>
    cases ds with
    | nil => simp at h
    | cons d ds =>
      rw [List.flatMap_cons, utf8EncodeChar_of_isNameChar (hd d (by simp))]
      simp
  | cons c cs ih =>
    cases ds with
    | nil => simp at h
    | cons d ds =>
      obtain ⟨hc0, hcs⟩ := List.forall_mem_cons.mp hc
      obtain ⟨hd0, hds⟩ := List.forall_mem_cons.mp hd
      rw [List.flatMap_cons, List.flatMap_cons, utf8EncodeChar_of_isNameChar hc0,
        utf8EncodeChar_of_isNameChar hd0, List.singleton_append, List.singleton_append,
        List.cons_lt_cons_iff]
      rcases List.cons_lt_cons_iff.mp h with hlt | ⟨rfl, hlt⟩
      · left
        have hcl := toNat_lt_of_isNameChar hc0
        have hdl := toNat_lt_of_isNameChar hd0
        have hn : c.val.toNat < d.val.toNat := UInt32.lt_iff_toNat_lt.mp (Char.lt_def.mp hlt)
        rw [UInt8.lt_iff_toNat_lt, UInt32.toNat_toUInt8, UInt32.toNat_toUInt8]
        omega
      · exact .inr ⟨rfl, ih hcs hds hlt⟩

theorem bytes_lt_of_lt {a b : String} (ha : isValidName a = true) (hb : isValidName b = true)
    (h : a < b) : bytes a < bytes b := by
  refine flatMap_utf8EncodeChar_lt ?_ ?_ (String.lt_iff_toList_lt.mp h)
  · exact List.all_eq_true.mp (Bool.and_eq_true_iff.mp ha).2
  · exact List.all_eq_true.mp (Bool.and_eq_true_iff.mp hb).2

theorem mem_occurrences {name text : String} :
    name ∈ occurrences text ↔ isValidName name = true ∧ (token name).toList <:+: text.toList := by
  rw [token, String.toList_ofList]
  constructor
  · intro h
    obtain ⟨cs, hcs, rfl⟩ := List.mem_map.mp h
    rw [isValidName, String.toList_ofList]
    exact Token.infix_of_mem_names hcs
  · rintro ⟨hname, h⟩
    exact List.mem_map.mpr ⟨name.toList, Token.mem_names_of_infix hname h, String.ofList_toList⟩

theorem isValidName_of_mem_occurrences {n text : String} (h : n ∈ occurrences text) :
    isValidName n = true :=
  (mem_occurrences.mp h).1

theorem isValidName_of_nameOf? {field name : String} (h : nameOf? field = some name) :
    isValidName name = true := by
  simp only [nameOf?] at h
  split at h
  · rename_i hname
    cases h
    rw [isValidName, String.toList_ofList]
    exact hname
  · simp at h

end EmailTemplates.Variable
