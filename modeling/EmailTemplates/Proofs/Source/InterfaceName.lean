import EmailTemplates.Proofs.Source.Keyword
import EmailTemplates.Source.Words
import EmailTemplates.Template.Basic

namespace EmailTemplates.Source

open EmailTemplates.Text (isNameChar)

variable {cs : List Char}

theorem isSlugChar_of_isSlugFrom {b : Bool} (h : Template.isSlugFrom b cs = true) :
    ∀ c ∈ cs, Template.isSlugChar c = true ∨ c = '-' := by
  induction cs generalizing b with
  | nil => simp
  | cons c cs ih =>
    unfold Template.isSlugFrom at h
    split at h
    · rename_i hc
      exact List.forall_mem_cons.mpr ⟨.inl hc, ih h⟩
    · simp only [Bool.and_eq_true, beq_iff_eq] at h
      exact List.forall_mem_cons.mpr ⟨.inr h.1.1, ih h.2⟩

def isInitial (c : Char) : Bool :=
  c.isUpper || c.isDigit

theorem isInitial_toUpper {c : Char} (h : Template.isSlugChar c = true) :
    isInitial c.toUpper = true := by
  have hall : ∀ n < 128, Template.isSlugChar (Char.ofNat n) = true →
      isInitial (Char.ofNat n).toUpper = true := by
    decide
  have hlt : c.toNat < 128 := by
    simp only [Template.isSlugChar, Char.isLower, Char.isDigit, Bool.or_eq_true, Bool.and_eq_true,
      decide_eq_true_eq, ge_iff_le, UInt32.le_iff_toNat_le] at h
    simp at h
    omega
  have hc := hall c.toNat hlt
  rw [Char.ofNat_toNat] at hc
  exact hc h

theorem isNameChar_of_isInitial {c : Char} (h : isInitial c = true) : isNameChar c = true := by
  simp only [isInitial, Bool.or_eq_true] at h
  rcases h with h | h <;> simp [isNameChar, Char.isAlphanum, Char.isAlpha, h]

theorem isNameChar_of_isSlugChar {c : Char} (h : Template.isSlugChar c = true) :
    isNameChar c = true := by
  simp only [Template.isSlugChar, Bool.or_eq_true] at h
  rcases h with h | h <;> simp [isNameChar, Char.isAlphanum, Char.isAlpha, h]

theorem infix_of_mem_words (cs : List Char) : ∃ w ws, words cs = w :: ws ∧ w <+: cs ∧
    ∀ x ∈ w :: ws, x <:+: cs ∧ '-' ∉ x := by
  induction cs with
  | nil => exact ⟨[], [], rfl, List.nil_prefix, by simp⟩
  | cons c cs ih =>
    obtain ⟨w, ws, hw, hprefix, hall⟩ := ih
    obtain ⟨hfirst, hrest⟩ := List.forall_mem_cons.mp hall
    have htail : ∀ x ∈ w :: ws, x <:+: c :: cs ∧ '-' ∉ x := fun x hx =>
      ⟨(hall x hx).1.trans (List.suffix_cons c cs).isInfix, (hall x hx).2⟩
    by_cases hc : c = '-'
    · refine ⟨[], w :: ws, by rw [words, if_pos hc, hw], List.nil_prefix, ?_⟩
      exact List.forall_mem_cons.mpr ⟨⟨List.nil_infix, by simp⟩, htail⟩
    · have hcons : c :: w <+: c :: cs := List.cons_prefix_cons.mpr ⟨rfl, hprefix⟩
      refine ⟨c :: w, ws, by rw [words, if_neg hc, hw], hcons, ?_⟩
      refine List.forall_mem_cons.mpr ⟨⟨hcons.isInfix, ?_⟩, (List.forall_mem_cons.mp htail).2⟩
      simp [hfirst.2, Ne.symm hc]

def slugWords (slug : String) : List (List Char) :=
  (words slug.toList).filter (!·.isEmpty)

def joined (slug : String) : List Char :=
  (slugWords slug).flatMap capitalize

theorem toList_join_capitalizedWords (slug : String) :
    (String.join (capitalizedWords slug)).toList = joined slug := by
  rw [String.toList_join, capitalizedWords, List.flatMap_map]
  simp [joined, slugWords]

theorem toList_interfaceName (slug : String) : (interfaceName slug).toList =
    (if (joined slug).head?.any Char.isDigit then "Template".toList else []) ++
      (joined slug ++ "Variables".toList) := by
  have hif (b : Bool) : (if b then "Template" else "" : String).toList =
      if b then "Template".toList else [] := by
    cases b <;> rfl
  unfold interfaceName
  simp only [String.toList_append, toList_join_capitalizedWords, hif, List.append_assoc]

theorem mem_slugWords {slug : String} {w : List Char} (h : w ∈ slugWords slug) :
    ∃ c cs, w = c :: cs ∧ w <:+: slug.toList ∧ '-' ∉ w := by
  obtain ⟨hmem, hne⟩ := List.mem_filter.mp h
  obtain ⟨x, xs, hx, -, hall⟩ := infix_of_mem_words slug.toList
  obtain ⟨hcs, hdash⟩ := hall w (hx ▸ hmem)
  cases w with
  | nil => cases hne
  | cons c cs => exact ⟨c, cs, rfl, hcs, hdash⟩

theorem isSlugChar_of_mem_slugWords {slug : String} (hs : Template.isValidSlug slug = true)
    {w : List Char} (h : w ∈ slugWords slug) : ∀ c ∈ w, Template.isSlugChar c = true := by
  obtain ⟨-, -, -, hcs, hdash⟩ := mem_slugWords h
  intro c hc
  rcases isSlugChar_of_isSlugFrom hs c (hcs.subset hc) with hchar | rfl
  · exact hchar
  · exact absurd hc hdash

theorem isNameChar_joined {slug : String} (hs : Template.isValidSlug slug = true) :
    ∀ c ∈ joined slug, isNameChar c = true := by
  intro c hc
  obtain ⟨w, hw, hmem⟩ := List.mem_flatMap.mp hc
  have hchars := isSlugChar_of_mem_slugWords hs hw
  obtain ⟨d, ds, rfl, -, -⟩ := mem_slugWords hw
  rcases List.mem_cons.mp hmem with rfl | hmem
  · exact isNameChar_of_isInitial (isInitial_toUpper (hchars d List.mem_cons_self))
  · exact isNameChar_of_isSlugChar (hchars c (List.mem_cons_of_mem _ hmem))

theorem isNameChar_interfaceName {slug : String} (hs : Template.isValidSlug slug = true) :
    ∀ c ∈ (interfaceName slug).toList, isNameChar c = true := by
  have hprefix : ∀ c ∈ "Template".toList, isNameChar c = true := by decide
  have hsuffix : ∀ c ∈ "Variables".toList, isNameChar c = true := by decide
  rw [toList_interfaceName]
  intro c hc
  rcases List.mem_append.mp hc with hc | hc
  · split at hc
    · exact hprefix c hc
    · cases hc
  · rcases List.mem_append.mp hc with hc | hc
    · exact isNameChar_joined hs c hc
    · exact hsuffix c hc

theorem isUpper_head_interfaceName {slug : String} (hs : Template.isValidSlug slug = true) :
    ∃ c ∈ (interfaceName slug).toList.head?, c.isUpper = true := by
  rw [toList_interfaceName]
  split
  · exact ⟨'T', rfl, by decide⟩
  · rename_i hdigit
    rw [List.nil_append]
    cases hw : slugWords slug with
    | nil => exact ⟨'V', by rw [joined, hw]; rfl, by decide⟩
    | cons w ws =>
      have hmem : w ∈ slugWords slug := hw ▸ List.mem_cons_self
      have hchars := isSlugChar_of_mem_slugWords hs hmem
      obtain ⟨c, cs, rfl, -, -⟩ := mem_slugWords hmem
      have hjoined : joined slug = c.toUpper :: (cs ++ ws.flatMap capitalize) := by
        rw [joined, hw]
        rfl
      rw [hjoined] at hdigit ⊢
      refine ⟨c.toUpper, rfl, ?_⟩
      have hinitial := isInitial_toUpper (hchars c List.mem_cons_self)
      simpa [isInitial, show c.toUpper.isDigit = false by simpa using hdigit] using hinitial

end EmailTemplates.Source
