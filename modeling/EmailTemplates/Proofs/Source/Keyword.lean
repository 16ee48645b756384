import EmailTemplates.Proofs.Source.Literal
import EmailTemplates.Proofs.Source.Quoted
import EmailTemplates.Proofs.Text.Entity

namespace EmailTemplates.Source

variable {w cs ds : List Char} {c : Char}

structure IsKeyword (w : List Char) : Prop where
  long : 5 ≤ w.length
  letters : ∀ c ∈ w, c.isAlpha = true
  head : w.head? ≠ some 'n' ∧ w.head? ≠ some 't'

theorem isKeyword_export : IsKeyword "export".toList :=
  ⟨by decide, by decide, by decide, by decide⟩

namespace IsKeyword

theorem not_mem (h : IsKeyword w) (hc : c.isAlpha = false) : c ∉ w := by
  intro hm
  rw [h.letters c hm] at hc
  cases hc

theorem ne_nil (h : IsKeyword w) : w ≠ [] := by
  rintro rfl
  exact absurd h.long (by decide)

theorem free_of_short (h : IsKeyword w) (hl : cs.length < 5) : ¬ w <:+: cs := by
  intro hw
  have := hw.length_le
  have := h.long
  omega

end IsKeyword

theorem prefix_of_append_cons (hc : c ∉ w) (h : w <+: cs ++ c :: ds) : w <+: cs := by
  rcases List.prefix_or_prefix_of_prefix h (List.prefix_append cs (c :: ds)) with h' | ⟨t, rfl⟩
  · exact h'
  · rw [List.prefix_append_right_inj] at h
    cases t with
    | nil => rw [List.append_nil]
    | cons d t =>
      have hd : d = c := (List.prefix_cons_iff.mp h).elim (fun h => by cases h) fun ⟨_, ht, _⟩ =>
        (List.cons.inj ht).1
      exact absurd (List.mem_append_right cs (by rw [hd]; exact List.mem_cons_self)) hc

theorem infix_append_cons (hc : c ∉ w) (h : w <:+: cs ++ c :: ds) : w <:+: cs ∨ w <:+: ds := by
  induction cs with
  | nil =>
    rcases List.infix_cons_iff.mp h with h | h
    · exact .inl (@prefix_of_append_cons _ [] _ _ hc h).isInfix
    · exact .inr h
  | cons x cs ih =>
    rcases List.infix_cons_iff.mp h with h | h
    · exact .inl (@prefix_of_append_cons _ (x :: cs) _ _ hc h).isInfix
    · rcases ih h with h | h
      · exact .inl (List.infix_cons_iff.mpr (.inr h))
      · exact .inr h

theorem free_append_cons (hw : IsKeyword w) (hc : c.isAlpha = false) (hcs : ¬ w <:+: cs)
    (hds : ¬ w <:+: ds) : ¬ w <:+: cs ++ c :: ds := by
  intro h
  rcases infix_append_cons (hw.not_mem hc) h with h | h
  · exact hcs h
  · exact hds h

theorem free_cons (hw : IsKeyword w) (hc : c.isAlpha = false) (hcs : ¬ w <:+: cs) :
    ¬ w <:+: c :: cs :=
  @free_append_cons _ [] _ _ hw hc (hw.free_of_short (by decide)) hcs

theorem free_of_isInfix (h : ¬ w <:+: cs) (hds : ds <:+: cs) : ¬ w <:+: ds :=
  fun hw => h (hw.trans hds)

theorem not_infix_flatMap {mark : Char} {g : Char → List Char} (hg : Text.Marks mark g)
    (hmark : mark ∉ w) (hne : w ≠ [])
    (hstep : ∀ c ds, g c ≠ [c] → ¬ w <:+: ds → ¬ w <:+: g c ++ ds) (h : ¬ w <:+: cs) :
    ¬ w <:+: cs.flatMap g := by
  induction cs with
  | nil => simpa using hne
  | cons c cs ih =>
    have hcs : ¬ w <:+: cs.flatMap g := ih (free_of_isInfix h (List.suffix_cons c cs).isInfix)
    by_cases hc : g c = [c]
    · intro hin
      rw [List.flatMap_cons, hc, List.singleton_append] at hin
      rcases List.infix_cons_iff.mp hin with ⟨t, ht⟩ | hin
      · have hflat : (c :: cs).flatMap g = w ++ t := by
          rw [List.flatMap_cons, hc, List.singleton_append, ht]
        obtain ⟨cs', hcs', -⟩ := hg.append_of_flatMap hmark hflat
        exact h ⟨[], cs', hcs'.symm⟩
      · exact hcs hin
    · exact hstep c _ hc hcs

theorem not_infix_escape (hw : IsKeyword w) (h : ¬ w <:+: cs) : ¬ w <:+: Text.escape cs := by
  refine not_infix_flatMap Text.marks_escapeChar (hw.not_mem (by decide)) hw.ne_nil ?_ h
  intro c ds hc hds
  have hmark (body : List Char) (hb : body.length < 5) : ¬ w <:+: '&' :: (body ++ ';' :: ds) :=
    free_cons hw (by decide) (free_append_cons hw (by decide) (hw.free_of_short hb) hds)
  revert hc
  unfold Text.escapeChar
  split
  · exact fun _ => hmark ['a', 'm', 'p'] (by decide)
  · exact fun _ => hmark ['l', 't'] (by decide)
  · exact fun _ => hmark ['g', 't'] (by decide)
  · exact fun _ => hmark ['q', 'u', 'o', 't'] (by decide)
  · exact fun _ => hmark ['#', '3', '9'] (by decide)
  · exact fun hc => absurd rfl hc

theorem prefix_of_encode (hletters : ∀ c ∈ w, c.isAlpha = true)
    (h : w <+: Literal.encode cs) : w <+: cs := by
  induction w generalizing cs with
  | nil => exact List.nil_prefix
  | cons x w ih =>
    obtain ⟨hx, hw⟩ := List.forall_mem_cons.mp hletters
    obtain ⟨t, ht⟩ := h
    cases cs using Token.text_induction with
    | nil => simp at ht
    | token name cs hname =>
      rw [Literal.encode_chars hname, Literal.interpolation_eq] at ht
      rw [(List.cons.inj ht).1] at hx
      exact absurd hx (by decide)
    | char c cs hc =>
      rw [Literal.encode_cons hc, Literal.escapeAt] at ht
      split at ht
      · rw [(List.cons.inj ht).1] at hx
        exact absurd hx (by decide)
      · obtain ⟨rfl, htail⟩ := List.cons.inj ht
        exact List.cons_prefix_cons.mpr ⟨rfl, ih hw ⟨t, htail⟩⟩

end EmailTemplates.Source
