import EmailTemplates.Proofs.Source.Element

namespace EmailTemplates.Source

open EmailTemplates.Text (Slice)

def inlineTags : List String :=
  ["<strong>", "</strong>", "<em>", "</em>", "<br>"]

def OnlyInlineTags (cs : List Char) : Prop :=
  ∀ u v, cs = u ++ '<' :: v → ∃ tag ∈ inlineTags, tag.toList <+: '<' :: v

structure InlineSafe (text : String) : Prop where
  nonempty : text ≠ ""
  trimmed : Text.trimmed text = text
  onlyInline : OnlyInlineTags text.toList

theorem InlineSafe.toTrimmed {text : String} (h : InlineSafe text) : Trimmed text :=
  ⟨h.nonempty, h.trimmed⟩

def inlineNames : List (List Char) :=
  [['s', 't', 'r', 'o', 'n', 'g'], ['e', 'm'], ['b', 'r']]

inductive Inline : List Char → Prop
  | nil : Inline []
  | token {name rest : List Char} : Token.isName name = true → Inline rest →
      Inline (Token.chars name ++ rest)
  | tag {t rest : List Char} {closing : Bool} : t ∈ inlineNames → Inline rest →
      Inline (Tag.written closing t [] ++ rest)
  | char {c : Char} {cs : List Char} : c ≠ '<' → Token.read? (c :: cs) = none → Inline cs →
      Inline (c :: cs)

theorem written_of_mem_inlineTags {tag : String} (h : tag ∈ inlineTags) :
    ∃ closing, ∃ t ∈ inlineNames, tag.toList = Tag.written closing t [] := by
  simp only [inlineTags, List.mem_cons, List.not_mem_nil, or_false] at h
  rcases h with rfl | rfl | rfl | rfl | rfl
  · exact ⟨false, ['s', 't', 'r', 'o', 'n', 'g'], by decide, rfl⟩
  · exact ⟨true, ['s', 't', 'r', 'o', 'n', 'g'], by decide, rfl⟩
  · exact ⟨false, ['e', 'm'], by decide, rfl⟩
  · exact ⟨true, ['e', 'm'], by decide, rfl⟩
  · exact ⟨false, ['b', 'r'], by decide, rfl⟩

theorem OnlyInlineTags.of_append {cs ds : List Char} (h : OnlyInlineTags (cs ++ ds)) :
    OnlyInlineTags ds :=
  fun u v huv => h (cs ++ u) v (by rw [huv, List.append_assoc])

theorem OnlyInlineTags.inline {cs : List Char} (h : OnlyInlineTags cs) : Inline cs := by
  induction hn : cs.length using Nat.strong_induction_on generalizing cs with
  | _ n ih =>
    cases hr : Token.read? cs with
    | some p =>
      obtain ⟨name, rest⟩ := p
      have hlt := Token.length_of_read? hr
      obtain ⟨hname, rfl⟩ := Token.eq_of_read? hr
      exact .token hname (ih rest.length (hn ▸ hlt) h.of_append rfl)
    | none =>
      cases cs with
      | nil => exact .nil
      | cons c cs =>
        by_cases hc : c = '<'
        · subst hc
          obtain ⟨tag, htag, rest, hrest⟩ := h [] cs rfl
          obtain ⟨closing, t, ht, hwritten⟩ := written_of_mem_inlineTags htag
          rw [hwritten] at hrest
          rw [← hrest] at h hn ⊢
          refine .tag ht (ih rest.length ?_ h.of_append rfl)
          rw [← hn, List.length_append]
          exact Nat.lt_add_of_pos_left (Nat.succ_pos _)
        · have htail : OnlyInlineTags cs := @OnlyInlineTags.of_append [c] cs h
          exact .char hc hr (ih cs.length (by simp [← hn]) htail rfl)

theorem isTagName_of_mem_inlineNames {t : List Char} (h : t ∈ inlineNames) :
    Tag.isTagName t = true ∧ t.map Char.toLower = t := by
  revert t
  decide

theorem not_mem_interpolation {name : List Char} (h : Token.isName name = true) :
    '<' ∉ Literal.interpolation name := by
  intro hm
  have hmem : '<' ∈ Literal.encode (Token.chars name ++ []) := by
    rw [Literal.encode_chars h]
    exact List.mem_append_left _ hm
  have hchars := Literal.mem_of_mem_encode (by decide) (by decide) (by decide) hmem
  rw [List.append_nil] at hchars
  exact Token.not_mem_chars_of_breaks h (by decide) hchars

theorem encode_inlineTag {t : List Char} (ht : t ∈ inlineNames) (closing : Bool)
    (rest : List Char) :
    Literal.encode (Tag.written closing t [] ++ rest) =
      Tag.written closing t [] ++ Literal.encode rest := by
  have hall := List.all_eq_true.mp
    (Bool.and_eq_true_iff.mp (isTagName_of_mem_inlineNames ht).1).2
  cases closing with
  | true => exact Markup.encode_closing hall rest
  | false => exact @Markup.encode_opening t [] hall (by simp) rest

theorem Inline.skips {cs name : List Char} (h : Inline cs) (hname : name ∉ inlineNames) :
    Segment.Skips name (Literal.encode cs) := by
  induction h with
  | nil =>
    rw [Literal.encode_nil]
    exact Segment.skips_nil
  | token hn _ ih =>
    rw [Literal.encode_chars hn]
    exact (Segment.skips_of_not_mem (not_mem_interpolation hn)).append ih
  | tag ht _ ih =>
    obtain ⟨htag, hlower⟩ := isTagName_of_mem_inlineNames ht
    rw [encode_inlineTag ht]
    refine (Segment.skips_written htag Tag.isInside_nil _ ?_).append ih
    rw [hlower]
    rintro rfl
    exact hname ht
  | @char c cs hc hr _ ih =>
    rw [Literal.encode_cons hr]
    refine (Segment.skips_of_not_mem ?_).append ih
    rw [Literal.escapeAt]
    split <;> simp [Ne.symm hc]

theorem OnlyInlineTags.not_prefix {cs w : List Char} (h : OnlyInlineTags cs)
    (hw : w.head? = some '<') (hne : ∀ tag ∈ inlineTags, ¬ tag.toList <+: w ∧ ¬ w <+: tag.toList)
    {u v : List Char} (huv : cs = u ++ v) (hv : v ≠ []) (rest : List Char) : ¬ w <+: v ++ rest := by
  intro hp
  cases v with
  | nil => exact hv rfl
  | cons c v =>
    obtain ⟨w', rfl⟩ := List.head?_eq_some_iff.mp hw
    have hc : c = '<' := by
      obtain ⟨tail, htail⟩ := hp
      exact (List.cons.inj htail).1.symm
    subst hc
    obtain ⟨tag, htag, hpre⟩ := h u v huv
    obtain ⟨h1, h2⟩ := hne tag htag
    rcases List.prefix_or_prefix_of_prefix (hpre.trans (List.prefix_append _ rest)) hp with h | h
    · exact h1 h
    · exact h2 h

theorem InlineSafe.whole {tag text : String} (h : InlineSafe text)
    (hne : ∀ inline ∈ inlineTags, ¬ inline.toList <+: Tag.written true tag.toList [] ∧
      ¬ Tag.written true tag.toList [] <+: inline.toList) : Whole tag text where
  toTrimmed := h.toTrimmed
  unclosed := by
    rintro ⟨u, v, huv⟩
    refine h.onlyInline.not_prefix rfl hne (u := u) (v := Tag.written true tag.toList [] ++ v)
      ?_ (by simp [Tag.written]) [] ?_
    · rw [← huv, List.append_assoc]
    · exact (List.prefix_append _ v).trans (List.prefix_append _ [])

end EmailTemplates.Source
