import EmailTemplates.Proofs.Source.Content

namespace EmailTemplates

def Field.value : Field → String
  | .text _ value => value
  | .variable _ value => value

namespace Source

open Text (Slice)
open Markup (text line element authored escaped tagOf)

variable {cs ds rest : List Char} {c : Char}

theorem quiet_attributes {ps : List (List Char × List Char)}
    (h : ∀ p ∈ ps, '\n' ∉ p.1 ∧ Quiet p.2) : Quiet (Attribute.written ps) := by
  induction ps with
  | nil => exact quiet_of_not_mem List.not_mem_nil
  | cons p ps ih =>
    obtain ⟨⟨hname, hvalue⟩, hps⟩ := List.forall_mem_cons.mp h
    have hchars : Attribute.written (p :: ps) =
        ' ' :: (p.1 ++ '=' :: '"' :: (p.2 ++ '"' :: Attribute.written ps)) := by
      simp [Attribute.written]
    rw [hchars]
    refine Quiet.cons (by decide) (Quiet.prepend hname (Quiet.cons (by decide) ?_))
    exact Quiet.cons (by decide) (hvalue.append_cons (by decide) (Quiet.cons (by decide) (ih hps)))

theorem quiet_written {t inside : List Char} (ht : '\n' ∉ t) (hi : Quiet inside) (closing : Bool)
    (hr : Quiet rest) : Quiet (Tag.written closing t inside ++ rest) := by
  have hslash : '\n' ∉ (if closing then ['/'] else []) := by cases closing <;> decide
  rw [Tag.written_append]
  refine Quiet.cons (by decide) (Quiet.prepend hslash (Quiet.prepend ht ?_))
  exact hi.append_cons (by decide) (Quiet.cons (by decide) hr)

theorem quiet_newline_iff :
    Quiet ('\n' :: cs) ↔ ¬ "export".toList <+: cs.dropWhile isIndent ∧ Quiet cs := by
  constructor
  · intro h
    exact ⟨h [] cs rfl, fun u v huv => h ('\n' :: u) v (congrArg _ huv)⟩
  · rintro ⟨hline, hcs⟩ u v huv
    cases u with
    | nil =>
      obtain ⟨-, rfl⟩ := List.cons.inj huv
      exact hline
    | cons x u => exact hcs u v (List.cons.inj huv).2

theorem quiet_newline_of_free (h : ¬ "export".toList <:+: cs) : Quiet ('\n' :: cs) :=
  quiet_of_free (free_cons isKeyword_export (by decide) h)

theorem quiet_newline_written {t inside : List Char} {closing : Bool}
    (h : Quiet (Tag.written closing t inside ++ rest)) :
    Quiet ('\n' :: (Tag.written closing t inside ++ rest)) := by
  rw [Tag.written_append] at h ⊢
  exact h.newline (Slice.head_cons (by decide) _)

namespace Literal

theorem head_encode_cons (c : Char) (cs : List Char) :
    ∀ d ∈ (encode (c :: cs)).head?, d = c ∨ isSpecial d = true := by
  cases h : Token.read? (c :: cs) with
  | none =>
    rw [encode_cons h, escapeAt]
    split
    · simp [isSpecial]
    · simp
  | some p =>
    obtain ⟨name, rest⟩ := p
    obtain ⟨hname, heq⟩ := Token.eq_of_read? h
    rw [heq, encode_chars hname, interpolation_eq]
    simp [isSpecial]

theorem plain_of_isIndent (h : isIndent c = true) : isSpecial c = false ∧ c ≠ '{' := by
  simp only [isIndent, Bool.or_eq_true, beq_iff_eq] at h
  rcases h with rfl | rfl <;> decide

theorem dropWhile_encode (cs : List Char) :
    (encode cs).dropWhile isIndent = encode (cs.dropWhile isIndent) := by
  induction cs with
  | nil => simp
  | cons c cs ih =>
    by_cases hc : isIndent c = true
    · obtain ⟨hspecial, hbrace⟩ := plain_of_isIndent hc
      rw [encode_cons_of_plain hspecial hbrace, List.dropWhile_cons_of_pos hc,
        List.dropWhile_cons_of_pos hc, ih]
    · have hhead : ∀ d ∈ (encode (c :: cs)).head?, isIndent d = false := by
        intro d hd
        rcases head_encode_cons c cs d hd with rfl | hspecial
        · simpa using hc
        · rw [← Bool.not_eq_true]
          intro hindent
          rw [(plain_of_isIndent hindent).1] at hspecial
          cases hspecial
      rw [List.dropWhile_cons_of_neg hc]
      exact @Slice.dropWhile_append [] _ _ (by simp) hhead

end Literal

theorem quiet_encode_of_not_mem (h : '\n' ∉ cs) : Quiet (Literal.encode cs) :=
  quiet_of_not_mem fun hm => h (Literal.mem_of_mem_encode (by decide) (by decide) (by decide) hm)

theorem Quiet.encode (h : Quiet cs) : Quiet (Literal.encode cs) := by
  induction hn : cs.length using Nat.strong_induction_on generalizing cs with
  | _ n ih =>
    by_cases hmem : '\n' ∈ cs
    · obtain ⟨as, bs, rfl, has⟩ := List.eq_append_cons_of_mem hmem
      have hline : ¬ "export".toList <+: bs.dropWhile isIndent := h as bs rfl
      have hbs : Quiet bs := fun u v huv => h (as ++ '\n' :: u) v (by simp [huv])
      have hlt : bs.length < n := by
        rw [← hn, List.length_append, List.length_cons]
        omega
      rw [Literal.encode_append (by decide) (by decide)]
      refine Quiet.prepend ?_ (quiet_newline_iff.mpr ⟨?_, ih _ hlt hbs rfl⟩)
      · exact fun hm => has (Literal.mem_of_mem_encode (by decide) (by decide) (by decide) hm)
      · rw [Literal.dropWhile_encode]
        exact fun hp => hline (prefix_of_encode isKeyword_export.letters hp)
    · exact quiet_encode_of_not_mem hmem

def Calm (cs : List Char) : Prop :=
  ∃ ds, '\n' :: cs = ds ++ ['\n'] ∧ Quiet ds

namespace Calm

theorem nil : Calm [] :=
  ⟨[], rfl, quiet_of_not_mem List.not_mem_nil⟩

theorem line (h : Quiet ('\n' :: cs)) : Calm (cs ++ ['\n']) :=
  ⟨'\n' :: cs, rfl, h⟩

theorem append (hcs : Calm cs) (hds : Calm ds) : Calm (cs ++ ds) := by
  obtain ⟨us, hus, hquiet⟩ := hcs
  obtain ⟨vs, hvs, hquiet'⟩ := hds
  refine ⟨us ++ vs, ?_, ?_⟩
  · rw [← List.cons_append, hus, List.append_assoc, List.singleton_append, hvs, List.append_assoc]
  · cases vs with
    | nil => rwa [List.append_nil]
    | cons v vs =>
      obtain ⟨rfl, -⟩ := List.cons.inj hvs
      exact hquiet.append_cons (by decide) hquiet'

theorem enclosed {t inside : List Char} (h : Calm cs) (ht : '\n' ∉ t) (hi : Quiet inside) :
    Calm (Tag.written false t inside ++ '\n' :: (cs ++ (Tag.written true t [] ++ ['\n']))) := by
  obtain ⟨us, hus, hquiet⟩ := h
  have hclosing := @quiet_written [] t [] ht (quiet_of_not_mem List.not_mem_nil) true
    (quiet_of_not_mem List.not_mem_nil)
  have hinner : Quiet (us ++ '\n' :: (Tag.written true t [] ++ [])) :=
    hquiet.append_cons (by decide) (quiet_newline_written hclosing)
  have hchars : Tag.written false t inside ++ '\n' :: (cs ++ (Tag.written true t [] ++ ['\n'])) =
      Tag.written false t inside ++ (us ++ '\n' :: (Tag.written true t [] ++ [])) ++ ['\n'] := by
    rw [← List.cons_append, hus]
    simp
  rw [hchars]
  exact line (quiet_newline_written (quiet_written ht hi false hinner))

theorem encode (h : Calm cs) : Calm (Literal.encode cs) := by
  obtain ⟨us, hus, hquiet⟩ := h
  refine ⟨Literal.encode us, ?_, hquiet.encode⟩
  rw [← Literal.encode_cons_of_plain (by decide) (by decide), hus,
    Literal.encode_append (by decide) (by decide), Literal.encode_nil]

theorem scalarsFrom (h : Calm cs) (n : Nat) (rest : List Char) :
    ∃ m, scalarsFrom ⟨n, cs ++ rest⟩ = scalarsFrom ⟨m, rest⟩ := by
  obtain ⟨us, hus, hquiet⟩ := h
  cases us with
  | nil =>
    obtain ⟨-, rfl⟩ := List.cons.inj hus
    exact ⟨n, rfl⟩
  | cons u us =>
    obtain ⟨rfl, hcs⟩ := List.cons.inj hus
    obtain rfl : cs = us ++ ['\n'] := hcs
    rw [List.append_assoc]
    exact scalarsFrom_quiet hquiet n rest

end Calm

def Undeclaring (m : Markup) : Prop :=
  ¬ "export".toList <:+: text m

theorem quiet_of_drawn {a : Attribute} (h : a.Drawn Undeclaring) :
    '\n' ∉ a.name.toList ∧ Quiet (text a.value) := by
  cases h with
  | fixed hn hv =>
    refine ⟨hn.not_mem (by decide), quiet_of_not_mem ?_⟩
    rw [Attribute.fixed, Markup.text_fixed]
    exact hv.not_mem (by decide)
  | reference hn hu =>
    refine ⟨hn.not_mem (by decide), quiet_of_not_mem ?_⟩
    rw [Markup.reference, Markup.text_reference, Markup.text_nil, List.append_nil]
    exact Token.not_mem_chars_of_breaks hu (by decide)
  | loose hn hl => exact ⟨hn.not_mem (by decide), quiet_of_free hl⟩

theorem quiet_tagOf {attributes : List Attribute} (h : ∀ a ∈ attributes, a.Drawn Undeclaring) :
    Quiet (tagOf attributes) :=
  quiet_attributes (List.forall_mem_map.mpr fun a hmem => quiet_of_drawn (h a hmem))

theorem quiet_element {tag : String} {attributes : List Attribute} {content : Markup}
    (ht : tag ∈ Markup.elementTags) (ha : ∀ a ∈ attributes, a.Drawn Undeclaring)
    (hc : ∀ rest, Quiet (Tag.written true tag.toList [] ++ rest) →
      Quiet (text content ++ (Tag.written true tag.toList [] ++ rest))) (hr : Quiet rest) :
    Quiet (text (element tag attributes content) ++ rest) := by
  have hbreak : '\n' ∉ tag.toList := (Markup.plain_of_mem_elementTags _ ht).not_mem (by decide)
  rw [Markup.text_element, List.append_assoc, List.append_assoc]
  refine quiet_written hbreak (quiet_tagOf ha) false (hc rest ?_)
  exact quiet_written hbreak (quiet_of_not_mem List.not_mem_nil) true hr

theorem quiet_loose {m : Markup} (h : Undeclaring m) {t : List Char}
    (hr : Quiet (Tag.written true t [] ++ rest)) :
    Quiet (text m ++ (Tag.written true t [] ++ rest)) := by
  rw [Tag.written_append] at hr ⊢
  exact (quiet_of_free h).append_cons (by decide) hr

theorem quiet_inline {m : Markup} (h : Markup.Inline Undeclaring m) (hr : Quiet rest) :
    Quiet (text m ++ rest) := by
  induction h generalizing rest with
  | append _ _ hm hn =>
    rw [Markup.text_append, List.append_assoc]
    exact hm (hn hr)
  | fixed hs =>
    rw [Markup.text_fixed]
    exact Quiet.prepend (hs.not_mem (by decide)) hr
  | reference hn =>
    rw [Markup.reference, Markup.text_reference, Markup.text_nil, List.append_nil]
    exact Quiet.prepend (Token.not_mem_chars_of_breaks hn (by decide)) hr
  | loose ht ha hl => exact quiet_element ht ha (fun _ => quiet_loose hl) hr

theorem calm_element {tag : String} {attributes : List Attribute} {content : Markup}
    (h : Quiet (text (element tag attributes content) ++ [])) :
    Calm (text (line (element tag attributes content))) := by
  rw [Markup.text_line]
  rw [Markup.text_element, List.append_assoc] at h
  have hline := quiet_newline_written h
  rw [← List.append_assoc, List.append_nil] at hline
  rw [Markup.text_element]
  exact .line hline

theorem calm_lined {m : Markup} (h : Markup.Lined Undeclaring m) : Calm (text m) := by
  have hnil : Quiet [] := quiet_of_not_mem List.not_mem_nil
  induction h with
  | nil => exact .nil
  | append _ _ hm hn =>
    rw [Markup.text_append]
    exact hm.append hn
  | looseLine hl =>
    rw [Markup.text_line]
    exact .line (quiet_newline_of_free hl)
  | void ht ha =>
    have htag : ∀ tag ∈ ["meta", "img", "hr"], '\n' ∉ tag.toList := by decide
    have hline := quiet_newline_written (quiet_written (htag _ ht) (quiet_tagOf ha) false hnil)
    rw [List.append_nil] at hline
    rw [Markup.text_line, Markup.text_opening]
    exact .line hline
  | loose ht ha hl => exact calm_element (quiet_element ht ha (fun _ => quiet_loose hl) hnil)
  | element ht ha hi => exact calm_element (quiet_element ht ha (fun _ => quiet_inline hi) hnil)
  | container ht ha _ ih =>
    rw [Shape.text_container]
    exact ih.enclosed ((Markup.plain_of_mem_elementTags _ ht).not_mem (by decide)) (quiet_tagOf ha)

theorem undeclaring_of_free {s : String} (h : ¬ "export".toList <:+: s.toList) :
    Undeclaring (authored s) ∧ Undeclaring (escaped s) := by
  refine ⟨?_, ?_⟩
  · rwa [Undeclaring, Shape.text_authored]
  · rw [Undeclaring, Markup.text_escaped]
    exact not_infix_escape isKeyword_export h

theorem mem_strings_of_mem_fields {content : Block.Content} {field : Field}
    (h : field ∈ content.fields) : field.value ∈ content.strings := by
  cases content <;>
    simp only [Block.Content.fields, Block.Content.strings, List.mem_append, List.mem_cons,
      List.mem_flatMap, List.mem_map, Option.mem_toList, Option.map_eq_some_iff] at h ⊢ <;>
    grind [Field.value]

theorem calm_of_draws {scheme : ColorScheme} {content : Block.Content} {m : Markup}
    (h : Block.Draws scheme content m)
    (hfree : ∀ s ∈ content.strings, ¬ "export".toList <:+: s.toList) : Calm (text m) := by
  refine calm_lined (Block.lined_of_draws h (fun s hs => ?_) fun name value hmem => ?_)
  · rw [Undeclaring, Shape.text_authored] at hs ⊢
    rw [String.toList_append] at hs
    exact free_of_isInfix hs (List.prefix_append _ _).isInfix
  · exact undeclaring_of_free (hfree value (mem_strings_of_mem_fields hmem))

theorem calm_markerLine (scheme : ColorScheme) (b : Block) :
    Calm (markerLine scheme b).toList := by
  unfold markerLine
  split
  · rename_i h
    rw [String.toList_append]
    exact .line (quiet_marker (m := markerOf scheme b) h)
  · exact .nil

theorem calm_contentText {scheme : ColorScheme} {bms : List (Block × Markup)}
    (h : ∀ p ∈ bms, Calm (text p.2)) : Calm (contentText scheme bms).toList := by
  induction bms with
  | nil => exact .nil
  | cons p bms ih =>
    obtain ⟨hp, hbms⟩ := List.forall_mem_cons.mp h
    obtain ⟨b, m⟩ := p
    rw [contentText, String.toList_append, String.toList_append, toList_literalText]
    exact ((calm_markerLine scheme b).append hp.encode).append (ih hbms)

end Source

end EmailTemplates
