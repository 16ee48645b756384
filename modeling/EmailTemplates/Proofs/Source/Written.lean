import EmailTemplates.Markup.Fragment
import EmailTemplates.Proofs.Markup.Settled
import EmailTemplates.Proofs.Source.Attribute
import EmailTemplates.Proofs.Source.Literal

namespace EmailTemplates

open Source

def Attribute.pair (a : Attribute) : List Char × List Char :=
  (a.name.toList, a.value.text)

def Attribute.encodedPair (a : Attribute) : List Char × List Char :=
  (a.name.toList, Literal.encode a.value.text)

namespace Markup

def tagOf (attributes : List Attribute) : List Char :=
  Source.Attribute.written (attributes.map Attribute.pair)

def encodedTagOf (attributes : List Attribute) : List Char :=
  Source.Attribute.written (attributes.map Attribute.encodedPair)

theorem text_flatMap_markup (attributes : List Attribute) :
    text (attributes.flatMap Attribute.markup) = tagOf attributes := by
  induction attributes with
  | nil => rfl
  | cons a attributes ih =>
    rw [List.flatMap_cons, text_append, ih]
    have hopen : (" " : String).toList = [' '] := rfl
    have hquote : ("=\"" : String).toList = ['=', '"'] := rfl
    have hclose : ("\"" : String).toList = ['"'] := rfl
    simp [Attribute.markup, tagOf, Source.Attribute.written, Attribute.pair, hopen, hquote, hclose]

theorem text_opening (tag : String) (attributes : List Attribute) :
    text (opening tag attributes) = Tag.written false tag.toList (tagOf attributes) := by
  have hopen : ("<" : String).toList = ['<'] := rfl
  have hclose : (">" : String).toList = ['>'] := rfl
  simp [opening, text_flatMap_markup, Tag.written, hopen, hclose]

theorem text_closing (tag : String) : text (closing tag) = Tag.written true tag.toList [] := by
  have hopen : ("</" : String).toList = ['<', '/'] := rfl
  have hclose : (">" : String).toList = ['>'] := rfl
  simp [closing, Tag.written, hopen, hclose]

theorem text_element (tag : String) (attributes : List Attribute) (content : Markup) :
    text (element tag attributes content) =
      Tag.written false tag.toList (tagOf attributes) ++
        (text content ++ Tag.written true tag.toList []) := by
  simp [element, text_opening, text_closing]

theorem text_line (m : Markup) : text (line m) = text m ++ ['\n'] := by
  have hbreak : ("\n" : String).toList = ['\n'] := rfl
  simp [line, hbreak]

end Markup

namespace Attribute

def Writable (a : Attribute) : Prop :=
  Source.Attribute.IsWritable a.pair

theorem Writable.encodedPair {a : Attribute} (h : a.Writable) :
    Source.Attribute.IsWritable a.encodedPair where
  nonempty := h.nonempty
  name := h.name
  noQuote hm := h.noQuote (Literal.mem_of_mem_encode (by decide) (by decide) (by decide) hm)
  noAngle hm := h.noAngle (Literal.mem_of_mem_encode (by decide) (by decide) (by decide) hm)

theorem plain_of_isNameChar {c : Char} (h : Source.Attribute.isNameChar c = true) :
    Literal.isSpecial c = false ∧ c ≠ '{' := by
  simp only [Source.Attribute.isNameChar, Bool.or_eq_true, beq_iff_eq] at h
  rcases h with h | rfl
  · have hc : Text.isNameChar c = true := by simp [Text.isNameChar, Char.isAlphanum, h]
    refine ⟨Literal.not_special_of_isNameChar hc, ?_⟩
    rintro rfl
    revert h
    decide
  · decide

theorem plain_of_isAlphanum {c : Char} (h : c.isAlphanum = true) :
    Literal.isSpecial c = false ∧ c ≠ '{' := by
  refine ⟨Literal.not_special_of_isNameChar (by simp [Text.isNameChar, h]), ?_⟩
  rintro rfl
  revert h
  decide

theorem encode_written {attributes : List Attribute} (h : ∀ a ∈ attributes, a.Writable)
    (rest : List Char) :
    Literal.encode (Markup.tagOf attributes ++ rest) =
      Markup.encodedTagOf attributes ++ Literal.encode rest := by
  induction attributes with
  | nil => rfl
  | cons a attributes ih =>
    obtain ⟨ha, has⟩ := List.forall_mem_cons.mp h
    have hplain : ∀ c ∈ ' ' :: (a.name.toList ++ ['=', '"']),
        Literal.isSpecial c = false ∧ c ≠ '{' := by
      intro c hc
      simp only [List.mem_cons, List.mem_append, List.not_mem_nil, or_false] at hc
      rcases hc with rfl | hc | rfl | rfl
      · decide
      · exact plain_of_isNameChar (ha.name c hc)
      · decide
      · decide
    have hchars : Markup.tagOf (a :: attributes) ++ rest = ' ' :: (a.name.toList ++ ['=', '"']) ++
        (a.value.text ++ '"' :: (Markup.tagOf attributes ++ rest)) := by
      simp [Markup.tagOf, Source.Attribute.written, pair]
    have hencoded : Markup.encodedTagOf (a :: attributes) = ' ' :: (a.name.toList ++ ['=', '"']) ++
        (Literal.encode a.value.text ++ '"' :: Markup.encodedTagOf attributes) := by
      simp [Markup.encodedTagOf, Source.Attribute.written, Attribute.encodedPair]
    rw [hchars, Literal.encode_append_of_plain hplain,
      Literal.encode_append (by decide) (by decide), ih has, hencoded]
    simp

end Attribute

namespace Markup

theorem encode_opening {t : List Char} {attributes : List Attribute}
    (ht : ∀ c ∈ t, c.isAlphanum = true) (ha : ∀ a ∈ attributes, a.Writable) (rest : List Char) :
    Literal.encode (Tag.written false t (tagOf attributes) ++ rest) =
      Tag.written false t (encodedTagOf attributes) ++ Literal.encode rest := by
  have hplain : ∀ c ∈ '<' :: t, Literal.isSpecial c = false ∧ c ≠ '{' := by
    refine List.forall_mem_cons.mpr ⟨by decide, ?_⟩
    exact fun c hc => Attribute.plain_of_isAlphanum (ht c hc)
  have hclose : Literal.encode ('>' :: rest) = '>' :: Literal.encode rest :=
    Literal.encode_cons_of_plain (by decide) (by decide) rest
  have hchars (inside more : List Char) :
      Tag.written false t inside ++ more = '<' :: t ++ (inside ++ '>' :: more) := by
    simp [Tag.written]
  rw [hchars, Literal.encode_append_of_plain hplain, Attribute.encode_written ha, hclose, hchars]

theorem encode_closing {t : List Char} (ht : ∀ c ∈ t, c.isAlphanum = true) (rest : List Char) :
    Literal.encode (Tag.written true t [] ++ rest) =
      Tag.written true t [] ++ Literal.encode rest := by
  refine Literal.encode_append_of_plain ?_ rest
  intro c hc
  simp only [Tag.written, if_true, List.nil_append, List.mem_cons, List.mem_append,
    List.not_mem_nil, or_false] at hc
  rcases hc with rfl | rfl | hc | rfl
  · decide
  · decide
  · exact Attribute.plain_of_isAlphanum (ht c hc)
  · decide

theorem encode_element {t : List Char} {attributes : List Attribute}
    (ht : ∀ c ∈ t, c.isAlphanum = true) (ha : ∀ a ∈ attributes, a.Writable)
    (content rest : List Char) :
    Literal.encode (Tag.written false t (tagOf attributes) ++
        (content ++ (Tag.written true t [] ++ rest))) =
      Tag.written false t (encodedTagOf attributes) ++ (Literal.encode content ++
        (Tag.written true t [] ++ Literal.encode rest)) := by
  have hlt (cs : List Char) : Literal.encode ('<' :: cs) = '<' :: Literal.encode cs :=
    Literal.encode_cons_of_plain (by decide) (by decide) cs
  have hchars := Tag.written_append true t [] rest
  rw [encode_opening ht ha, hchars, Literal.encode_append (by decide) (by decide), ← hlt, ← hchars,
    encode_closing ht]

end Markup

end EmailTemplates
