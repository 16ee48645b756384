import EmailTemplates.Proofs.Source.Inline
import EmailTemplates.Proofs.Text.Plain

namespace EmailTemplates

open Source Design
open Text (Plain plain_ofList plain_append)

namespace Attribute

theorem writable {name : String} {value : Markup} (hne : name.toList ≠ [])
    (hn : ∀ c ∈ name.toList, Source.Attribute.isNameChar c = true) (hq : '"' ∉ value.text)
    (ha : '>' ∉ value.text) : (⟨name, value⟩ : Attribute).Writable :=
  ⟨hne, hn, hq, ha⟩

theorem writable_fixed {name value : String} (hne : name.toList ≠ [])
    (hn : ∀ c ∈ name.toList, Source.Attribute.isNameChar c = true) (hv : Plain value) :
    (fixed name value).Writable := by
  refine writable hne hn ?_ ?_ <;>
  · rw [Markup.text_fixed]
    exact hv.not_mem (by decide)

theorem writable_style {s : Style} (h : s.Plain) : (style s).Writable :=
  writable_fixed (by decide) (by decide) h.text

theorem writable_presentation : ∀ a ∈ presentation, a.Writable := by
  simp only [presentation, List.forall_mem_cons]
  refine ⟨?_, ?_, ?_, ?_, by simp⟩ <;>
    exact writable_fixed (by decide) (by decide) (plain_ofList _ (by decide))

theorem writable_href {url : String} (h : Variable.isValidName url = true) :
    (⟨"href", .reference url⟩ : Attribute).Writable := by
  refine writable (by decide) (by decide) ?_ ?_ <;>
  · rw [Markup.reference, Markup.text_reference, Markup.text_nil, List.append_nil]
    exact Token.not_mem_chars_of_breaks h (by decide)

theorem writable_alt (alt : String) : (⟨"alt", .escaped alt⟩ : Attribute).Writable := by
  refine writable (by decide) (by decide) ?_ ?_
  · rw [Markup.text_escaped]
    exact Text.not_mem_escape (by decide) _
  · rw [Markup.text_escaped]
    exact Text.not_mem_escape (by decide) _

theorem isInside_encoded {attributes : List Attribute} (h : ∀ a ∈ attributes, a.Writable) :
    Tag.IsInside (Markup.encodedTagOf attributes) := by
  refine Source.Attribute.isInside_written fun p hp => ?_
  obtain ⟨a, ha, rfl⟩ := List.mem_map.mp hp
  exact (h a ha).encodedPair

theorem isWritable_pairs {attributes : List Attribute} (h : ∀ a ∈ attributes, a.Writable) :
    ∀ p ∈ attributes.map pair, Source.Attribute.IsWritable p := by
  intro p hp
  obtain ⟨a, ha, rfl⟩ := List.mem_map.mp hp
  exact h a ha

theorem isInside_tagOf {attributes : List Attribute} (h : ∀ a ∈ attributes, a.Writable) :
    Tag.IsInside (Markup.tagOf attributes) :=
  Source.Attribute.isInside_written (isWritable_pairs h)

end Attribute

namespace Source.Segment

open Markup (text element opening encodedTagOf)

structure IsTag (tag : String) : Prop where
  name : Tag.isTagName tag.toList = true
  lower : tag.toList.map Char.toLower = tag.toList

theorem IsTag.isAlphanum {tag : String} (h : IsTag tag) : ∀ c ∈ tag.toList, c.isAlphanum = true :=
  List.all_eq_true.mp (Bool.and_eq_true_iff.mp h.name).2

def isVoid (tag : String) : Bool :=
  Tag.isVoid ⟨false, tag.toList, false⟩

theorem next_encoded_element {tag : String} {attributes : List Attribute} {content : Markup}
    (ht : IsTag tag) (hv : isVoid tag = false) (ha : ∀ a ∈ attributes, a.Writable)
    (hs : SkipsTo tag.toList (Literal.encode content.text)) (n : Nat) (rest : List Char) :
    ∃ m, next ⟨n, Literal.encode (text (element tag attributes content)) ++ rest⟩ =
      (.element tag true, ⟨m, rest⟩) := by
  have hvoid : Tag.isVoid ⟨false, tag.toList.map Char.toLower, false⟩ = false := by
    rwa [ht.lower]
  have hskip : SkipsTo (tag.toList.map Char.toLower) (Literal.encode content.text) := by
    rwa [ht.lower]
  obtain ⟨m, hm⟩ := next_element ht.name (Attribute.isInside_encoded ha)
    (Source.Attribute.getLast?_written _) hvoid hskip n rest
  have henc := Markup.encode_element ht.isAlphanum ha content.text []
  rw [List.append_nil, Literal.encode_nil, List.append_nil] at henc
  refine ⟨m, ?_⟩
  rw [Markup.text_element, henc, List.append_assoc, List.append_assoc, hm, ht.lower,
    String.ofList_toList]

theorem next_encoded_opening {tag : String} {attributes : List Attribute} (ht : IsTag tag)
    (hv : isVoid tag = true) (ha : ∀ a ∈ attributes, a.Writable) (n : Nat) (rest : List Char) :
    ∃ m, next ⟨n, Literal.encode (text (opening tag attributes)) ++ rest⟩ =
      (.element tag true, ⟨m, rest⟩) := by
  have hvoid : Tag.isVoid ⟨false, tag.toList.map Char.toLower, false⟩ = true := by
    rwa [ht.lower]
  obtain ⟨m, hm⟩ := next_void ht.name (Attribute.isInside_encoded ha)
    (Source.Attribute.getLast?_written _) hvoid n rest
  have henc := Markup.encode_opening ht.isAlphanum ha []
  rw [List.append_nil, Literal.encode_nil, List.append_nil] at henc
  refine ⟨m, ?_⟩
  rw [Markup.text_opening, henc, hm, ht.lower, String.ofList_toList]

end Source.Segment

end EmailTemplates
