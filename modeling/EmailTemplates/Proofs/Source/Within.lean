import EmailTemplates.Proofs.Markup.Drawn
import EmailTemplates.Proofs.Source.Contained

namespace EmailTemplates.Source

open Segment (IsTag Skips SkipsTo)
open Markup (text line element container fixed tagOf encodedTagOf)

structure IsOpening (tag : String) (attributes : List Attribute) : Prop where
  tag : IsTag tag
  writable : ∀ a ∈ attributes, a.Writable

inductive LaidOut (Opening : String → List Attribute → Prop) (Inner : List Char → Prop) :
    Markup → Prop
  | nil : LaidOut Opening Inner []
  | append {m n : Markup} : LaidOut Opening Inner m → LaidOut Opening Inner n →
      LaidOut Opening Inner (m ++ n)
  | line {tag : String} {attributes : List Attribute} {content : Markup} :
      Opening tag attributes → Inner (text content) →
      LaidOut Opening Inner (line (element tag attributes content))
  | container {tag : String} {attributes : List Attribute} {lines : Markup} :
      Opening tag attributes → LaidOut Opening Inner lines →
      LaidOut Opening Inner (container tag attributes lines)

theorem encode_line (m : Markup) :
    Literal.encode (text (line m)) = Literal.encode (text m) ++ ['\n'] := by
  rw [Markup.text_line, Literal.encode_append (by decide) (by decide), Literal.encode_nil]

def InLines (m : Markup) : Prop :=
  text m = [] ∨ ∃ cs, text m = cs ++ ['\n']

theorem inLines_nil : InLines [] :=
  .inl rfl

theorem inLines_line (m : Markup) : InLines (line m) :=
  .inr ⟨_, Markup.text_line m⟩

theorem inLines_container (tag : String) (attributes : List Attribute) (lines : Markup) :
    InLines (container tag attributes lines) := by
  rw [Markup.container_eq]
  exact inLines_line _

theorem InLines.append {m n : Markup} (hm : InLines m) (hn : InLines n) : InLines (m ++ n) := by
  rcases hn with hn | ⟨cs, hn⟩
  · rwa [InLines, Markup.text_append, hn, List.append_nil]
  · exact .inr ⟨text m ++ cs, by rw [Markup.text_append, hn, List.append_assoc]⟩

theorem InLines.encode_append {m : Markup} (h : InLines m) (rest : List Char) :
    Literal.encode (text m ++ rest) = Literal.encode (text m) ++ Literal.encode rest := by
  rcases h with h | ⟨cs, h⟩
  · rw [h, Literal.encode_nil, List.nil_append, List.nil_append]
  · rw [h, List.append_assoc, List.singleton_append, Literal.encode_append (by decide) (by decide),
      Literal.encode_append (by decide) (by decide), Literal.encode_nil, List.append_assoc,
      List.singleton_append]

theorem inLines_of_lined {Loose : Markup → Prop} {m : Markup} (h : Markup.Lined Loose m) :
    InLines m := by
  induction h with
  | nil => exact inLines_nil
  | append _ _ hm hn => exact hm.append hn
  | container => exact inLines_container _ _ _
  | looseLine => exact inLines_line _
  | void => exact inLines_line _
  | loose => exact inLines_line _
  | element => exact inLines_line _

theorem inLines_of_draws {scheme : ColorScheme} {content : Block.Content} {m : Markup}
    (h : Block.Draws scheme content m) : InLines m :=
  inLines_of_lined (@Block.lined_of_draws (fun _ => True) _ _ _ h (fun _ _ => trivial)
    fun _ _ _ => ⟨trivial, trivial⟩)

variable {name cs : List Char} {tag : String} {attributes : List Attribute} {content m : Markup}

theorem skips_element (h : IsOpening tag attributes) (hc : Contained name (text content)) :
    Skips name (Literal.encode (text (element tag attributes content))) := by
  have henc := Markup.encode_element h.tag.isAlphanum h.writable (text content) []
  rw [List.append_nil, Literal.encode_nil, List.append_nil] at henc
  rw [Markup.text_element, henc]
  exact Segment.skips_balanced h.tag.name (Attribute.isInside_encoded h.writable)
    (Attribute.getLast?_written _) hc

theorem contained_element (h : IsOpening tag attributes) (hc : Contained name (text content)) :
    Contained name (text (element tag attributes content)) :=
  (skips_element h hc).skipsTo

theorem contained_lines (h : Skips name (Literal.encode (text m))) :
    Contained name (text (fixed "\n" ++ m)) := by
  have hchars : text (fixed "\n" ++ m) = '\n' :: text m := by
    rw [Markup.text_append, Markup.text_fixed]
    rfl
  have hbreak : Skips name ['\n'] := Segment.skips_of_not_mem (by decide)
  rw [hchars, Contained, Literal.encode_cons_of_plain (by decide) (by decide)]
  exact (hbreak.append h).skipsTo

namespace LaidOut

variable {Opening Opening' : String → List Attribute → Prop} {Inner Inner' : List Char → Prop}

theorem flatMap {α : Type} {f : α → Markup} {xs : List α}
    (h : ∀ x ∈ xs, LaidOut Opening Inner (f x)) : LaidOut Opening Inner (xs.flatMap f) := by
  induction xs with
  | nil => exact .nil
  | cons x xs ih =>
    obtain ⟨hx, hxs⟩ := List.forall_mem_cons.mp h
    exact .append hx (ih hxs)

theorem mono (h : LaidOut Opening Inner m)
    (ho : ∀ tag attributes, Opening tag attributes → Opening' tag attributes)
    (hi : ∀ cs, Inner cs → Inner' cs) : LaidOut Opening' Inner' m := by
  induction h with
  | nil => exact .nil
  | append _ _ hm hn => exact .append hm hn
  | line hopen hinner => exact .line (ho _ _ hopen) (hi _ hinner)
  | container hopen _ ih => exact .container (ho _ _ hopen) ih

theorem inLines (h : LaidOut Opening Inner m) : InLines m := by
  induction h with
  | nil => exact inLines_nil
  | append _ _ hm hn => exact hm.append hn
  | line => exact inLines_line _
  | container => exact inLines_container _ _ _

theorem skips (h : LaidOut IsOpening (Contained name) m) :
    Skips name (Literal.encode (text m)) := by
  have hbreak : Skips name ['\n'] := Segment.skips_of_not_mem (by decide)
  induction h with
  | nil =>
    rw [Markup.text_nil, Literal.encode_nil]
    exact Segment.skips_nil
  | append hm _ ihm ihn =>
    rw [Markup.text_append, hm.inLines.encode_append]
    exact ihm.append ihn
  | line hopen hinner =>
    rw [encode_line]
    exact (skips_element hopen hinner).append hbreak
  | container hopen _ ih =>
    rw [Markup.container_eq, encode_line]
    exact (skips_element hopen (contained_lines ih)).append hbreak

theorem contained (h : LaidOut IsOpening (Contained name) m) :
    Contained name (text (fixed "\n" ++ m)) :=
  contained_lines h.skips

end LaidOut

end EmailTemplates.Source
