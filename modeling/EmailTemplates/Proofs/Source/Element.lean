import EmailTemplates.Proofs.Source.Recognize
import EmailTemplates.Proofs.Source.Written

namespace EmailTemplates.Source

open EmailTemplates.Text (Slice byteLength isBlank)
open Outcome

namespace Tag

theorem not_mem_of_alphanum {c : Char} (hc : c.isAlphanum = false) {t : List Char}
    (ht : ∀ c ∈ t, c.isAlphanum = true) : c ∉ t := by
  intro h
  rw [ht c h] at hc
  cases hc

theorem isAlphanum_of_isTagName {t : List Char} (h : isTagName t = true) :
    ∀ c ∈ t, c.isAlphanum = true :=
  List.all_eq_true.mp (Bool.and_eq_true_iff.mp h).2

theorem dropWhile_written {t inside : List Char} (ht : ∀ c ∈ t, c.isAlphanum = true)
    (hi : '>' ∉ inside) (closing : Bool) (rest : List Char) :
    (written closing t inside ++ rest).takeWhile (· != '>') =
        '<' :: ((if closing then ['/'] else []) ++ (t ++ inside)) ∧
      (written closing t inside ++ rest).dropWhile (· != '>') = '>' :: rest := by
  have hne : ∀ c ∈ '<' :: ((if closing then ['/'] else []) ++ (t ++ inside)),
      (c != '>') = true := by
    intro c hc
    rw [bne_iff_ne]
    rintro rfl
    simp only [List.mem_cons, List.mem_append] at hc
    rcases hc with hc | hc | hc | hc
    · revert hc
      decide
    · cases closing <;> simp at hc
    · exact not_mem_of_alphanum (by decide) ht hc
    · exact hi hc
  have hr : ∀ c ∈ ('>' :: rest).head?, (c != '>') = false := by simp
  have hchars : written closing t inside ++ rest =
      '<' :: ((if closing then ['/'] else []) ++ (t ++ inside)) ++ '>' :: rest := by
    simp [written]
  rw [hchars]
  exact ⟨Slice.takeWhile_append hne hr, Slice.dropWhile_append hne hr⟩

end Tag

namespace Shape

theorem openingTag_written {t inside : List Char} (ht : ∀ c ∈ t, c.isAlphanum = true)
    (hi : '>' ∉ inside) (rest : List Char) :
    openingTag (Tag.written false t inside ++ rest) = Tag.written false t inside := by
  obtain ⟨htake, hdrop⟩ := Tag.dropWhile_written ht hi false rest
  rw [openingTag, htake, hdrop]
  simp [Tag.written]

theorem beforeLastClosing_of_not_infix {cs : List Char} (h : ¬ ['<', '/'] <:+: cs) :
    beforeLastClosing cs = none := by
  induction cs with
  | nil => rfl
  | cons c cs ih =>
    have hc : ¬ (c = '<' ∧ cs.head? = some '/') := by
      rintro ⟨rfl, hhead⟩
      obtain ⟨tail, rfl⟩ := List.head?_eq_some_iff.mp hhead
      exact h (List.prefix_append ['<', '/'] tail).isInfix
    rw [beforeLastClosing, ih fun hin => h (hin.trans (List.suffix_cons c cs).isInfix)]
    simp only [hc, if_false]

theorem beforeLastClosing_append {t : List Char} (ht : ¬ ['<', '/'] <:+: t) (content : List Char) :
    beforeLastClosing (content ++ '<' :: '/' :: t) = some content := by
  induction content with
  | nil =>
    have hnone : beforeLastClosing ('/' :: t) = none := by
      refine beforeLastClosing_of_not_infix fun hin => ?_
      rcases List.infix_cons_iff.mp hin with hprefix | hin
      · cases (List.cons_prefix_cons.mp hprefix).1
      · exact ht hin
    rw [List.nil_append, beforeLastClosing, hnone]
    simp
  | cons c content ih => rw [List.cons_append, beforeLastClosing, ih]

theorem inner?_enclosed {t inside t' gap : List Char} (ht : ∀ c ∈ t, c.isAlphanum = true)
    (hi : '>' ∉ inside) (ht' : ∀ c ∈ t', c.isAlphanum = true) (hg : '<' ∉ gap)
    (content : List Char) :
    inner? (Tag.written false t inside ++ (content ++ Tag.written true t' gap)) = some content := by
  have hangle : '<' ∉ t' ++ (gap ++ ['>']) := by
    simp only [List.mem_append, not_or]
    exact ⟨Tag.not_mem_of_alphanum (by decide) ht', hg, by decide⟩
  rw [inner?, (Tag.dropWhile_written ht hi false _).2]
  exact beforeLastClosing_append (fun hin => hangle (hin.subset List.mem_cons_self)) content

theorem inner?_written {t inside : List Char} (ht : ∀ c ∈ t, c.isAlphanum = true)
    (hi : '>' ∉ inside) (content : List Char) :
    inner? (Tag.written false t inside ++ (content ++ Tag.written true t [])) = some content :=
  inner?_enclosed ht hi ht List.not_mem_nil content

theorem openingOf_written {tag : String} {inside : List Char} (hi : Tag.IsInside inside) (n : Nat)
    (rest : List Char) :
    ∃ k m, openingOf tag ⟨n, Tag.written false tag.toList inside ++ rest⟩ =
      some (⟨k, inside⟩, ⟨m, rest⟩) := by
  have hopen : ("<" : String).toList = ['<'] := rfl
  have hchars : Tag.written false tag.toList inside ++ rest =
      ("<" ++ tag).toList ++ (inside ++ '>' :: rest) := by
    simp [Tag.written, hopen]
  obtain ⟨m, hm⟩ := Tag.upToAngle_append hi.noAngle (n + byteLength ("<" ++ tag).toList) rest
  refine ⟨n + byteLength ("<" ++ tag).toList, m, ?_⟩
  rw [hchars, openingOf, Slice.expectText_append]
  simp only [Option.bind_eq_bind, Option.bind_some, Tag.endsName_append hi, Bool.not_true,
    Bool.false_eq_true, if_false, hm]

end Shape

namespace Attribute

theorem value?_of_pairs {name : String} {markup : List Char} {p : List Char × List Char}
    {as : List (List Char × List Char)} {s : Slice} (h : pairs ⟨0, markup⟩ = as ++ pairs s)
    (hf : as.find? (fun p => p.1.map Char.toLower == name.toList) = some p) :
    value? name markup = some p.2 := by
  rw [value?_eq, h, List.find?_append, hf]
  rfl

theorem value?_tag {name : String} {t : List Char} {as : List (List Char × List Char)}
    {p : List Char × List Char} (ht : ∀ c ∈ t, c.isAlphanum = true) (h : ∀ a ∈ as, IsWritable a)
    (hf : as.find? (fun p => p.1.map Char.toLower == name.toList) = some p) (rest : List Char) :
    value? name (Tag.written false t (written as) ++ rest) = some p.2 := by
  obtain ⟨m, hm⟩ := pairs_tag ht h 0 rest
  exact value?_of_pairs hm hf

end Attribute

end EmailTemplates.Source
