import EmailTemplates.Proofs.Markup.Skeleton
import EmailTemplates.Proofs.Text.Replaced

namespace EmailTemplates

namespace Text

variable {w : List Char × Char} {words pre post : List (List Char × Char)} {c : Char}
  {cs : List Char}

def decoded (words : List (List Char × Char)) (cs : List Char) : List Char :=
  words.foldl (fun cs w => replaced w.1 [w.2] cs) cs

def entities : List (List Char × Char) :=
  [(['&', 'l', 't', ';'], '<'), (['&', 'g', 't', ';'], '>'), (['&', 'q', 'u', 'o', 't', ';'], '"'),
   (['&', '#', '3', '9', ';'], '\''), (['&', 'a', 'm', 'p', ';'], '&')]

structure Independent (words : List (List Char × Char)) : Prop where
  mark : ∀ w ∈ words, w.1.head? = some '&' ∧ '&' ∉ w.1.tail
  tail : ∀ w ∈ words, ∀ v ∈ words, v.2 ∉ w.1.tail
  apart : words.Pairwise fun v w => ¬ v.1 <+: w.1 ∧ ¬ w.1 <+: v.1
  order : words.Pairwise fun v w => w.1.head? ≠ some v.2

theorem independent_entities : Independent entities where
  mark := by decide
  tail := by decide
  apart := by decide
  order := by decide

theorem Independent.append (h : Independent (pre ++ post)) :
    Independent pre ∧ Independent post := by
  obtain ⟨hpre, hpost⟩ := List.forall_mem_append.mp h.mark
  obtain ⟨hapre, hapost, -⟩ := List.pairwise_append.mp h.apart
  obtain ⟨hopre, hopost, -⟩ := List.pairwise_append.mp h.order
  have hleft {w} (hw : w ∈ pre) : w ∈ pre ++ post := List.mem_append_left post hw
  have hright {w} (hw : w ∈ post) : w ∈ pre ++ post := List.mem_append_right pre hw
  exact ⟨⟨hpre, fun w hw v hv => h.tail w (hleft hw) v (hleft hv), hapre, hopre⟩,
    hpost, fun w hw v hv => h.tail w (hright hw) v (hright hv), hapost, hopost⟩

theorem Independent.of_cons (h : Independent (w :: words)) : Independent words :=
  (@Independent.append [w] words h).2

theorem Independent.exists_tail (h : Independent words) (hw : w ∈ words) :
    ∃ t, w.1 = '&' :: t ∧ '&' ∉ t ∧ ∀ v ∈ words, v.2 ∉ t := by
  obtain ⟨hhead, hmark⟩ := h.mark w hw
  obtain ⟨t, ht⟩ := List.head?_eq_some_iff.mp hhead
  have htail := h.tail w hw
  rw [ht] at hmark htail
  exact ⟨t, ht, hmark, htail⟩

theorem decoded_cons (h : Independent words) (hno : ∀ w ∈ words, ¬ w.1 <+: c :: cs) :
    decoded words (c :: cs) = c :: decoded words cs := by
  induction words generalizing cs with
  | nil => rfl
  | cons w words ih =>
    obtain ⟨hw, hwords⟩ := List.forall_mem_cons.mp hno
    change decoded words (replaced w.1 [w.2] (c :: cs)) = _
    rw [replaced_cons hw]
    -- What this pass puts into the text is in no tail of a later word.
    refine ih h.of_cons fun v hv hprefix => hwords v hv ?_
    obtain ⟨t, ht, -, htail⟩ := h.exists_tail (List.mem_cons_of_mem w hv)
    rw [ht] at hprefix ⊢
    obtain ⟨rfl, hrest⟩ := List.cons_prefix_cons.mp hprefix
    exact List.cons_prefix_cons.mpr ⟨rfl, prefix_of_replaced (htail w List.mem_cons_self) hrest⟩

theorem decoded_cons_of_head (h : Independent words) (hc : ∀ w ∈ words, w.1.head? ≠ some c)
    (cs : List Char) : decoded words (c :: cs) = c :: decoded words cs := by
  refine decoded_cons h fun w hw hprefix => hc w hw ?_
  obtain ⟨t, ht, -⟩ := h.exists_tail hw
  rw [ht] at hprefix ⊢
  exact congrArg some (List.cons_prefix_cons.mp hprefix).1

theorem decoded_append (h : Independent words) {t : List Char} (ht : '&' ∉ t) (cs : List Char) :
    decoded words (t ++ cs) = t ++ decoded words cs := by
  induction t with
  | nil => rfl
  | cons c t ih =>
    obtain ⟨hc, ht⟩ := not_or.mp (mt List.mem_cons.mpr ht)
    rw [List.cons_append, decoded_cons_of_head h, ih ht, List.cons_append]
    intro w hw hhead
    exact hc (Option.some.inj ((h.mark w hw).1.symm.trans hhead))

theorem decoded_other (h : Independent words) {t : List Char} (ht : '&' ∉ t)
    (hapart : ∀ v ∈ words, ¬ v.1 <+: '&' :: t ∧ ¬ '&' :: t <+: v.1) (cs : List Char) :
    decoded words ('&' :: t ++ cs) = '&' :: t ++ decoded words cs := by
  rw [List.cons_append, decoded_cons h, decoded_append h ht, List.cons_append]
  intro v hv hprefix
  obtain ⟨hv, ht⟩ := hapart v hv
  exact (List.prefix_or_prefix_of_prefix hprefix (List.prefix_append ('&' :: t) cs)).elim hv ht

theorem decoded_word (h : Independent words) (hw : w ∈ words) (cs : List Char) :
    decoded words (w.1 ++ cs) = w.2 :: decoded words cs := by
  obtain ⟨t, ht, hmark, -⟩ := h.exists_tail hw
  obtain ⟨pre, post, rfl⟩ := List.append_of_mem hw
  obtain ⟨hpre, hpost⟩ := h.append
  have hfold (cs : List Char) : decoded (pre ++ w :: post) cs =
      decoded post (replaced w.1 [w.2] (decoded pre cs)) := List.foldl_append
  have hapart : ∀ v ∈ pre, ¬ v.1 <+: w.1 ∧ ¬ w.1 <+: v.1 :=
    fun v hv => (List.pairwise_append.mp h.apart).2.2 v hv w List.mem_cons_self
  have horder : ∀ v ∈ post, v.1.head? ≠ some w.2 :=
    (List.pairwise_cons.mp (List.pairwise_append.mp h.order).2.1).1
  rw [hfold, hfold, ← decoded_cons_of_head hpost.of_cons horder]
  rw [ht] at hapart ⊢
  rw [decoded_other hpre hmark hapart, replaced_append (List.cons_ne_nil '&' t)]
  rfl

theorem decoded_entities (cs : List Char) : decoded entities cs = unescape cs := by
  have hword (w : List Char × Char) (h : w ∈ entities) {cs : List Char}
      (ih : decoded entities cs = unescape cs) :
      decoded entities (w.1 ++ cs) = w.2 :: unescape cs := by
    rw [decoded_word independent_entities h, ih]
  fun_induction unescape cs with
  | case1 cs ih => exact hword (['&', 'a', 'm', 'p', ';'], '&') (by decide) ih
  | case2 cs ih => exact hword (['&', 'l', 't', ';'], '<') (by decide) ih
  | case3 cs ih => exact hword (['&', 'g', 't', ';'], '>') (by decide) ih
  | case4 cs ih => exact hword (['&', 'q', 'u', 'o', 't', ';'], '"') (by decide) ih
  | case5 cs ih => exact hword (['&', '#', '3', '9', ';'], '\'') (by decide) ih
  | case6 c cs hamp hlt hgt hquote hapostrophe ih =>
    have hno {t : List Char} (h : ∀ cs', c = '&' → cs = t ++ cs' → False) :
        ¬ '&' :: t <+: c :: cs := by
      intro hprefix
      obtain ⟨hc, rest, hrest⟩ := List.cons_prefix_cons.mp hprefix
      exact h rest hc.symm hrest.symm
    have hnone : ∀ w ∈ entities, ¬ w.1 <+: c :: cs := by
      simp only [entities, List.forall_mem_cons]
      exact ⟨hno hlt, hno hgt, hno hquote, hno hapostrophe, hno hamp, nofun⟩
    rw [decoded_cons independent_entities hnone, ih]
  | case7 => simp [decoded, entities]

end Text

namespace Filling

open Markup (authored escaped)

theorem attribute_decoded (f : Filling) (text : String) :
    f.markup (escaped text) = Text.escaped (f.plain (authored text)) ∧
      f.unresolved (escaped text).names = f.unresolved (authored text).names ∧
      Text.unescape (f.markup (escaped text)).toList = (f.plain (authored text)).toList ∧
      (∀ cs, Text.unescape (Text.escape cs) = cs) ∧
      Text.unescape = Text.decoded Text.entities := by
  refine ⟨markup_escaped f text, ?_, ?_, Text.unescape_escape, ?_⟩
  · rw [Markup.names_escaped, Markup.names_authored]
  · rw [markup_escaped, Text.toList_escaped, Text.unescape_escape]
  · exact funext fun cs => (Text.decoded_entities cs).symm

example : (⟨.substitute, .ofList [("a", "<b>")]⟩ : Filling).markup
    (escaped "&amp;lt; \x7b\x7ba\x7d\x7d \x7b\x7bb\x7d\x7d") =
      "&amp;amp;lt; &lt;b&gt; \x7b\x7bb\x7d\x7d" := by decide +kernel

end Filling

end EmailTemplates
