import EmailTemplates.Proofs.Markup.Settled
import EmailTemplates.Proofs.SystemTemplate

namespace EmailTemplates

namespace Nesting

inductive Tag where
  | opening (name : List Char)
  | closing (name : List Char)
deriving DecidableEq, Repr

def Tag.ofInside : List Char → Tag
  | '/' :: name => .closing name
  | inside => .opening (inside.takeWhile fun c => !Text.isBlank c)

def tagsFrom? : Option (List Char) → List Char → Option (List Tag)
  | none, [] => some []
  | some _, [] => none
  | none, c :: cs => tagsFrom? (if c = '<' then some [] else none) cs
  | some inside, c :: cs =>
    if c = '>' then (tagsFrom? none cs).map (Tag.ofInside inside :: ·)
    else tagsFrom? (some (inside ++ [c])) cs

def isVoid (name : List Char) : Bool :=
  ["meta", "img", "hr"].any (·.toList == name)

def closes : List (List Char) → List Tag → Bool
  | stack, [] => stack.isEmpty
  | stack, .opening name :: tags => closes (if isVoid name then stack else name :: stack) tags
  | [], .closing _ :: _ => false
  | top :: stack, .closing name :: tags => top == name && closes stack tags

def isWellNested (cs : List Char) : Bool :=
  (tagsFrom? none cs).any (closes [])

theorem tagsFrom?_none_append {cs : List Char} (h : '<' ∉ cs) (rest : List Char) :
    tagsFrom? none (cs ++ rest) = tagsFrom? none rest := by
  induction cs with
  | nil => rfl
  | cons c cs ih =>
    rw [List.mem_cons, not_or] at h
    rw [List.cons_append, tagsFrom?, if_neg (Ne.symm h.1), ih h.2]

theorem tagsFrom?_some_append {cs : List Char} (h : '<' ∉ cs) (inside rest : List Char) :
    tagsFrom? (some inside) (cs ++ '>' :: rest) =
      (tagsFrom? none rest).map (Tag.ofInside (inside ++ cs.takeWhile (· != '>')) :: ·) := by
  induction cs generalizing inside with
  | nil => simp [tagsFrom?]
  | cons c cs ih =>
    rw [List.mem_cons, not_or] at h
    rw [List.cons_append, tagsFrom?]
    by_cases hc : c = '>'
    · have hend : tagsFrom? none ('>' :: rest) = tagsFrom? none rest := rfl
      rw [if_pos hc, tagsFrom?_none_append h.2, hend, List.takeWhile_cons_of_neg (by simp [hc]),
        List.append_nil]
    · rw [if_neg hc, ih h.2, List.takeWhile_cons_of_pos (by simp [hc]), List.append_assoc,
        List.singleton_append]

theorem tagsFrom?_tag {cs : List Char} (h : '<' ∉ cs) (rest : List Char) :
    tagsFrom? none ('<' :: (cs ++ '>' :: rest)) =
      (tagsFrom? none rest).map (Tag.ofInside (cs.takeWhile (· != '>')) :: ·) := by
  rw [tagsFrom?, if_pos rfl, tagsFrom?_some_append h, List.nil_append]

def IsName (name : List Char) : Prop :=
  name ≠ [] ∧ ∀ c ∈ name, c ≠ '<' ∧ c ≠ '>' ∧ c ≠ '/' ∧ Text.isBlank c = false

instance : DecidablePred IsName :=
  fun name => inferInstanceAs (Decidable (name ≠ [] ∧ ∀ c ∈ name, _))

def IsTail (tail : List Char) : Prop :=
  '<' ∉ tail ∧ ∀ c ∈ tail.head?, Text.isBlank c = true

variable {name tail : List Char}

theorem IsName.not_mem (h : IsName name) : '<' ∉ name :=
  fun hm => (h.2 _ hm).1 rfl

theorem IsName.takeWhile_append (h : IsName name) (tail : List Char) :
    (name ++ tail).takeWhile (· != '>') = name ++ tail.takeWhile (· != '>') :=
  List.takeWhile_append_of_pos fun c hc => bne_iff_ne.mpr (h.2 c hc).2.1

theorem IsName.ofInside (h : IsName name) (ht : ∀ c ∈ tail.head?, Text.isBlank c = true) :
    Tag.ofInside (name ++ tail) = .opening name := by
  obtain ⟨hne, hall⟩ := h
  have htail : tail.takeWhile (fun c => !Text.isBlank c) = [] := by
    cases tail with
    | nil => rfl
    | cons c tail => simp [ht c rfl]
  have hname : (name ++ tail).takeWhile (fun c => !Text.isBlank c) = name := by
    rw [List.takeWhile_append_of_pos (by simpa using fun c hc => (hall c hc).2.2.2), htail,
      List.append_nil]
  cases name with
  | nil => exact absurd rfl hne
  | cons c name =>
    have hslash := (hall c List.mem_cons_self).2.2.1
    rw [List.cons_append] at hname ⊢
    rw [Tag.ofInside, hname]
    exact fun _ he => hslash (List.cons.inj he).1

theorem tagsFrom?_opening (h : IsName name) (ht : IsTail tail) (rest : List Char) :
    tagsFrom? none ('<' :: (name ++ (tail ++ '>' :: rest))) =
      (tagsFrom? none rest).map (Tag.opening name :: ·) := by
  have hangle : '<' ∉ name ++ tail := by
    rw [List.mem_append, not_or]
    exact ⟨h.not_mem, ht.1⟩
  have hhead : ∀ c ∈ (tail.takeWhile (· != '>')).head?, Text.isBlank c = true := by
    intro c hc
    rw [List.head?_takeWhile] at hc
    exact ht.2 c (Option.filter_eq_some_iff.mp hc).1
  rw [← List.append_assoc, tagsFrom?_tag hangle, h.takeWhile_append, h.ofInside hhead]

theorem tagsFrom?_closing (h : IsName name) (rest : List Char) :
    tagsFrom? none ('<' :: '/' :: (name ++ '>' :: rest)) =
      (tagsFrom? none rest).map (Tag.closing name :: ·) := by
  have hangle : '<' ∉ '/' :: name := by
    rw [List.mem_cons, not_or]
    exact ⟨by decide, h.not_mem⟩
  have hname := h.takeWhile_append []
  rw [List.append_nil, List.takeWhile_nil, List.append_nil] at hname
  have htag := tagsFrom?_tag hangle rest
  rwa [List.takeWhile_cons_of_pos (by decide), hname] at htag

def Balanced (cs : List Char) : Prop :=
  ∃ tags, (∀ rest, tagsFrom? none (cs ++ rest) = (tagsFrom? none rest).map (tags ++ ·)) ∧
    ∀ stack rest, closes stack (tags ++ rest) = closes stack rest

theorem Balanced.isWellNested {cs : List Char} (h : Balanced cs) : isWellNested cs = true := by
  obtain ⟨tags, htags, hcloses⟩ := h
  have hall := htags []
  have hend := hcloses [] []
  rw [List.append_nil] at hall hend
  simp [Nesting.isWellNested, hall, tagsFrom?, hend, closes]

example : Nesting.isWellNested "<p><a></p></a>".toList = false := by
  decide

theorem balanced_of_not_mem {cs : List Char} (h : '<' ∉ cs) : Balanced cs := by
  refine ⟨[], fun rest => ?_, fun _ _ => rfl⟩
  rw [tagsFrom?_none_append h]
  exact Option.map_id'.symm

theorem Balanced.append {cs ds : List Char} (hc : Balanced cs) (hd : Balanced ds) :
    Balanced (cs ++ ds) := by
  obtain ⟨tags, htags, hcloses⟩ := hc
  obtain ⟨tags', htags', hcloses'⟩ := hd
  refine ⟨tags ++ tags', fun rest => ?_, fun stack rest => ?_⟩
  · rw [List.append_assoc, htags, htags', Option.map_map]
    simp only [Function.comp_def, List.append_assoc]
  · rw [List.append_assoc, hcloses, hcloses']

theorem balanced_void (hv : isVoid name = true) (h : IsName name) (ht : IsTail tail) :
    Balanced ('<' :: (name ++ (tail ++ ['>']))) := by
  refine ⟨[.opening name], fun rest => ?_, fun stack rest => ?_⟩
  · have hrest := tagsFrom?_opening h ht rest
    simpa using hrest
  · rw [List.singleton_append, closes, if_pos hv]

theorem Balanced.element {cs : List Char} (hc : Balanced cs) (hv : isVoid name = false)
    (h : IsName name) (ht : IsTail tail) :
    Balanced ('<' :: (name ++ (tail ++ '>' :: (cs ++ '<' :: '/' :: (name ++ ['>']))))) := by
  obtain ⟨tags, htags, hcloses⟩ := hc
  refine ⟨.opening name :: (tags ++ [.closing name]), fun rest => ?_, fun stack rest => ?_⟩
  · have hrest : '<' :: (name ++ (tail ++ '>' :: (cs ++ '<' :: '/' :: (name ++ ['>'])))) ++ rest =
        '<' :: (name ++ (tail ++ '>' :: (cs ++ '<' :: '/' :: (name ++ '>' :: rest)))) := by
      simp
    rw [hrest, tagsFrom?_opening h ht, htags, tagsFrom?_closing h, Option.map_map, Option.map_map]
    congr 1
    funext ts
    simp
  · have hall : .opening name :: (tags ++ [.closing name]) ++ rest =
        .opening name :: (tags ++ .closing name :: rest) := by simp
    rw [hall, closes, hv, if_neg Bool.false_ne_true, hcloses, closes, beq_self_eq_true,
      Bool.true_and]

end Nesting

namespace Markup

open Nesting

theorem mem_fill {value? : List Char → Option (List Char)} {m : Markup} {c : Char}
    (h : c ∈ m.fill value?) : c ∈ m.text ∨ ∃ name value, value? name = some value ∧ c ∈ value := by
  induction m with
  | nil => cases h
  | cons p m ih =>
    cases p with
    | char d =>
      rw [fill, List.mem_cons] at h
      rw [text_char, List.mem_cons]
      rcases h with h | h
      · exact .inl (.inl h)
      · exact (ih h).imp_left .inr
    | reference name =>
      rw [fill, List.mem_append] at h
      rw [text_reference, List.mem_append]
      rcases h with h | h
      · cases hv : value? name with
        | none =>
          rw [hv] at h
          exact .inl (.inl h)
        | some value =>
          rw [hv] at h
          exact .inr ⟨name, value, hv, h⟩
      · exact (ih h).imp_left .inr

def Tagless (m : Markup) : Prop :=
  '<' ∉ m.text

theorem Tagless.append {m n : Markup} (hm : m.Tagless) (hn : n.Tagless) : (m ++ n).Tagless := by
  rw [Tagless, text_append, List.mem_append, not_or]
  exact ⟨hm, hn⟩

theorem tagless_fixed {s : String} (h : '<' ∉ s.toList) : (fixed s).Tagless := by
  rwa [Tagless, text_fixed]

theorem tagless_of_plain {s : String} (h : Text.Plain s) : (fixed s).Tagless :=
  tagless_fixed (h.not_mem (by decide))

theorem tagless_reference {name : String} (h : Variable.isValidName name = true) :
    (reference name).Tagless := by
  rw [Tagless, reference, text_reference, text_nil, List.append_nil]
  exact Token.not_mem_chars_of_breaks h (by decide)

theorem tagless_authored {s : String} (h : '<' ∉ s.toList) : (authored s).Tagless := by
  rwa [Tagless, authored, text_pieces]

theorem tagless_escaped (s : String) : (escaped s).Tagless := by
  rw [Tagless, text_escaped]
  exact Text.not_mem_escape (by decide) _

theorem tagless_attribute {a : Attribute} (h : a.Drawn Tagless) : a.markup.Tagless := by
  have hopen {name : String} (hn : Text.Plain name) : (fixed (" " ++ name ++ "=\"")).Tagless := by
    refine tagless_fixed ?_
    simp only [String.toList_append, List.mem_append, not_or]
    exact ⟨⟨by decide, hn.not_mem (by decide)⟩, by decide⟩
  have hclose : (fixed "\"").Tagless := tagless_fixed (by decide)
  cases h with
  | fixed hn hv => exact ((hopen hn).append (tagless_of_plain hv)).append hclose
  | reference hn hu => exact ((hopen hn).append (tagless_reference hu)).append hclose
  | loose hn hv => exact ((hopen hn).append hv).append hclose

theorem tagless_attributes {attributes : List Attribute}
    (h : ∀ a ∈ attributes, a.Drawn Tagless) :
    Tagless (attributes.flatMap Attribute.markup) := by
  induction attributes with
  | nil => exact List.not_mem_nil
  | cons a attributes ih =>
    obtain ⟨ha, hattributes⟩ := List.forall_mem_cons.mp h
    exact (tagless_attribute ha).append (ih hattributes)

theorem fill_opening (value? : List Char → Option (List Char)) (tag : String)
    (attributes : List Attribute) :
    (opening tag attributes).fill value? =
      '<' :: (tag.toList ++ (fill value? (attributes.flatMap Attribute.markup) ++ ['>'])) := by
  simp [opening]

theorem fill_element (value? : List Char → Option (List Char)) (tag : String)
    (attributes : List Attribute) (content : Markup) :
    (element tag attributes content).fill value? =
      '<' :: (tag.toList ++ (fill value? (attributes.flatMap Attribute.markup) ++
        '>' :: (content.fill value? ++ '<' :: '/' :: (tag.toList ++ ['>'])))) := by
  simp [element, fill_opening, closing]

theorem isName_of_mem_elementTags :
    ∀ tag ∈ elementTags, IsName tag.toList ∧ isVoid tag.toList = false := by
  decide

theorem isName_of_mem_void :
    ∀ tag ∈ ["meta", "img", "hr"], IsName tag.toList ∧ isVoid tag.toList = true := by
  decide

section

variable {value? : List Char → Option (List Char)}
  (hvalue : ∀ name value, value? name = some value → '<' ∉ value)
include hvalue

theorem Tagless.not_mem_fill {m : Markup} (h : m.Tagless) : '<' ∉ m.fill value? := by
  intro hm
  rcases mem_fill hm with hm | ⟨name, value, hv, hm⟩
  · exact h hm
  · exact hvalue name value hv hm

theorem Tagless.balanced {m : Markup} (h : m.Tagless) : Balanced (m.fill value?) :=
  balanced_of_not_mem (h.not_mem_fill hvalue)

theorem isTail_attributes {attributes : List Attribute}
    (h : ∀ a ∈ attributes, a.Drawn Tagless) :
    IsTail (fill value? (attributes.flatMap Attribute.markup)) := by
  refine ⟨(tagless_attributes h).not_mem_fill hvalue, ?_⟩
  cases attributes with
  | nil => simp [fill]
  | cons a attributes =>
    have hblank : Text.isBlank ' ' = true := by decide
    simp [Attribute.markup, hblank]

theorem Drawn.balanced {m : Markup} (h : m.Drawn Tagless) : Balanced (m.fill value?) := by
  induction h with
  | nil => exact balanced_of_not_mem List.not_mem_nil
  | append _ _ hm hn =>
    rw [fill_append]
    exact hm.append hn
  | fixed hs => exact (tagless_of_plain hs).balanced hvalue
  | newline => exact (tagless_fixed (by decide)).balanced hvalue
  | reference hn => exact (tagless_reference hn).balanced hvalue
  | looseLine hl => exact (hl.append (tagless_fixed (by decide))).balanced hvalue
  | void ht ha =>
    obtain ⟨hname, hvoid⟩ := isName_of_mem_void _ ht
    rw [fill_opening]
    exact balanced_void hvoid hname (isTail_attributes hvalue ha)
  | loose ht ha hl =>
    obtain ⟨hname, hvoid⟩ := isName_of_mem_elementTags _ ht
    rw [fill_element]
    exact (hl.balanced hvalue).element hvoid hname (isTail_attributes hvalue ha)
  | element ht ha _ hc =>
    obtain ⟨hname, hvoid⟩ := isName_of_mem_elementTags _ ht
    rw [fill_element]
    exact hc.element hvoid hname (isTail_attributes hvalue ha)

end

end Markup

namespace Template

open Markup

variable {t : Template} {options : RenderOptions}

theorem tagless_wrap {ms : List Markup} (h : t.Fragments ms)
    (ht : ∀ s ∈ t.drawnTexts, '<' ∉ s.toList)
    (hn : ∀ s ∈ options.company.footerNote, '<' ∉ s.toList) :
    ∃ html, html.Drawn Tagless ∧ options.envelope.wrap (t.parts options ms.flatten) =
      Markup.fixed options.envelope.doctype ++ html := by
  have hdetails (s : String) : '<' ∉ (Text.escaped s).toList := by
    rw [Text.toList_escaped]
    exact Text.not_mem_escape (by decide) _
  refine drawn_wrap_parts h ?_ (fun s hs => ⟨tagless_authored (ht s hs), tagless_escaped s⟩)
    (fun s hs => tagless_authored (hn s hs)) ?_
  · intro s hs
    rw [Tagless, authored, text_pieces, String.toList_append, List.mem_append, not_or] at hs
    exact tagless_authored hs.1
  · refine fun s _ => ⟨tagless_fixed (hdetails s), tagless_fixed ?_⟩
    rw [String.toList_append, List.mem_append, not_or]
    exact ⟨by decide, hdetails s⟩

theorem wellNested_of_render {v : Values} {e : RenderedEmail}
    (ht : ∀ s ∈ t.drawnTexts, '<' ∉ s.toList)
    (hn : ∀ s ∈ options.company.footerNote, '<' ∉ s.toList)
    (h : t.render v options = .ok e) :
    ∃ html, e.html.toList = options.envelope.doctype.toList ++ html ∧
      Nesting.isWellNested html = true := by
  obtain ⟨-, ms, hms, rfl⟩ := render_eq_ok.mp h
  obtain ⟨html, hdrawn, hwrap⟩ := tagless_wrap hms ht hn
  let value? := (Filling.mk options.mode v).markupValue?
  have hvalue : ∀ name value, value? name = some value → '<' ∉ value := by
    intro name value hv
    obtain ⟨plain, -, rfl⟩ := Option.map_eq_some_iff.mp hv
    exact Text.not_mem_escape (by decide) plain
  refine ⟨html.fill value?, ?_, (hdrawn.balanced hvalue).isWellNested⟩
  rw [emailOf, hwrap, Filling.markup, String.toList_ofList, fill_append, fill_fixed]

theorem wellNested_of_welcome : ∃ e html,
    SystemTemplate.welcome.starter.render (.ofList [("customer_name", "</td>")])
        (.ofMode .substitute) = .ok e ∧
      e.html.toList = "<!DOCTYPE html>\n".toList ++ html ∧ Nesting.isWellNested html = true := by
  have h := SystemTemplate.render_starter SystemTemplate.welcome_mem_all
    (.ofList [("customer_name", "</td>")]) (.ofMode .substitute)
  obtain ⟨html, hhtml, hnested⟩ := wellNested_of_render (by decide) (by decide) h
  exact ⟨_, html, h, hhtml, hnested⟩

end Template

end EmailTemplates
