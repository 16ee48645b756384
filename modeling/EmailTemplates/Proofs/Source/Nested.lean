import EmailTemplates.Proofs.Source.Anchor
import EmailTemplates.Proofs.Source.Keyword

namespace EmailTemplates.Source.Shape

open EmailTemplates.Text (Slice byteLength trim isBlank)
open Segment (IsTag)
open Markup (text element opening container line fixed reference authored tagOf)
open Outcome

variable {tag : String} {cs rest : List Char}

theorem elementOf_eq_none (h : ¬ '<' :: tag.toList <+: cs) (n : Nat) :
    elementOf tag ⟨n, cs⟩ = none := by
  have hopen : ("<" ++ tag).toList = '<' :: tag.toList := by
    rw [String.toList_append]
    rfl
  have hnot : ("<" ++ tag).toList.isPrefixOf cs = false := by
    rwa [hopen, ← Bool.not_eq_true, List.isPrefixOf_iff_prefix]
  rw [elementOf, openingOf, Slice.expectText, hnot]
  rfl

theorem advances_elementOf (tag : String) : Slice.Advances (elementOf tag) := by
  intro s a rest h
  obtain ⟨⟨attributes, s1⟩, h1, h⟩ := Option.bind_eq_some_iff.mp h
  obtain ⟨s2, h2, h1⟩ := Option.bind_eq_some_iff.mp h1
  obtain ⟨-, h1⟩ := unless_none_eq_some.mp h1
  obtain ⟨⟨content, s3⟩, h3, h⟩ := Option.bind_eq_some_iff.mp h
  cases h
  have l1 := Tag.length_upToAngle h1
  have l3 := Slice.length_splitAt? h3
  have l2 := congrArg List.length (Slice.expectText_eq_some h2)
  have hopen : ("<" : String).toList.length = 1 := rfl
  simp only [String.toList_append, List.length_append, hopen] at l2
  omega

theorem passes_elementOf_of_not_mem (h : '<' ∉ cs) (rest : List Char) :
    Slice.Passes (elementOf tag) cs rest := by
  refine Slice.passes_of_forall fun u v huv hv n => elementOf_eq_none ?_ n
  cases v with
  | nil => exact absurd rfl hv
  | cons c v =>
    rintro ⟨tail, htail⟩
    have hc : '<' = c := (List.cons.inj htail).1
    rw [huv, ← hc] at h
    simp at h

theorem passes_elementOf_cons {c : Char} (h : ¬ '<' :: tag.toList <+: c :: (cs ++ rest))
    (hcs : '<' ∉ cs) : Slice.Passes (elementOf tag) (c :: cs) rest :=
  ⟨fun n => elementOf_eq_none h n, passes_elementOf_of_not_mem hcs rest⟩

theorem not_prefix_closing {t content : List Char} (ht : '<' ∉ t)
    (h : ¬ Tag.written true t [] <:+: content) {u v : List Char} (huv : content = u ++ v)
    (hv : v ≠ []) (rest : List Char) :
    ¬ Tag.written true t [] <+: v ++ (Tag.written true t [] ++ rest) := by
  intro hp
  have hangle : '<' ∉ '/' :: (t ++ ['>']) := by simp [ht]
  have hclosing : Tag.written true t [] = '<' :: '/' :: (t ++ ['>']) := by simp [Tag.written]
  cases v with
  | nil => exact hv rfl
  | cons c v =>
    rw [hclosing] at hp
    obtain ⟨rfl, htail⟩ := List.cons_prefix_cons.mp hp
    have hin : Tag.written true t [] <+: '<' :: v := by
      rw [hclosing]
      exact List.cons_prefix_cons.mpr ⟨rfl, prefix_of_append_cons hangle htail⟩
    exact h (hin.isInfix.trans (huv ▸ (List.suffix_append u _).isInfix))

theorem elementOf_written {inside content : List Char} (hi : Tag.IsInside inside)
    (ht : '<' ∉ tag.toList) (hc : ¬ Tag.written true tag.toList [] <:+: content) (n : Nat) :
    ∃ k l m, elementOf tag ⟨n, Tag.written false tag.toList inside ++
        (content ++ (Tag.written true tag.toList [] ++ rest))⟩ =
      some ((⟨k, inside⟩, ⟨l, content⟩), ⟨m, rest⟩) := by
  have hclose : ("</" ++ tag ++ ">").toList = Tag.written true tag.toList [] := by
    have hopen : ("</" : String).toList = ['<', '/'] := rfl
    have hend : (">" : String).toList = ['>'] := rfl
    simp [Tag.written, hopen, hend]
  obtain ⟨k, l, hopening⟩ := @openingOf_written tag _ hi n
    (content ++ (Tag.written true tag.toList [] ++ rest))
  have hfirst (u v : List Char) (huv : content = u ++ v) (hv : v ≠ []) :=
    not_prefix_closing ht hc huv hv rest
  rw [← hclose] at hfirst hopening ⊢
  refine ⟨k, l, l + byteLength (content ++ ("</" ++ tag ++ ">").toList), ?_⟩
  rw [elementOf, hopening]
  simp only [Option.bind_eq_bind, Option.bind_some, Slice.splitAt?_append l _ hfirst]
  rfl

def itemMarkup (item : String) : Markup :=
  line (element "li" [.style Fragment.listItemStyle] (authored item))

def itemsOf (s : Slice) : List (List Char) :=
  (Slice.findAll (elementOf "li") s).map fun (_, item) => trim item.chars

theorem text_itemMarkup (item : String) :
    text (itemMarkup item) = Tag.written false "li".toList (tagOf [.style Fragment.listItemStyle]) ++
      (item.toList ++ (Tag.written true "li".toList [] ++ ['\n'])) := by
  rw [itemMarkup, Markup.text_line, Markup.text_element, text_authored, List.append_assoc,
    List.append_assoc]

theorem itemsOf_append {cs rest : List Char} (h : Slice.Passes (elementOf "li") cs rest) (n : Nat) :
    itemsOf ⟨n, cs ++ rest⟩ = itemsOf ⟨n + byteLength cs, rest⟩ :=
  congrArg (List.map _) (Slice.findAll_append (advances_elementOf "li") h n)

theorem itemsOf_item {item : String} (h : Whole "li" item) (n : Nat) (rest : List Char) :
    ∃ m, itemsOf ⟨n, text (itemMarkup item) ++ rest⟩ = item.toList :: itemsOf ⟨m, rest⟩ := by
  have ha : ∀ a ∈ [Attribute.style Fragment.listItemStyle], a.Writable :=
    List.forall_mem_singleton.mpr (Attribute.writable_style Fragment.plain_listItemStyle)
  obtain ⟨k, l, m, hread⟩ := @elementOf_written "li" ('\n' :: rest) _ _
    (Attribute.isInside_tagOf ha) (by decide) h.unclosed n
  have hbreak : Slice.Passes (elementOf "li") ['\n'] rest :=
    passes_elementOf_of_not_mem (by simp) rest
  refine ⟨m + byteLength ['\n'], ?_⟩
  have hchars : text (itemMarkup item) ++ rest =
      Tag.written false "li".toList (tagOf [.style Fragment.listItemStyle]) ++
        (item.toList ++ (Tag.written true "li".toList [] ++ '\n' :: rest)) := by
    simp [text_itemMarkup]
  rw [hchars, itemsOf, Slice.findAll_of_some (advances_elementOf "li") hread, List.map_cons]
  exact congrArg₂ List.cons (trim_of_trimmed h.toTrimmed) (itemsOf_append hbreak m)

theorem itemsOf_items {items : List String} (h : ∀ item ∈ items, Whole "li" item) (n : Nat)
    (rest : List Char) :
    ∃ m, itemsOf ⟨n, text (items.flatMap itemMarkup) ++ rest⟩ =
      items.map String.toList ++ itemsOf ⟨m, rest⟩ := by
  induction items generalizing n with
  | nil => exact ⟨n, rfl⟩
  | cons item items ih =>
    obtain ⟨hitem, hitems⟩ := List.forall_mem_cons.mp h
    obtain ⟨k, hk⟩ := itemsOf_item hitem n (text (items.flatMap itemMarkup) ++ rest)
    obtain ⟨m, hm⟩ := ih hitems k
    refine ⟨m, ?_⟩
    rw [List.flatMap_cons, Markup.text_append, List.append_assoc, hk, hm]
    rfl

theorem not_mem_tagOf {attributes : List Attribute} (ha : ∀ a ∈ attributes, a.Writable)
    (hl : ∀ a ∈ attributes, '<' ∉ a.value.text) : '<' ∉ tagOf attributes := by
  intro hmem
  obtain ⟨p, hp, hin⟩ := List.mem_flatMap.mp hmem
  obtain ⟨a, hmem, rfl⟩ := List.mem_map.mp hp
  simp only [List.mem_cons, List.mem_append, List.not_mem_nil, or_false] at hin
  rcases hin with h | h | h | h | h | h
  · revert h
    decide
  · exact absurd ((ha a hmem).name _ h) (by decide)
  · revert h
    decide
  · revert h
    decide
  · exact hl a hmem h
  · revert h
    decide

theorem not_mem_style {s : Style} (h : s.Plain) : '<' ∉ (Attribute.style s).value.text := by
  rw [Attribute.style, Attribute.fixed, Markup.text_fixed]
  exact h.text.not_mem (by decide)

theorem isTag_list (ordered : Bool) : IsTag (listTag ordered) := by
  cases ordered
  · exact ⟨by decide, by decide⟩
  · exact ⟨by decide, by decide⟩

theorem itemsOf_list {items : List String} (h : ∀ item ∈ items, Whole "li" item)
    (ordered : Bool) :
    itemsOf ⟨0, text (element (listTag ordered) [.style Fragment.listStyle]
      (fixed "\n" ++ items.flatMap itemMarkup))⟩ = items.map String.toList := by
  have ha : ∀ a ∈ [Attribute.style Fragment.listStyle], a.Writable :=
    List.forall_mem_singleton.mpr (Attribute.writable_style Fragment.plain_listStyle)
  have hangle : '<' ∉ tagOf [.style Fragment.listStyle] :=
    not_mem_tagOf ha (List.forall_mem_singleton.mpr (not_mem_style Fragment.plain_listStyle))
  have htag : '<' ∉ (listTag ordered).toList :=
    Tag.not_mem_of_alphanum (by decide) (isTag_list ordered).isAlphanum
  have hbreak : ("\n" : String).toList = ['\n'] := rfl
  have hopen (rest : List Char) : Slice.Passes (elementOf "li") ('<' :: ((listTag ordered).toList ++
      (tagOf [.style Fragment.listStyle] ++ ['>', '\n']))) rest := by
    refine passes_elementOf_cons ?_ (by simp [htag, hangle])
    cases ordered <;> simp [listTag]
  have hclose : Slice.Passes (elementOf "li") (Tag.written true (listTag ordered).toList []) [] := by
    refine passes_elementOf_cons ?_ (by simp [htag])
    simp
  have hchars : text (element (listTag ordered) [.style Fragment.listStyle]
      (fixed "\n" ++ items.flatMap itemMarkup)) =
      '<' :: ((listTag ordered).toList ++ (tagOf [.style Fragment.listStyle] ++ ['>', '\n'])) ++
        (text (items.flatMap itemMarkup) ++ Tag.written true (listTag ordered).toList []) := by
    rw [Markup.text_element, Markup.text_append, Markup.text_fixed, hbreak]
    simp [Tag.written]
  obtain ⟨m, hm⟩ := itemsOf_items h _ (Tag.written true (listTag ordered).toList [])
  have hnil : itemsOf ⟨m, Tag.written true (listTag ordered).toList []⟩ = [] :=
    congrArg (List.map _) (Slice.findAll_eq_nil hclose m fun _ => rfl)
  rw [hchars, itemsOf_append (hopen _), hm, hnil, List.append_nil]

theorem list?_element {items : List String} (hne : items ≠ [])
    (h : ∀ item ∈ items, Whole "li" item) (ordered : Bool) :
    list? ordered (text (element (listTag ordered) [.style Fragment.listStyle]
      (fixed "\n" ++ items.flatMap itemMarkup))) = some (.list items ordered) := by
  have hfilter : (items.map String.toList).filter (!·.isEmpty) = items.map String.toList := by
    rw [List.filter_eq_self, List.forall_mem_map]
    intro item hitem
    simpa using toList_ne_nil (h item hitem).toTrimmed
  have hitems : (items.map String.toList).map String.ofList = items := by
    rw [List.map_map]
    exact (List.map_congr_left fun item _ => String.ofList_toList).trans (List.map_id items)
  have hlist := (congrArg (List.filter (!·.isEmpty)) (itemsOf_list h ordered)).trans hfilter
  unfold list?
  dsimp only
  split
  · rename_i hnil
    exact absurd (List.map_eq_nil_iff.mp (hlist.symm.trans hnil)) hne
  · refine (congrArg (fun found : List (List Char) =>
      some (Block.Content.list (found.map String.ofList) ordered)) hlist).trans ?_
    rw [hitems]

theorem recognize_list {items : List String} (hne : items ≠ [])
    (h : ∀ item ∈ items, Whole "li" item) (ordered : Bool) (scheme : ColorScheme) :
    recognize scheme (listTag ordered) (text (element (listTag ordered)
      [.style Fragment.listStyle] (fixed "\n" ++ items.flatMap itemMarkup))) =
      some (.list items ordered) := by
  rw [← list?_element hne h ordered]
  cases ordered <;> rfl

end EmailTemplates.Source.Shape
