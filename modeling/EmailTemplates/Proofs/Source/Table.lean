import EmailTemplates.Proofs.Source.Reads
import EmailTemplates.Proofs.Source.Segments

namespace EmailTemplates

open Design
open Text (Plain plain_ofList plain_append plain_repr)

namespace Attribute

structure Tame (a : Attribute) : Prop where
  writable : a.Writable
  noAngle : '<' ∉ a.value.text

theorem tame_fixed {name value : String} (hne : name.toList ≠ [])
    (hn : ∀ c ∈ name.toList, Source.Attribute.isNameChar c = true) (hv : Plain value) :
    (fixed name value).Tame :=
  ⟨writable_fixed hne hn hv, Source.Shape.not_mem_fixed hv⟩

theorem tame_style {s : Style} (h : s.Plain) : (style s).Tame :=
  ⟨writable_style h, Source.Shape.not_mem_style h⟩

theorem tame_presentation : ∀ a ∈ presentation, a.Tame := by
  simp only [presentation, List.forall_mem_cons]
  refine ⟨?_, ?_, ?_, ?_, by simp⟩ <;>
    exact tame_fixed (by decide) (by decide) (plain_ofList _ (by decide))

theorem tame_width : (fixed "width" "100%").Tame :=
  tame_fixed (by decide) (by decide) (plain_ofList _ (by decide))

theorem tame_valign : (fixed "valign" "top").Tame :=
  tame_fixed (by decide) (by decide) (plain_ofList _ (by decide))

theorem tame_size {before size after : String} (hb : Plain before) (hs : Plain size)
    (ha : Plain after) : (fixed "style" (before ++ size ++ after)).Tame := by
  refine tame_fixed (by decide) (by decide) ?_
  rw [plain_append, plain_append]
  exact ⟨⟨hb, hs⟩, ha⟩

theorem tame_padding : (fixed "style" ("padding: 0 0 " ++ spaceMd ++ ";")).Tame :=
  tame_size (plain_ofList _ (by decide)) (plain_ofList _ (by decide)) (plain_ofList _ (by decide))

end Attribute

namespace Block.Content

variable {content : Content} {Inner : List Char → Prop}

def Tabled (Inner : List Char → Prop) (content : Content) : Prop :=
  ∀ p ∈ content.enclosed, p.1 = "table" → Inner p.2.toList

theorem Contained.tabled (h : content.Contained) :
    content.Tabled (Source.Contained "table".toList) :=
  fun p hp htable => htable ▸ h p hp

theorem mem_strings_of_mem_enclosed {p : String × String} (h : p ∈ content.enclosed) :
    p.2 ∈ content.strings := by
  cases content with
  | paragraph | heading | button => simp_all [enclosed, strings]
  | link => simp_all [enclosed, strings]
  | list items ordered =>
    obtain ⟨item, hitem, rfl⟩ := List.mem_map.mp h
    exact hitem
  | infoBox title items own =>
    rw [enclosed, List.mem_append, List.mem_map, List.mem_flatMap] at h
    rw [strings, List.mem_append, List.mem_flatMap]
    refine h.imp (fun ⟨s, hs, hp⟩ => hp ▸ hs) fun ⟨item, hitem, hp⟩ => ⟨item, hitem, ?_⟩
    simp only [List.mem_cons, List.not_mem_nil, or_false] at hp ⊢
    exact hp.imp (congrArg Prod.snd) (congrArg Prod.snd)
  | stepList title steps =>
    rw [enclosed, List.mem_append, List.mem_map, List.mem_flatMap] at h
    rw [strings, List.mem_append, List.mem_flatMap]
    refine h.imp (fun ⟨s, hs, hp⟩ => hp ▸ hs) fun ⟨step, hstep, hp⟩ => ⟨step, hstep, ?_⟩
    simp only [List.mem_cons, List.not_mem_nil, or_false] at hp ⊢
    exact hp.imp (congrArg Prod.snd) (congrArg Prod.snd)
  | code value label =>
    rw [enclosed, List.mem_append, List.mem_map, List.mem_singleton] at h
    rw [strings, List.mem_cons]
    exact h.symm.imp (congrArg Prod.snd) fun ⟨s, hs, hp⟩ => hp ▸ hs
  | greeting | image | divider | spacer | customHtml => cases h

theorem tabled_of_strings (h : ∀ s ∈ content.strings, Inner s.toList) : content.Tabled Inner :=
  fun p hp _ => h p.2 (mem_strings_of_mem_enclosed hp)

end Block.Content

namespace Source

open EmailTemplates.Text (Slice byteLength isBlank)
open Markup (text line element container fixed authored tagOf)
open Segment (IsTag)
open Shape
open Outcome

variable {cs ds : List Char}

def NoAnchor (cs : List Char) : Prop :=
  ∀ u v, cs = u ++ '<' :: 'a' :: v → ∃ c ∈ v.head?, Text.isWord c = true

theorem noAnchor_of_not_mem (h : '<' ∉ cs) : NoAnchor cs := by
  rintro u v rfl
  simp at h

theorem NoAnchor.of_append (h : NoAnchor (cs ++ ds)) : NoAnchor ds := by
  rintro u v rfl
  exact h (cs ++ u) v (List.append_assoc cs u _).symm

theorem NoAnchor.append (hcs : NoAnchor cs) (hds : NoAnchor ds)
    (hseam : cs.getLast? ≠ some '<' ∨ ds.head? ≠ some 'a') : NoAnchor (cs ++ ds) := by
  intro u v huv
  rcases List.append_eq_append_iff.mp huv with ⟨w, -, hw⟩ | ⟨w, hu, hw⟩
  · exact hds w v hw
  · match w, hu, hw with
    | [], hu, hw => exact hds [] v hw.symm
    | [c], hu, hw =>
      obtain ⟨hc, hd⟩ : '<' = c ∧ 'a' :: v = ds := List.cons.inj hw
      have hlast : cs.getLast? = some '<' := by rw [hu, ← hc, List.getLast?_concat]
      have hhead : ds.head? = some 'a' := by rw [← hd, List.head?_cons]
      rcases hseam with h | h
      · exact absurd hlast h
      · exact absurd hhead h
    | c :: d :: w, hu, hw =>
      obtain ⟨hc, hw⟩ : '<' = c ∧ 'a' :: v = d :: (w ++ ds) := List.cons.inj hw
      obtain ⟨hd, hv⟩ := List.cons.inj hw
      obtain ⟨x, hx, hword⟩ := hcs u w (by rw [hu, ← hc, ← hd])
      refine ⟨x, ?_, hword⟩
      rw [hv, List.head?_append, hx]
      rfl

theorem openingOf_eq_none_of_noAnchor (h : NoAnchor cs) (n : Nat) :
    openingOf "a" ⟨n, cs⟩ = none := by
  have hopen : ("<" ++ "a" : String).toList = ['<', 'a'] := rfl
  rw [openingOf]
  by_cases hp : ("<" ++ "a" : String).toList <+: cs
  · obtain ⟨v, rfl⟩ := hp
    obtain ⟨c, hc, hword⟩ := h [] v (by rw [hopen]; rfl)
    obtain ⟨v, rfl⟩ := List.head?_eq_some_iff.mp hc
    rw [Slice.expectText_append]
    simp [Tag.endsName, hword]
  · rw [Slice.expectText_eq_none hp]
    rfl

theorem find_anchor_eq_none (h : NoAnchor cs) (n : Nat) :
    Slice.find (elementOf "a") ⟨n, cs⟩ = none := by
  refine Slice.find_eq_none (Slice.passes_of_forall fun u v huv _ k => ?_) n fun _ => rfl
  have hv : NoAnchor (v ++ []) := by
    rw [List.append_nil]
    exact (huv ▸ h).of_append
  rw [elementOf, openingOf_eq_none_of_noAnchor hv]
  rfl

theorem button?_eq_none_of_noAnchor (h : NoAnchor cs) (scheme : ColorScheme) :
    button? scheme cs = none := by
  rw [button?, find_anchor_eq_none h]
  rfl

structure IsFrame (name : String) (attributes : List Attribute) : Prop
    extends IsOpening name attributes where
  head : name.toList.head? ≠ some 'a'
  noAngle : '<' ∉ tagOf attributes

theorem isFrame {name : String} {attributes : List Attribute}
    (ht : name ∈ ["table", "tr", "td", "p", "div"]) (ha : ∀ a ∈ attributes, a.Tame) :
    IsFrame name attributes := by
  have hnames : ∀ name ∈ ["table", "tr", "td", "p", "div"], Tag.isTagName name.toList = true ∧
      name.toList.map Char.toLower = name.toList ∧ name.toList.head? ≠ some 'a' := by decide
  obtain ⟨hname, hlower, hhead⟩ := hnames name ht
  have hwritable : ∀ a ∈ attributes, a.Writable := fun a hmem => (ha a hmem).writable
  exact ⟨⟨⟨hname, hlower⟩, hwritable⟩, hhead,
    not_mem_tagOf hwritable fun a hmem => (ha a hmem).noAngle⟩

theorem isFrame_style {name : String} (ht : name ∈ ["table", "tr", "td", "p", "div"]) {s : Style}
    (hs : s.Plain) : IsFrame name [.style s] :=
  isFrame ht (List.forall_mem_singleton.mpr (Attribute.tame_style hs))

namespace IsFrame

variable {name : String} {attributes : List Attribute} {content : Markup}

theorem not_mem (h : IsFrame name attributes) : '<' ∉ name.toList :=
  Tag.not_mem_of_alphanum (by decide) h.tag.isAlphanum

theorem ne_nil (h : IsFrame name attributes) : name.toList ≠ [] := by
  intro hnil
  have hname := h.tag.name
  rw [hnil] at hname
  cases hname

theorem noAnchor_written (h : IsFrame name attributes) {inside : List Char} (hi : '<' ∉ inside)
    (closing : Bool) : NoAnchor (Tag.written closing name.toList inside) := by
  have hangle : NoAnchor ['<'] := by
    intro u v huv
    have hlength := congrArg List.length huv
    simp only [List.length_append, List.length_cons, List.length_nil] at hlength
    omega
  have hchars : Tag.written closing name.toList inside =
      ['<'] ++ ((if closing then ['/'] else []) ++ (name.toList ++ (inside ++ ['>']))) := rfl
  rw [hchars]
  refine hangle.append (noAnchor_of_not_mem ?_) (.inr ?_)
  · cases closing <;> simp [h.not_mem, hi]
  · cases closing with
    | true => simp
    | false =>
      obtain ⟨c, t, ht⟩ := List.exists_cons_of_ne_nil h.ne_nil
      have hhead := h.head
      rw [ht] at hhead ⊢
      exact hhead

theorem noAnchor (h : IsFrame name attributes) (hc : NoAnchor (text content)) :
    NoAnchor (text (element name attributes content)) := by
  have hopening : Tag.written false name.toList (tagOf attributes) =
      '<' :: (name.toList ++ tagOf attributes) ++ ['>'] := by
    simp [Tag.written]
  rw [Markup.text_element]
  refine (h.noAnchor_written h.noAngle false).append
    (hc.append (h.noAnchor_written List.not_mem_nil true) (.inr ?_)) (.inl ?_)
  · simp [Tag.written]
  · rw [hopening, List.getLast?_concat]
    decide

end IsFrame

theorem noAnchor_line {m : Markup} (h : NoAnchor (text m)) : NoAnchor (text (line m)) := by
  rw [Markup.text_line]
  exact h.append (noAnchor_of_not_mem (by decide)) (.inr (by decide))

theorem InLines.noAnchor_append {m n : Markup} (hl : InLines m) (hm : NoAnchor (text m))
    (hn : NoAnchor (text n)) : NoAnchor (text (m ++ n)) := by
  rw [Markup.text_append]
  rcases hl with hnil | ⟨cs, hcs⟩
  · rwa [hnil, List.nil_append]
  · refine hm.append hn (.inl ?_)
    rw [hcs, List.getLast?_concat]
    decide

theorem noAnchor_lines {m : Markup} (h : NoAnchor (text m)) :
    NoAnchor (text (fixed "\n" ++ m)) := by
  have hbreak : text (fixed "\n") = ['\n'] := Markup.text_fixed "\n"
  refine InLines.noAnchor_append (.inr ⟨[], hbreak⟩) ?_ h
  rw [hbreak]
  exact noAnchor_of_not_mem (by decide)

theorem LaidOut.noAnchor {m : Markup} (h : LaidOut IsFrame NoAnchor m) : NoAnchor (text m) := by
  induction h with
  | nil => exact noAnchor_of_not_mem List.not_mem_nil
  | append hm _ ihm ihn => exact hm.inLines.noAnchor_append ihm ihn
  | line hopen hinner => exact noAnchor_line (hopen.noAnchor hinner)
  | container hopen _ ih =>
    rw [Markup.container_eq]
    exact noAnchor_line (hopen.noAnchor (noAnchor_lines ih))

def IsTable (Inner : List Char → Prop) (core : Markup) : Prop :=
  ∃ attributes lines, IsFrame "table" attributes ∧ LaidOut IsFrame Inner lines ∧
    core = element "table" attributes (fixed "\n" ++ lines)

namespace IsTable

variable {core : Markup} {Inner Inner' : List Char → Prop}

theorem mono (h : IsTable Inner core) (hi : ∀ cs, Inner cs → Inner' cs) : IsTable Inner' core := by
  obtain ⟨attributes, lines, hframe, hlines, rfl⟩ := h
  exact ⟨attributes, lines, hframe, hlines.mono (fun _ _ hopen => hopen) hi, rfl⟩

theorem stands (h : IsTable (Contained "table".toList) core) : Stands core "table" := by
  obtain ⟨attributes, lines, hframe, hlines, rfl⟩ := h
  exact stands_element hframe.toIsOpening (by decide)
    (hlines.mono (fun _ _ hopen => hopen.toIsOpening) fun _ h => h).contained

theorem recognize_eq_none (h : IsTable NoAnchor core) (scheme : ColorScheme) :
    recognize scheme "table" (text core) = none := by
  obtain ⟨attributes, lines, hframe, hlines, rfl⟩ := h
  exact button?_eq_none_of_noAnchor (hframe.noAnchor (noAnchor_lines hlines.noAnchor)) scheme

end IsTable

section

open Fragment

variable {Inner : List Char → Prop} {palette : Palette} (hp : palette.Plain)

theorem isFrame_row : IsFrame "tr" [] :=
  isFrame (by decide) (by simp)

theorem isFrame_paddedCell : IsFrame "td" [.fixed "style" ("padding: " ++ spaceMd ++ ";")] :=
  isFrame (by decide) (List.forall_mem_singleton.mpr (Attribute.tame_size
    (plain_ofList _ (by decide)) (plain_ofList _ (by decide)) (plain_ofList _ (by decide))))

theorem isFrame_badgeCell : IsFrame "td" [.fixed "valign" "top", .fixed "width" "40",
    .fixed "style" ("padding: 0 0 " ++ spaceMd ++ ";")] := by
  refine isFrame (by decide) (List.forall_mem_cons.mpr ⟨Attribute.tame_valign,
    List.forall_mem_cons.mpr ⟨?_, List.forall_mem_singleton.mpr Attribute.tame_padding⟩⟩)
  exact Attribute.tame_fixed (by decide) (by decide) (plain_ofList _ (by decide))

theorem isFrame_stepCell : IsFrame "td"
    [.fixed "valign" "top", .fixed "style" ("padding: 0 0 " ++ spaceMd ++ ";")] :=
  isFrame (by decide) (List.forall_mem_cons.mpr
    ⟨Attribute.tame_valign, List.forall_mem_singleton.mpr Attribute.tame_padding⟩)

theorem isFrame_table {attributes : List Attribute} (ha : ∀ a ∈ attributes, a.Tame) :
    IsFrame "table" (Attribute.presentation ++ (.fixed "width" "100%" :: attributes)) :=
  isFrame (by decide) (List.forall_mem_append.mpr
    ⟨Attribute.tame_presentation, List.forall_mem_cons.mpr ⟨Attribute.tame_width, ha⟩⟩)

theorem laidOut_title {s : Option String} {style : Style} (hs : style.Plain)
    (ht : ∀ t ∈ s, Inner t.toList) :
    LaidOut IsFrame Inner (s.toList.flatMap fun t => line (element "p" [.style style] (authored t))) :=
  .flatMap fun t hmem =>
    laidOut_authored (isFrame_style (by decide) hs) (ht t (Option.mem_toList.mp hmem))

include hp

theorem isTable_infoBox {title : Option String} {items : List InfoItem} (own : Option ColorScheme)
    (h : (Block.Content.infoBox title items own).Tabled Inner) :
    ∃ core, infoBoxMarkup palette title items = line core ∧ IsTable Inner core := by
  obtain ⟨ht, hi⟩ := List.forall_mem_append.mp h
  have htitle : ∀ s ∈ title, Inner s.toList := fun s hs =>
    List.forall_mem_map.mp ht s (Option.mem_toList.mpr hs) rfl
  refine ⟨_, Markup.container_eq _ _ _, _, _,
    isFrame_table (List.forall_mem_singleton.mpr (Attribute.tame_style (plain_infoPanel hp))),
    .container isFrame_row (.container isFrame_paddedCell (.append
      (laidOut_title (plain_infoTitle hp) htitle)
      (.container (isFrame_table (by simp)) (.flatMap fun item hitem =>
        .container isFrame_row (.append ?_ ?_))))), rfl⟩
  · exact laidOut_authored (isFrame_style (by decide) plain_infoLabel)
      (hi ("table", item.label) (List.mem_flatMap.mpr ⟨item, hitem, by simp⟩) rfl)
  · exact laidOut_authored (isFrame_style (by decide) plain_infoValue)
      (hi ("table", item.value) (List.mem_flatMap.mpr ⟨item, hitem, by simp⟩) rfl)

theorem isTable_code {value : String} {label : Option String}
    (h : (Block.Content.code value label).Tabled Inner) :
    ∃ core, codeMarkup palette value label = line core ∧ IsTable Inner core := by
  obtain ⟨hl, hv⟩ := List.forall_mem_append.mp h
  have hlabel : ∀ s ∈ label, Inner s.toList := fun s hs =>
    List.forall_mem_map.mp hl s (Option.mem_toList.mpr hs) rfl
  have hcell : IsFrame "td"
      [.fixed "align" "center", .fixed "style" ("padding: " ++ spaceLg ++ ";")] := by
    refine isFrame (by decide) (List.forall_mem_cons.mpr ⟨?_, List.forall_mem_singleton.mpr ?_⟩)
    · exact Attribute.tame_fixed (by decide) (by decide) (plain_ofList _ (by decide))
    · exact Attribute.tame_size (plain_ofList _ (by decide)) (plain_ofList _ (by decide))
        (plain_ofList _ (by decide))
  exact ⟨_, Markup.container_eq _ _ _, _, _,
    isFrame_table (List.forall_mem_singleton.mpr (Attribute.tame_style (plain_codePanel hp))),
    .container isFrame_row (.container hcell (.append (laidOut_title plain_codeLabel hlabel)
      (laidOut_authored (isFrame_style (by decide) (plain_codeText hp))
        (List.forall_mem_singleton.mp hv rfl)))), rfl⟩

variable (hplain : ∀ cs : List Char, '<' ∉ cs → Inner cs)

include hplain

omit hp in
theorem inner_number (number : Nat) : Inner (text (fixed number.repr)) := by
  rw [Markup.text_fixed]
  exact hplain _ ((plain_repr number).not_mem (by decide))

theorem laidOut_stepRow {step : Step} (ht : Inner step.title.toList)
    (hd : Inner step.description.toList) (number : Nat) :
    LaidOut IsFrame Inner (stepRow palette number step) := by
  refine .container isFrame_row (.append
    (.container isFrame_badgeCell (.line (isFrame_style (by decide) (plain_stepBadge hp))
      (inner_number hplain number)))
    (.container isFrame_stepCell (.append
      (laidOut_authored (isFrame_style (by decide) plain_stepTitle) ht) ?_)))
  split
  · exact .nil
  · exact laidOut_authored (isFrame_style (by decide) plain_stepDescription) hd

theorem laidOut_stepRows {steps : List Step}
    (h : ∀ step ∈ steps, Inner step.title.toList ∧ Inner step.description.toList) (number : Nat) :
    LaidOut IsFrame Inner (stepRows palette number steps) := by
  induction steps generalizing number with
  | nil => exact .nil
  | cons step steps ih =>
    obtain ⟨⟨ht, hd⟩, hsteps⟩ := List.forall_mem_cons.mp h
    exact .append (laidOut_stepRow hp hplain ht hd number) (ih hsteps (number + 1))

end

section

open Fragment

structure Unseen (cs : List Char) : Prop where
  passes : ∀ rest, Slice.Passes (elementOf "a") cs rest
  withoutTags : ∃ n, ∀ rest,
    withoutTags (cs ++ rest) = List.replicate n '\n' ++ withoutTags rest

theorem unseen_nil : Unseen [] where
  passes _ := trivial
  withoutTags := ⟨0, fun _ => rfl⟩

theorem unseen_break : Unseen ['\n'] where
  passes _ := passes_break trivial
  withoutTags := ⟨1, fun rest => withoutTags_cons (by decide) rest⟩

theorem Unseen.append (hcs : Unseen cs) (hds : Unseen ds) : Unseen (cs ++ ds) where
  passes rest := Slice.passes_append.mpr ⟨hcs.passes _, hds.passes rest⟩
  withoutTags := by
    obtain ⟨m, hm⟩ := hcs.withoutTags
    obtain ⟨n, hn⟩ := hds.withoutTags
    refine ⟨m + n, fun rest => ?_⟩
    rw [List.append_assoc, hm, hn, List.replicate_add, List.append_assoc]

theorem IsFrame.unseen {name : String} {attributes : List Attribute}
    (h : IsFrame name attributes) :
    Unseen (Tag.written false name.toList (tagOf attributes)) where
  passes rest := by
    obtain ⟨c, t, ht⟩ := List.exists_cons_of_ne_nil h.ne_nil
    have hc : c ≠ 'a' := by
      have hhead := h.head
      rw [ht] at hhead
      exact fun hc => hhead (congrArg some hc)
    refine passes_written ?_ h.not_mem h.noAngle
    simp [Tag.written, ht, Ne.symm hc]
  withoutTags := by
    have hname : '>' ∉ name.toList := Tag.not_mem_of_alphanum (by decide) h.tag.isAlphanum
    exact ⟨0, fun rest => withoutTags_written h.ne_nil hname
      (Attribute.isInside_tagOf h.writable).noAngle false rest⟩

theorem withoutSpaces_cons {c : Char} (hc : c ≠ '&') (cs : List Char) :
    withoutSpaces (c :: cs) = c :: withoutSpaces cs := by
  rw [withoutSpaces]
  exact fun _ h => absurd h hc

theorem withoutSpaces_replicate (n : Nat) (cs : List Char) :
    withoutSpaces (List.replicate n '\n' ++ cs) = List.replicate n '\n' ++ withoutSpaces cs := by
  induction n with
  | zero => rfl
  | succ n ih =>
    rw [List.replicate_succ, List.cons_append, withoutSpaces_cons (by decide), ih, List.cons_append]

def Shows (cs : List Char) : Prop :=
  ∃ before c after, Unseen before ∧ c ≠ '<' ∧ c ≠ '&' ∧ isBlank c = false ∧
    cs = before ++ c :: after

theorem Shows.append (h : Shows cs) (ds : List Char) : Shows (cs ++ ds) := by
  obtain ⟨before, c, after, hunseen, hangle, hspace, hblank, rfl⟩ := h
  exact ⟨before, c, after ++ ds, hunseen, hangle, hspace, hblank, by simp⟩

theorem Unseen.append_shows (h : Unseen cs) (hds : Shows ds) : Shows (cs ++ ds) := by
  obtain ⟨before, c, after, hunseen, hangle, hspace, hblank, rfl⟩ := hds
  exact ⟨cs ++ before, c, after, h.append hunseen, hangle, hspace, hblank, by simp⟩

theorem Shows.element {name : String} {attributes : List Attribute} {content : Markup}
    (h : Shows (text content)) (hf : IsFrame name attributes) :
    Shows (text (Markup.element name attributes content)) := by
  rw [Markup.text_element]
  exact hf.unseen.append_shows (h.append _)

theorem Shows.container {name : String} {attributes : List Attribute} {lines : Markup}
    (h : Shows (text lines)) (hf : IsFrame name attributes) :
    Shows (text (Markup.container name attributes lines)) := by
  have hlines : Shows (text (fixed "\n" ++ lines)) := by
    rw [Markup.text_append, Markup.text_fixed]
    exact unseen_break.append_shows h
  rw [Markup.container_eq, Markup.text_line]
  exact (hlines.element hf).append _

theorem button?_eq_none_of_shows (h : Shows cs) (scheme : ColorScheme) :
    button? scheme cs = none := by
  obtain ⟨before, c, after, hunseen, hangle, hspace, hblank, rfl⟩ := h
  have hpasses : Slice.Passes (elementOf "a") (before ++ [c]) after :=
    Slice.passes_append.mpr ⟨hunseen.passes _,
      fun n => elementOf_eq_none (by simp [hangle.symm]) n, trivial⟩
  have hchars : before ++ c :: after = (before ++ [c]) ++ after := by simp
  cases hfind : Slice.find (elementOf "a") ⟨0, before ++ c :: after⟩ with
  | none =>
    rw [button?, hfind]
    rfl
  | some found =>
    obtain ⟨start, ⟨attributes, content⟩, rest⟩ := found
    -- what is before the anchor holds the character
    have hlater := hfind
    rw [hchars, Slice.find_append hpasses] at hlater
    obtain ⟨u, hu, -⟩ := ((leavesEnd_elementOf "a").find hlater).1
    have hend := ((leavesEnd_elementOf "a").find hfind).1.chars_before
    have hbefore : ((⟨0, before ++ c :: after⟩ : Slice).before start).chars = before ++ c :: u := by
      refine @List.append_cancel_right _ _ start.chars _ (hend.symm.trans ?_)
      have hafter : after = u ++ start.chars := hu
      rw [hafter, List.append_assoc, List.cons_append]
    have hseen : (withoutSpaces (withoutTags (before ++ c :: u ++ rest.chars))).all isBlank =
        false := by
      obtain ⟨n, hn⟩ := hunseen.withoutTags
      rw [List.append_assoc, List.cons_append, hn, withoutTags_cons hangle, withoutSpaces_replicate,
        withoutSpaces_cons hspace]
      simp [hblank]
    rw [button?, hfind]
    simp only [Option.bind_eq_bind, Option.bind_some, hbefore, hseen, Bool.not_false, if_true]
    split <;> rfl

variable {Inner : List Char → Prop} {palette : Palette} (hp : palette.Plain)

include hp

theorem isTable_stepList {title : Option String} {steps : List Step} (hne : steps ≠ [])
    (hplain : ∀ cs : List Char, '<' ∉ cs → Inner cs)
    (h : (Block.Content.stepList title steps).Tabled Inner) :
    ∃ core, stepListMarkup palette title steps =
        (title.toList.map fun s => element "p" [.style stepListTitle] (authored s)).flatMap line ++
          line core ∧ IsTable Inner core ∧
      ∀ scheme, recognize scheme "table" (text core) = none := by
  have hsteps : ∀ step ∈ steps, Inner step.title.toList ∧ Inner step.description.toList := by
    have htexts := (List.forall_mem_append.mp h).2
    exact fun step hstep =>
      ⟨htexts ("table", step.title) (List.mem_flatMap.mpr ⟨step, hstep, by simp⟩) rfl,
        htexts ("table", step.description) (List.mem_flatMap.mpr ⟨step, hstep, by simp⟩) rfl⟩
  have hmargin : (Attribute.fixed "style" ("margin: 0 0 " ++ spaceLg ++ ";")).Tame :=
    Attribute.tame_size (plain_ofList _ (by decide)) (plain_ofList _ (by decide))
      (plain_ofList _ (by decide))
  have htable := isFrame_table (List.forall_mem_singleton.mpr hmargin)
  refine ⟨_, congrArg₂ (· ++ ·) (List.flatMap_map ..).symm (Markup.container_eq _ _ _),
    ⟨_, _, htable, laidOut_stepRows hp hplain hsteps 1, rfl⟩, fun scheme => ?_⟩
  obtain ⟨step, steps, rfl⟩ := List.exists_cons_of_ne_nil hne
  have hone : Shows (text (fixed (1 : Nat).repr)) :=
    ⟨[], '1', [], unseen_nil, by decide, by decide, by decide, Markup.text_fixed _⟩
  have hbadge : Shows (text (line (element "div" [.style (stepBadge palette)]
      (fixed (1 : Nat).repr)))) := by
    rw [Markup.text_line]
    exact (hone.element (isFrame_style (by decide) (plain_stepBadge hp))).append _
  have hrow : Shows (text (stepRow palette 1 step)) := by
    refine Shows.container ?_ isFrame_row
    rw [Markup.text_append]
    exact (hbadge.container isFrame_badgeCell).append _
  refine button?_eq_none_of_shows (Shows.element ?_ htable) scheme
  rw [Markup.text_append, Markup.text_fixed, stepRows, Markup.text_append]
  exact unseen_break.append_shows (hrow.append _)

end

end Source

end EmailTemplates
