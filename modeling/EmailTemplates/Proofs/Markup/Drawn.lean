import EmailTemplates.Proofs.Markup.Draws
import EmailTemplates.Proofs.Text.Plain
import EmailTemplates.Proofs.Variable.Names

namespace EmailTemplates

open Text (Plain plain_ofList plain_append plain_repr)

def Markup.elementTags : List String :=
  ["html", "head", "title", "body", "table", "tr", "td", "div", "p", "a", "h1", "h2", "h3", "ul",
   "ol", "li"]

theorem Markup.plain_of_mem_elementTags : ∀ tag ∈ elementTags, Plain tag := by
  unfold Plain
  decide

inductive Attribute.Drawn (Loose : Markup → Prop) : Attribute → Prop
  | fixed {name value : String} : Plain name → Plain value → Drawn Loose (.fixed name value)
  | reference {name url : String} : Plain name → Variable.isValidName url = true →
      Drawn Loose ⟨name, .reference url⟩
  | loose {name : String} {value : Markup} : Plain name → Loose value → Drawn Loose ⟨name, value⟩

inductive Markup.Drawn (Loose : Markup → Prop) : Markup → Prop
  | nil : Drawn Loose []
  | append {m n : Markup} : Drawn Loose m → Drawn Loose n → Drawn Loose (m ++ n)
  | fixed {s : String} : Plain s → Drawn Loose (fixed s)
  | newline : Drawn Loose (fixed "\n")
  | reference {name : String} : Variable.isValidName name = true → Drawn Loose (reference name)
  | looseLine {m : Markup} : Loose m → Drawn Loose (line m)
  | void {tag : String} {attributes : List Attribute} : tag ∈ ["meta", "img", "hr"] →
      (∀ a ∈ attributes, a.Drawn Loose) → Drawn Loose (opening tag attributes)
  | loose {tag : String} {attributes : List Attribute} {content : Markup} :
      tag ∈ elementTags →
      (∀ a ∈ attributes, a.Drawn Loose) → Loose content →
      Drawn Loose (element tag attributes content)
  | element {tag : String} {attributes : List Attribute} {content : Markup} :
      tag ∈ elementTags →
      (∀ a ∈ attributes, a.Drawn Loose) → Drawn Loose content →
      Drawn Loose (element tag attributes content)

namespace Attribute

variable {Loose : Markup → Prop}

theorem drawn_style {s : Style} (h : s.Plain) : (style s).Drawn Loose :=
  .fixed (plain_ofList _ (by decide)) h.text

theorem drawn_presentation : ∀ a ∈ presentation, a.Drawn Loose := by
  intro a ha
  simp only [presentation, List.mem_cons, List.not_mem_nil, or_false] at ha
  rcases ha with rfl | rfl | rfl | rfl <;>
    exact .fixed (plain_ofList _ (by decide)) (plain_ofList _ (by decide))

end Attribute

namespace Markup

open Attribute

variable {Loose : Markup → Prop}

theorem Drawn.line {m : Markup} (h : Drawn Loose m) : Drawn Loose (Markup.line m) :=
  .append h .newline

theorem Drawn.flatMap {α : Type} {f : α → Markup} {xs : List α}
    (h : ∀ x ∈ xs, Drawn Loose (f x)) : Drawn Loose (xs.flatMap f) := by
  induction xs with
  | nil => exact .nil
  | cons x xs ih =>
    obtain ⟨hx, hxs⟩ := List.forall_mem_cons.mp h
    exact .append hx (ih hxs)

theorem Drawn.flatten {ms : List Markup} (h : ∀ m ∈ ms, Drawn Loose m) :
    Drawn Loose ms.flatten := by
  rw [← List.flatMap_id]
  exact .flatMap h

theorem authored_append_newline (s : String) :
    authored (s ++ "\n") = Markup.line (authored s) := by
  rw [authored, String.toList_append]
  exact (Token.pieces_append_of_breaks (by decide) s.toList []).trans
    (congrArg _ Token.pieces_newline)

theorem container_eq (tag : String) (attributes : List Attribute) (lines : Markup) :
    container tag attributes lines =
      Markup.line (Markup.element tag attributes (Markup.fixed "\n" ++ lines)) := by
  simp [container, Markup.element, Markup.line, List.append_assoc]

theorem Drawn.container {tag : String} {attributes : List Attribute} {lines : Markup}
    (ht : tag ∈ elementTags) (ha : ∀ a ∈ attributes, a.Drawn Loose) (h : Drawn Loose lines) :
    Drawn Loose (Markup.container tag attributes lines) := by
  rw [container_eq]
  exact .line (.element ht ha (.append .newline h))

end Markup

inductive Markup.Inline (Loose : Markup → Prop) : Markup → Prop
  | append {m n : Markup} : Inline Loose m → Inline Loose n → Inline Loose (m ++ n)
  | fixed {s : String} : Plain s → Inline Loose (fixed s)
  | reference {name : String} : Variable.isValidName name = true → Inline Loose (reference name)
  | loose {tag : String} {attributes : List Attribute} {content : Markup} :
      tag ∈ elementTags →
      (∀ a ∈ attributes, a.Drawn Loose) → Loose content →
      Inline Loose (element tag attributes content)

inductive Markup.Lined (Loose : Markup → Prop) : Markup → Prop
  | nil : Lined Loose []
  | append {m n : Markup} : Lined Loose m → Lined Loose n → Lined Loose (m ++ n)
  | looseLine {m : Markup} : Loose m → Lined Loose (line m)
  | void {tag : String} {attributes : List Attribute} : tag ∈ ["meta", "img", "hr"] →
      (∀ a ∈ attributes, a.Drawn Loose) → Lined Loose (line (opening tag attributes))
  | loose {tag : String} {attributes : List Attribute} {content : Markup} :
      tag ∈ elementTags →
      (∀ a ∈ attributes, a.Drawn Loose) → Loose content →
      Lined Loose (line (element tag attributes content))
  | element {tag : String} {attributes : List Attribute} {content : Markup} :
      tag ∈ elementTags →
      (∀ a ∈ attributes, a.Drawn Loose) → Inline Loose content →
      Lined Loose (line (element tag attributes content))
  | container {tag : String} {attributes : List Attribute} {lines : Markup} :
      tag ∈ elementTags →
      (∀ a ∈ attributes, a.Drawn Loose) → Lined Loose lines →
      Lined Loose (container tag attributes lines)

namespace Markup

variable {Loose : Markup → Prop} {m : Markup}

theorem Inline.drawn (h : Inline Loose m) : Drawn Loose m := by
  induction h with
  | append _ _ hm hn => exact .append hm hn
  | fixed hs => exact .fixed hs
  | reference hn => exact .reference hn
  | loose ht ha hl => exact .loose ht ha hl

theorem Lined.drawn (h : Lined Loose m) : Drawn Loose m := by
  induction h with
  | nil => exact .nil
  | append _ _ hm hn => exact .append hm hn
  | looseLine hl => exact .looseLine hl
  | void ht ha => exact .line (.void ht ha)
  | loose ht ha hl => exact .line (.loose ht ha hl)
  | element ht ha hi => exact .line (.element ht ha hi.drawn)
  | container ht ha _ hl => exact .container ht ha hl

theorem Lined.flatMap {α : Type} {f : α → Markup} {xs : List α}
    (h : ∀ x ∈ xs, Lined Loose (f x)) : Lined Loose (xs.flatMap f) := by
  induction xs with
  | nil => exact .nil
  | cons x xs ih =>
    obtain ⟨hx, hxs⟩ := List.forall_mem_cons.mp h
    exact .append hx (ih hxs)

end Markup

namespace Fragment

open Markup Attribute Design

variable {Loose : Markup → Prop}

theorem lined_greeting {name : String} (h : Variable.isValidName name = true) :
    Lined Loose (greetingMarkup name) := by
  refine .element (by decide) ?_ (.append (.append ?_ ?_) ?_)
  · exact List.forall_mem_singleton.mpr (drawn_style Style.plain_bodyText)
  · exact .fixed (plain_ofList _ (by decide))
  · exact .reference h
  · exact .fixed (plain_ofList _ (by decide))

theorem lined_paragraph {text : String} (h : Loose (authored text)) :
    Lined Loose (paragraphMarkup text) := by
  refine .loose (by decide) ?_ h
  exact List.forall_mem_singleton.mpr (drawn_style Style.plain_bodyText)

theorem plain_infoCell : infoCell.Plain := by
  simp only [infoCell, Style.plain_prop, Style.plain_empty, true_and, and_true, plain_fontFamily, plain_append]
  and_intros <;> exact plain_ofList _ (by decide)

theorem plain_infoLabel : infoLabel.Plain := by
  simp only [infoLabel, Style.plain_prop]
  exact ⟨plain_infoCell, plain_ofList _ (by decide), plain_ofList _ (by decide)⟩

theorem plain_infoValue : infoValue.Plain := by
  simp only [infoValue, Style.plain_prop]
  and_intros <;> first | exact plain_infoCell | exact plain_ofList _ (by decide)

theorem lined_infoRow {item : InfoItem} (hl : Loose (authored item.label))
    (hv : Loose (authored item.value)) : Lined Loose (infoRow item) := by
  refine .container (by decide) (by simp) (.append ?_ ?_)
  · refine .loose (by decide) ?_ hl
    exact List.forall_mem_singleton.mpr (drawn_style plain_infoLabel)
  · refine .loose (by decide) ?_ hv
    exact List.forall_mem_singleton.mpr (drawn_style plain_infoValue)

theorem plain_infoPanel {palette : Palette} (hp : palette.Plain) : (infoPanel palette).Plain := by
  simp only [infoPanel, Style.plain_prop, Style.plain_empty, true_and, plain_append]
  and_intros <;> first
    | exact hp.light | exact hp.border | exact hp.primary | exact plain_ofList _ (by decide)

theorem plain_infoTitle {palette : Palette} (hp : palette.Plain) : (infoTitle palette).Plain := by
  simp only [infoTitle, Style.plain_prop, Style.plain_empty, true_and, and_true, plain_fontFamily, plain_append]
  and_intros <;> first | exact hp.text | exact plain_ofList _ (by decide)

theorem drawn_width : (Attribute.fixed "width" "100%").Drawn Loose :=
  .fixed (plain_ofList _ (by decide)) (plain_ofList _ (by decide))

theorem lined_infoBox {palette : Palette} (hp : palette.Plain) {title : Option String}
    {items : List InfoItem} (ht : ∀ s ∈ title, Loose (authored s))
    (hi : ∀ item ∈ items, Loose (authored item.label) ∧ Loose (authored item.value)) :
    Lined Loose (infoBoxMarkup palette title items) := by
  refine .container (by decide) ?_ (.container (by decide) (by simp)
    (.container (by decide) ?_ (.append (.flatMap ?_)
      (.container (by decide) ?_ (.flatMap ?_)))))
  · refine List.forall_mem_append.mpr ⟨drawn_presentation, ?_⟩
    exact List.forall_mem_cons.mpr
      ⟨drawn_width, List.forall_mem_singleton.mpr (drawn_style (plain_infoPanel hp))⟩
  · refine List.forall_mem_singleton.mpr (.fixed (plain_ofList _ (by decide)) ?_)
    simp only [plain_append]
    and_intros <;> exact plain_ofList _ (by decide)
  · intro s hs
    refine .loose (by decide) ?_ (ht s (Option.mem_toList.mp hs))
    exact List.forall_mem_singleton.mpr (drawn_style (plain_infoTitle hp))
  · exact List.forall_mem_append.mpr
      ⟨drawn_presentation, List.forall_mem_singleton.mpr drawn_width⟩
  · intro item hitem
    exact lined_infoRow (hi item hitem).1 (hi item hitem).2

theorem drawn_anchorAttributes {url : String} {s : Style} (hu : Variable.isValidName url = true)
    (hs : s.Plain) : ∀ a ∈
      [(⟨"href", Markup.reference url⟩ : Attribute), .fixed "target" "_blank", style s],
      a.Drawn Loose := by
  refine List.forall_mem_cons.mpr ⟨.reference (plain_ofList _ (by decide)) hu, ?_⟩
  refine List.forall_mem_cons.mpr ⟨?_, List.forall_mem_singleton.mpr (drawn_style hs)⟩
  exact .fixed (plain_ofList _ (by decide)) (plain_ofList _ (by decide))

theorem inline_anchor {url text : String} {s : Style} (hu : Variable.isValidName url = true)
    (hs : s.Plain) (ht : Loose (authored text)) : Inline Loose (anchor url s text) :=
  .loose (by decide) (drawn_anchorAttributes hu hs) ht

theorem lined_anchor {url text : String} {s : Style} (hu : Variable.isValidName url = true)
    (hs : s.Plain) (ht : Loose (authored text)) : Lined Loose (line (anchor url s text)) :=
  .loose (by decide) (drawn_anchorAttributes hu hs) ht

theorem plain_buttonAnchor {palette : Palette} (hp : palette.Plain) :
    (buttonAnchor palette).Plain := by
  simp only [buttonAnchor, Style.plain_prop, Style.plain_empty, true_and, and_true, plain_fontFamily, plain_append]
  and_intros <;> first | exact hp.primaryDark | exact plain_ofList _ (by decide)

theorem lined_button {palette : Palette} (hp : palette.Plain) {label url : String}
    (hl : Loose (authored label)) (hu : Variable.isValidName url = true) :
    Lined Loose (buttonMarkup palette label url) := by
  refine .container (by decide) ?_ (.container (by decide) (by simp)
    (.container (by decide) ?_ (lined_anchor hu (plain_buttonAnchor hp) hl)))
  · refine List.forall_mem_append.mpr ⟨drawn_presentation, List.forall_mem_singleton.mpr ?_⟩
    refine .fixed (plain_ofList _ (by decide)) ?_
    simp only [plain_append]
    and_intros <;> exact plain_ofList _ (by decide)
  · refine List.forall_mem_cons.mpr ⟨.fixed (plain_ofList _ (by decide)) (plain_ofList _ (by decide)), ?_⟩
    refine List.forall_mem_cons.mpr ⟨.fixed (plain_ofList _ (by decide)) hp.primary, ?_⟩
    refine List.forall_mem_singleton.mpr (.fixed (plain_ofList _ (by decide)) ?_)
    simp only [plain_append]
    and_intros <;> exact plain_ofList _ (by decide)

theorem plain_stepListTitle : stepListTitle.Plain := by
  simp only [stepListTitle, Style.plain_prop, Style.plain_empty, true_and, and_true, plain_fontFamily, plain_append]
  and_intros <;> exact plain_ofList _ (by decide)

theorem plain_stepBadge {palette : Palette} (hp : palette.Plain) : (stepBadge palette).Plain := by
  simp only [stepBadge, Style.plain_prop, Style.plain_empty, true_and, and_true, plain_fontFamily]
  and_intros <;> first | exact hp.primary | exact plain_ofList _ (by decide)

theorem plain_stepTitle : stepTitle.Plain := by
  simp only [stepTitle, Style.plain_prop, Style.plain_empty, true_and, and_true, plain_fontFamily]
  and_intros <;> exact plain_ofList _ (by decide)

theorem plain_stepDescription : stepDescription.Plain := by
  simp only [stepDescription, Style.plain_prop, plain_append]
  and_intros <;> first | exact Style.plain_mutedText | exact plain_ofList _ (by decide)

theorem drawn_stepPadding :
    (Attribute.fixed "style" ("padding: 0 0 " ++ spaceMd ++ ";")).Drawn Loose := by
  refine .fixed (plain_ofList _ (by decide)) ?_
  simp only [plain_append]
  and_intros <;> exact plain_ofList _ (by decide)

theorem drawn_valign : (Attribute.fixed "valign" "top").Drawn Loose :=
  .fixed (plain_ofList _ (by decide)) (plain_ofList _ (by decide))

theorem lined_stepRow {palette : Palette} (hp : palette.Plain) (number : Nat) {step : Step}
    (ht : Loose (authored step.title)) (hd : Loose (authored step.description)) :
    Lined Loose (stepRow palette number step) := by
  refine .container (by decide) (by simp) (.append
    (.container (by decide) ?_ (.element (by decide) ?_
      (.fixed (plain_repr number))))
    (.container (by decide) ?_ (.append ?_ ?_)))
  · refine List.forall_mem_cons.mpr ⟨drawn_valign, List.forall_mem_cons.mpr ⟨?_, ?_⟩⟩
    · exact .fixed (plain_ofList _ (by decide)) (plain_ofList _ (by decide))
    · exact List.forall_mem_singleton.mpr drawn_stepPadding
  · exact List.forall_mem_singleton.mpr (drawn_style (plain_stepBadge hp))
  · exact List.forall_mem_cons.mpr ⟨drawn_valign, List.forall_mem_singleton.mpr drawn_stepPadding⟩
  · refine .loose (by decide) ?_ ht
    exact List.forall_mem_singleton.mpr (drawn_style plain_stepTitle)
  · split
    · exact .nil
    · refine .loose (by decide) ?_ hd
      exact List.forall_mem_singleton.mpr (drawn_style plain_stepDescription)

theorem lined_stepRows {palette : Palette} (hp : palette.Plain) (number : Nat) {steps : List Step}
    (h : ∀ step ∈ steps, Loose (authored step.title) ∧ Loose (authored step.description)) :
    Lined Loose (stepRows palette number steps) := by
  induction steps generalizing number with
  | nil => exact .nil
  | cons step steps ih =>
    obtain ⟨⟨ht, hd⟩, hs⟩ := List.forall_mem_cons.mp h
    exact .append (lined_stepRow hp number ht hd) (ih (number + 1) hs)

theorem lined_stepList {palette : Palette} (hp : palette.Plain) {title : Option String}
    {steps : List Step} (ht : ∀ s ∈ title, Loose (authored s))
    (hs : ∀ step ∈ steps, Loose (authored step.title) ∧ Loose (authored step.description)) :
    Lined Loose (stepListMarkup palette title steps) := by
  refine .append (.flatMap ?_) (.container (by decide) ?_ (lined_stepRows hp 1 hs))
  · intro s hmem
    refine .loose (by decide) ?_ (ht s (Option.mem_toList.mp hmem))
    exact List.forall_mem_singleton.mpr (drawn_style plain_stepListTitle)
  · refine List.forall_mem_append.mpr ⟨drawn_presentation, ?_⟩
    refine List.forall_mem_cons.mpr ⟨drawn_width, List.forall_mem_singleton.mpr ?_⟩
    refine .fixed (plain_ofList _ (by decide)) ?_
    simp only [plain_append]
    and_intros <;> exact plain_ofList _ (by decide)

theorem plain_codePanel {palette : Palette} (hp : palette.Plain) : (codePanel palette).Plain := by
  simp only [codePanel, Style.plain_prop, Style.plain_empty, true_and, plain_append]
  and_intros <;> first
    | exact hp.light | exact hp.border | exact plain_ofList _ (by decide)

theorem plain_codeText {palette : Palette} (hp : palette.Plain) : (codeText palette).Plain := by
  simp only [codeText, Style.plain_prop, Style.plain_empty, true_and, and_true, plain_monoFontFamily]
  and_intros <;> first | exact hp.text | exact plain_ofList _ (by decide)

theorem plain_codeLabel : codeLabel.Plain := by
  simp only [codeLabel, Style.plain_prop, plain_append]
  and_intros <;> first | exact Style.plain_mutedText | exact plain_ofList _ (by decide)

theorem lined_code {palette : Palette} (hp : palette.Plain) {value : String}
    {label : Option String} (hv : Loose (authored value)) (hl : ∀ s ∈ label, Loose (authored s)) :
    Lined Loose (codeMarkup palette value label) := by
  refine .container (by decide) ?_ (.container (by decide) (by simp)
    (.container (by decide) ?_ (.append (.flatMap ?_)
      (.loose (by decide) ?_ hv))))
  · refine List.forall_mem_append.mpr ⟨drawn_presentation, ?_⟩
    exact List.forall_mem_cons.mpr
      ⟨drawn_width, List.forall_mem_singleton.mpr (drawn_style (plain_codePanel hp))⟩
  · refine List.forall_mem_cons.mpr ⟨.fixed (plain_ofList _ (by decide)) (plain_ofList _ (by decide)), ?_⟩
    refine List.forall_mem_singleton.mpr (.fixed (plain_ofList _ (by decide)) ?_)
    simp only [plain_append]
    and_intros <;> exact plain_ofList _ (by decide)
  · intro s hmem
    refine .loose (by decide) ?_ (hl s (Option.mem_toList.mp hmem))
    exact List.forall_mem_singleton.mpr (drawn_style plain_codeLabel)
  · exact List.forall_mem_singleton.mpr (drawn_style (plain_codeText hp))

theorem plain_imageStyle : imageStyle.Plain := by
  simp only [imageStyle, Style.plain_prop, Style.plain_empty, true_and, plain_append]
  and_intros <;> exact plain_ofList _ (by decide)

theorem lined_image {contentId alt : String} {width : Option UInt32}
    (hc : Block.isContentId contentId = true) (ha : Loose (escaped alt)) :
    Lined Loose (imageMarkup contentId alt width) := by
  refine .void (by simp) ?_
  refine List.forall_mem_append.mpr ⟨List.forall_mem_append.mpr ⟨?_, ?_⟩, ?_⟩
  · refine List.forall_mem_cons.mpr ⟨.fixed (plain_ofList _ (by decide)) ?_, ?_⟩
    · exact plain_append.mpr ⟨plain_ofList _ (by decide), (Text.plain_contentId hc).escaped⟩
    · exact List.forall_mem_singleton.mpr (.loose (plain_ofList _ (by decide)) ha)
  · intro a hmem
    obtain ⟨width, _, rfl⟩ := List.mem_map.mp hmem
    exact .fixed (plain_ofList _ (by decide)) (plain_repr width.toNat)
  · exact List.forall_mem_singleton.mpr (drawn_style plain_imageStyle)

theorem plain_dividerStyle : dividerStyle.Plain := by
  simp only [dividerStyle, Style.plain_prop, Style.plain_empty, true_and, plain_append]
  and_intros <;> exact plain_ofList _ (by decide)

theorem lined_divider : Lined Loose Fragment.divider :=
  .void (by simp) (List.forall_mem_singleton.mpr (drawn_style plain_dividerStyle))

theorem plain_spacerStyle (height : UInt32) : (spacerStyle height).Plain := by
  simp only [spacerStyle, Style.plain_prop, Style.plain_empty, true_and, plain_append]
  and_intros <;> first | exact plain_ofList _ (by decide) | exact plain_repr _

theorem lined_spacer (height : UInt32) : Lined Loose (spacerMarkup height) := by
  refine .element (by decide) ?_ (.fixed (plain_ofList _ (by decide)))
  exact List.forall_mem_singleton.mpr (drawn_style (plain_spacerStyle height))

theorem plain_of_headingSize? {level : UInt8} {size : String} (h : headingSize? level = some size) :
    Plain size := by
  unfold headingSize? at h
  split at h <;> cases h <;> exact plain_ofList _ (by decide)

theorem plain_headingStyle {size : String} (hs : Plain size) : (headingStyle size).Plain := by
  simp only [headingStyle, Style.plain_prop, Style.plain_empty, true_and, and_true,
    plain_fontFamily, plain_append]
  and_intros <;> first | exact hs | exact plain_ofList _ (by decide)

theorem heading_mem_elementTags {level : UInt8} {size : String}
    (h : headingSize? level = some size) : "h" ++ level.toNat.repr ∈ elementTags := by
  unfold headingSize? at h
  split at h
  iterate 3
    rename_i hl
    rw [hl]
    decide
  cases h

theorem lined_heading {text size : String} {level : UInt8} (hs : headingSize? level = some size)
    (ht : Loose (authored text)) : Lined Loose (headingMarkup text level size) := by
  refine .loose (heading_mem_elementTags hs) (List.forall_mem_singleton.mpr (drawn_style ?_)) ht
  exact plain_headingStyle (plain_of_headingSize? hs)

theorem plain_listStyle : listStyle.Plain := by
  simp only [listStyle, Style.plain_prop, Style.plain_empty, true_and, and_true, plain_fontFamily, plain_append]
  and_intros <;> exact plain_ofList _ (by decide)

theorem plain_listItemStyle : listItemStyle.Plain := by
  simp only [listItemStyle, Style.plain_prop, Style.plain_empty, true_and, plain_append]
  and_intros <;> exact plain_ofList _ (by decide)

theorem lined_list {items : List String} {ordered : Bool}
    (h : ∀ item ∈ items, Loose (authored item)) : Lined Loose (listMarkup items ordered) := by
  refine .container ?_ (List.forall_mem_singleton.mpr (drawn_style plain_listStyle)) (.flatMap ?_)
  · cases ordered <;> decide
  · intro item hitem
    refine .loose (by decide) ?_ (h item hitem)
    exact List.forall_mem_singleton.mpr (drawn_style plain_listItemStyle)

theorem plain_linkStyle {palette : Palette} (hp : palette.Plain) : (linkStyle palette).Plain := by
  simp only [linkStyle, Style.plain_prop, Style.plain_empty, true_and]
  and_intros <;> first | exact hp.primary | exact plain_ofList _ (by decide)

theorem lined_link {palette : Palette} (hp : palette.Plain) {text url : String}
    (ht : Loose (authored text)) (hu : Variable.isValidName url = true) :
    Lined Loose (linkMarkup palette text url) := by
  refine .element (by decide) ?_ (inline_anchor hu (plain_linkStyle hp) ht)
  exact List.forall_mem_singleton.mpr (drawn_style Style.plain_bodyText)

theorem customHtml_eq_line (html : String) :
    ∃ body, Fragment.customHtml html = line (authored body) ∧
      (html = body ∨ html = body ++ "\n") := by
  unfold Fragment.customHtml
  split
  · rename_i h
    obtain ⟨cs, hcs⟩ := List.getLast?_eq_some_iff.mp h
    have hbody : html = .ofList cs ++ "\n" := by
      rw [← String.toList_inj, hcs, String.toList_append, String.toList_ofList]
      rfl
    refine ⟨.ofList cs, ?_, .inr hbody⟩
    rw [List.append_nil, hbody, authored_append_newline]
  · exact ⟨html, rfl, .inl rfl⟩

end Fragment

open Fragment Markup in
theorem Block.lined_of_draws {Loose : Markup → Prop} {scheme : ColorScheme}
    {content : Block.Content} {m : Markup} (h : Block.Draws scheme content m)
    (hcut : ∀ s, Loose (authored (s ++ "\n")) → Loose (authored s))
    (hl : ∀ name value, .text name value ∈ content.fields →
      Loose (authored value) ∧ Loose (escaped value)) : Lined Loose m := by
  have hvalid {v name : String} (hv : Variable.nameOf? v = some name) :
      Variable.isValidName name = true := Variable.isValidName_of_nameOf? hv
  cases h with
  | greeting hv => exact lined_greeting (hvalid hv)
  | paragraph => exact lined_paragraph (hl "text" _ (by simp [Content.fields])).1
  | infoBox =>
    refine lined_infoBox (ColorScheme.plain_palette _) ?_ ?_
    · intro s hs
      exact (hl "title" s (by simp [Content.fields, Option.mem_def.mp hs])).1
    · intro item hitem
      exact ⟨(hl "items.label" item.label (by simp [Content.fields]; exact ⟨item, hitem, rfl⟩)).1,
        (hl "items.value" item.value (by simp [Content.fields]; exact ⟨item, hitem, rfl⟩)).1⟩
  | button _ hv =>
    exact lined_button (ColorScheme.plain_palette _) (hl "label" _ (by simp [Content.fields])).1
      (hvalid hv)
  | stepList =>
    refine lined_stepList (ColorScheme.plain_palette _) ?_ ?_
    · intro s hs
      exact (hl "title" s (by simp [Content.fields, Option.mem_def.mp hs])).1
    · intro step hstep
      exact ⟨(hl "steps.title" step.title (by simp [Content.fields]; exact ⟨step, hstep, rfl⟩)).1,
        (hl "steps.description" step.description
          (by simp [Content.fields]; exact ⟨step, hstep, rfl⟩)).1⟩
  | code =>
    refine lined_code (ColorScheme.plain_palette _) (hl "code" _ (by simp [Content.fields])).1 ?_
    intro s hs
    exact (hl "label" s (by simp [Content.fields, Option.mem_def.mp hs])).1
  | image _ hc => exact lined_image hc (hl "alt" _ (by simp [Content.fields])).2
  | divider => exact lined_divider
  | spacer => exact lined_spacer _
  | heading _ hs => exact lined_heading hs (hl "text" _ (by simp [Content.fields])).1
  | list =>
    refine lined_list fun item hitem => (hl "items" item ?_).1
    simpa [Content.fields] using hitem
  | link _ hv =>
    exact lined_link (ColorScheme.plain_palette _) (hl "text" _ (by simp [Content.fields])).1
      (hvalid hv)
  | customHtml =>
    rename_i html
    obtain ⟨body, heq, hbody⟩ := customHtml_eq_line html
    have hhtml := (hl "html" html (by simp [Content.fields])).1
    rw [heq]
    rcases hbody with rfl | rfl
    · exact .looseLine hhtml
    · exact .looseLine (hcut body hhtml)

open Markup in
theorem Block.drawn_of_draws {Loose : Markup → Prop} {scheme : ColorScheme}
    {content : Block.Content} {m : Markup} (h : Block.Draws scheme content m)
    (hcut : ∀ s, Loose (authored (s ++ "\n")) → Loose (authored s))
    (hl : ∀ name value, .text name value ∈ content.fields →
      Loose (authored value) ∧ Loose (escaped value)) : Drawn Loose m :=
  (Block.lined_of_draws h hcut hl).drawn

end EmailTemplates
