import EmailTemplates.Proofs.Source.Button
import EmailTemplates.Proofs.Source.Within

namespace EmailTemplates

namespace Block.Content

open Source

def strings : Content → List String
  | greeting nameVariable => [nameVariable]
  | paragraph text => [text]
  | infoBox title items _ => title.toList ++ items.flatMap fun item => [item.label, item.value]
  | button label urlVariable _ => [label, urlVariable]
  | stepList title steps => title.toList ++ steps.flatMap fun step => [step.title, step.description]
  | code value label => value :: label.toList
  | image contentId alt _ => [contentId, alt]
  | divider | spacer _ => []
  | heading text _ => [text]
  | list items _ => items
  | link text urlVariable _ => [text, urlVariable]
  | customHtml html => [html]

def Importable : Content → Prop
  | greeting nameVariable => ∃ name, nameVariable = Variable.token name
  | paragraph text => InlineSafe text ∧ Shape.greeting? text.toList = none
  | button label urlVariable _ => InlineSafe label ∧ Variable.isValidName urlVariable = true
  | image .. | divider | spacer _ => True
  | heading text _ => InlineSafe text
  | list items _ => ∀ item ∈ items, InlineSafe item
  | link text urlVariable _ => InlineSafe text ∧ Variable.isValidName urlVariable = true
  | infoBox .. | stepList .. | code .. | customHtml _ => False

def Readable (scheme : ColorScheme) : Content → Prop
  | greeting nameVariable => ∃ name, nameVariable = Variable.token name
  | paragraph text => Trimmed text ∧ Shape.greeting? text.toList = none ∧
      Shape.link? scheme text.toList = none
  | button label urlVariable _ => Whole "a" label ∧ Variable.isValidName urlVariable = true
  | image .. | divider | spacer _ => True
  | heading text _ => Trimmed text
  | list items _ => ∀ item ∈ items, Whole "li" item
  | link text urlVariable _ => Trimmed text ∧ Variable.isValidName urlVariable = true
  | infoBox .. | stepList .. | code .. | customHtml _ => False

def enclosed : Content → List (String × String)
  | greeting _ | divider | spacer _ | image .. | customHtml _ => []
  | paragraph text | link text _ _ => [("p", text)]
  | heading text level => [("h" ++ level.toNat.repr, text)]
  | list items ordered => items.map (Shape.listTag ordered, ·)
  | button label _ _ => [("table", label)]
  | infoBox title items _ =>
    title.toList.map ("table", ·) ++
      items.flatMap fun item => [("table", item.label), ("table", item.value)]
  | stepList title steps =>
    title.toList.map ("p", ·) ++
      steps.flatMap fun step => [("table", step.title), ("table", step.description)]
  | code value label => label.toList.map ("table", ·) ++ [("table", value)]

def Contained (content : Content) : Prop :=
  ∀ p ∈ content.enclosed, Source.Contained p.1.toList p.2.toList

def shown (scheme : ColorScheme) : Content → Content
  | button label url own => .button label url ((some (own.getD scheme)).filter (· ≠ scheme))
  | link text url own => .link text url ((some (own.getD scheme)).filter (· ≠ scheme))
  | content => content

end Block.Content

namespace Source

open Segment (IsTag isVoid)
open Markup (text element opening container line fixed reference authored tagOf)
open Shape

structure Stands (m : Markup) (tag : String) : Prop where
  head : (text m).head? = some '<'
  next : ∀ n rest, ∃ k, Segment.next ⟨n, Literal.encode (text m) ++ rest⟩ =
    (.element tag true, ⟨k, rest⟩)

theorem stands_element {tag : String} {attributes : List Attribute} {inner : Markup}
    (h : IsOpening tag attributes) (hv : isVoid tag = false)
    (hi : Contained tag.toList (text inner)) : Stands (element tag attributes inner) tag where
  head := by
    rw [Markup.text_element, Tag.written_append]
    rfl
  next n rest := Segment.next_encoded_element h.tag hv h.writable hi n rest

theorem stands_opening {tag : String} {attributes : List Attribute}
    (h : IsOpening tag attributes) (hv : isVoid tag = true) :
    Stands (opening tag attributes) tag where
  head := by
    rw [Markup.text_opening]
    rfl
  next n rest := Segment.next_encoded_opening h.tag hv h.writable n rest

theorem isOpening_style {tag : String} (ht : IsTag tag) {s : Style} (hs : s.Plain) :
    IsOpening tag [.style s] :=
  ⟨ht, List.forall_mem_singleton.mpr (Attribute.writable_style hs)⟩

theorem stands_authored {tag text : String} {s : Style} (ht : IsTag tag)
    (hv : isVoid tag = false) (hs : s.Plain) (hc : Contained tag.toList text.toList) :
    Stands (element tag [.style s] (authored text)) tag := by
  refine stands_element (isOpening_style ht hs) hv ?_
  rwa [text_authored]

theorem stands_greeting {name : String} (h : Variable.isValidName name = true) :
    Stands (element "p" [.style .bodyText] (fixed "Hi " ++ reference name ++ fixed ",")) "p" := by
  have hangle : '<' ∉ Token.chars name.toList := Token.not_mem_chars_of_breaks h (by decide)
  refine stands_element (isOpening_style isTag_p Style.plain_bodyText) (by decide) ?_
  rw [text_greeting]
  refine contained_of_not_mem ?_
  simp only [List.mem_append, List.mem_cons, List.not_mem_nil, or_false, not_or]
  exact ⟨by decide, by decide, hangle, by decide⟩

theorem heading_tag {level : UInt8} {size : String} (h : Fragment.headingSize? level = some size) :
    isVoid ("h" ++ level.toNat.repr) = false ∧ ("h" ++ level.toNat.repr).toList ∉ inlineNames := by
  unfold Fragment.headingSize? at h
  split at h
  iterate 3
    rename_i hl
    rw [hl]
    decide
  cases h

theorem stands_heading {s size : String} {level : UInt8}
    (hs : Fragment.headingSize? level = some size)
    (hc : Contained ("h" ++ level.toNat.repr).toList s.toList) :
    Stands (element ("h" ++ level.toNat.repr) [.style (Fragment.headingStyle size)] (authored s))
      ("h" ++ level.toNat.repr) :=
  stands_authored (isTag_h level size hs) (heading_tag hs).1
    (Fragment.plain_headingStyle (Fragment.plain_of_headingSize? hs)) hc

theorem stands_spacer (height : UInt32) :
    Stands (element "div" [.style (Fragment.spacerStyle height)] (fixed "&nbsp;")) "div" := by
  have hchars : ("&nbsp;" : String).toList = ['&', 'n', 'b', 's', 'p', ';'] := rfl
  refine stands_element (isOpening_style ⟨by decide, by decide⟩ (Fragment.plain_spacerStyle height))
    (by decide) ?_
  rw [Markup.text_fixed, hchars]
  exact contained_of_not_mem (by decide)

theorem stands_divider : Stands (opening "hr" [.style Fragment.dividerStyle]) "hr" :=
  stands_opening (isOpening_style ⟨by decide, by decide⟩ Fragment.plain_dividerStyle) (by decide)

theorem stands_image {contentId : String} (hc : Block.isContentId contentId = true) (alt : String)
    (width : Option UInt32) : Stands (opening "img" (imageAttributes contentId alt width)) "img" :=
  stands_opening ⟨⟨by decide, by decide⟩, writable_imageAttributes hc alt width⟩ (by decide)

theorem isOpening_anchor {url : String} (hu : Variable.isValidName url = true) {s : Style}
    (hs : s.Plain) : IsOpening "a" (anchorAttributes url s) :=
  ⟨isTag_a, writable_anchorAttributes hu hs⟩

theorem stands_link {s url : String} (hu : Variable.isValidName url = true) (drawn : ColorScheme)
    (hc : Contained "p".toList s.toList) :
    Stands (element "p" [.style .bodyText]
      (Fragment.anchor url (Fragment.linkStyle drawn.palette) s)) "p" := by
  have hanchor := isOpening_anchor hu (Fragment.plain_linkStyle drawn.plain_palette)
  refine stands_element (isOpening_style isTag_p Style.plain_bodyText) (by decide) ?_
  refine contained_element hanchor ?_
  rwa [text_authored]

theorem laidOut_authored {tag s : String} {attributes : List Attribute}
    {Opening : String → List Attribute → Prop} {Inner : List Char → Prop}
    (h : Opening tag attributes) (hs : Inner s.toList) :
    LaidOut Opening Inner (line (element tag attributes (authored s))) := by
  refine .line h ?_
  rwa [text_authored]

theorem stands_button {label url : String} (hu : Variable.isValidName url = true)
    (drawn : ColorScheme) (hc : Contained "table".toList label.toList) :
    Stands (buttonElement drawn.palette label url) "table" := by
  have hp := drawn.plain_palette
  have hanchor := isOpening_anchor hu (Fragment.plain_buttonAnchor hp)
  refine stands_element ⟨⟨by decide, by decide⟩, writable_tableAttributes⟩ (by decide)
    (LaidOut.contained (.container ⟨⟨by decide, by decide⟩, by simp⟩
      (.container ⟨⟨by decide, by decide⟩, writable_cellAttributes hp⟩ ?_)))
  exact laidOut_authored hanchor hc

theorem list_tag (ordered : Bool) :
    isVoid (listTag ordered) = false ∧ (listTag ordered).toList ∉ inlineNames := by
  cases ordered <;> decide

theorem stands_list {items : List String} (ordered : Bool)
    (hc : ∀ item ∈ items, Contained (listTag ordered).toList item.toList) :
    Stands (element (listTag ordered) [.style Fragment.listStyle]
      (fixed "\n" ++ items.flatMap itemMarkup)) (listTag ordered) := by
  refine stands_element (isOpening_style (isTag_list ordered) Fragment.plain_listStyle)
    (list_tag ordered).1 (LaidOut.contained (.flatMap fun item hitem => ?_))
  exact laidOut_authored (isOpening_style ⟨by decide, by decide⟩ Fragment.plain_listItemStyle)
    (hc item hitem)

def Reads (scheme : ColorScheme) (m : Markup) (content : Block.Content) : Prop :=
  ∃ tag, Stands m tag ∧ recognize scheme tag (text m) = some content

theorem onlyInline_of_not_mem {cs : List Char} (h : '<' ∉ cs) : OnlyInlineTags cs := by
  rintro u v rfl
  simp at h

variable {scheme : ColorScheme}

theorem name_of_token {name n : String} (h : Variable.nameOf? (Variable.token name) = some n) :
    n = name ∧ Variable.isValidName name = true := by
  have htoken : (Variable.token name).toList = Token.chars name.toList := String.toList_ofList
  unfold Variable.nameOf? at h
  rw [htoken, Variable.unbraced_chars] at h
  dsimp only at h
  split at h
  · rename_i hname
    cases h
    exact ⟨String.ofList_toList, hname⟩
  · cases h

theorem name_of_bare {v url : String} (hv : Variable.isValidName v = true)
    (h : Variable.nameOf? v = some url) : url = v := by
  rw [Variable.nameOf?_bare hv] at h
  exact (Option.some.inj h).symm

theorem reads_of_readable {content : Block.Content} {m : Markup}
    (h : Block.Draws scheme content m) (hr : content.Readable scheme) (hc : content.Contained) :
    ∃ core, m = line core ∧ Reads scheme core (content.shown scheme) := by
  cases h with
  | greeting hv =>
    obtain ⟨name, rfl⟩ := hr
    obtain ⟨rfl, hname⟩ := name_of_token hv
    exact ⟨_, rfl, _, stands_greeting hname, recognize_greeting hname scheme⟩
  | paragraph =>
    exact ⟨_, rfl, _, stands_authored isTag_p (by decide) Style.plain_bodyText
      (hc _ List.mem_cons_self), recognize_paragraph hr.1 hr.2.1 hr.2.2⟩
  | @button label v url own _ hv =>
    obtain ⟨hlabel, hbare⟩ := hr
    obtain rfl := name_of_bare hbare hv
    exact ⟨_, Markup.container_eq _ _ _, _, stands_button hbare (own.getD scheme)
      (hc _ List.mem_cons_self), recognize_button hlabel hbare scheme (own.getD scheme)⟩
  | image _ hid hw => exact ⟨_, rfl, _, stands_image hid _ _, recognize_image hid _ hw scheme⟩
  | divider => exact ⟨_, rfl, _, stands_divider, recognize_divider scheme _⟩
  | spacer hh => exact ⟨_, rfl, _, stands_spacer _, recognize_spacer hh scheme⟩
  | heading _ hs =>
    exact ⟨_, rfl, _, stands_heading hs (hc _ List.mem_cons_self), recognize_heading hr hs scheme⟩
  | @list items ordered hne =>
    exact ⟨_, Markup.container_eq _ _ _, _, stands_list ordered fun item hitem =>
      hc _ (List.mem_map_of_mem hitem), recognize_list hne hr ordered scheme⟩
  | @link s v url own hblank hv =>
    obtain ⟨htext, hbare⟩ := hr
    obtain rfl := name_of_bare hbare hv
    have hread := recognize_link hblank hbare scheme (own.getD scheme)
    rw [htext.trimmed] at hread
    exact ⟨_, rfl, _, stands_link hbare (own.getD scheme) (hc _ List.mem_cons_self), hread⟩
  | infoBox => exact hr.elim
  | stepList => exact hr.elim
  | code => exact hr.elim
  | customHtml => exact hr.elim

theorem readable_of_importable {content : Block.Content} (h : content.Importable)
    (scheme : ColorScheme) : content.Readable scheme := by
  cases content with
  | paragraph text => exact ⟨h.1.toTrimmed, h.2, link?_eq_none h.1.onlyInline scheme⟩
  | button label url own => exact ⟨h.1.whole (by decide), h.2⟩
  | heading text level => exact h.toTrimmed
  | list items ordered => exact fun item hitem => (h item hitem).whole (by decide)
  | link text url own => exact ⟨h.1.toTrimmed, h.2⟩
  | _ => exact h

theorem Recognized.readable {tag : String} {content : Block.Content}
    (h : Recognized scheme tag content) : content.Readable scheme := by
  cases h with
  | greeting => exact ⟨_, rfl⟩
  | paragraph htext hgreeting hlink => exact ⟨htext, hgreeting, hlink⟩
  | button hlabel hurl => exact ⟨hlabel, hurl⟩
  | heading htext => exact htext
  | list _ hitems => exact hitems
  | link htext hurl => exact ⟨htext, hurl⟩
  | image => exact trivial
  | divider => exact trivial
  | spacer => exact trivial

theorem contained_of_importable {content : Block.Content} {m : Markup} (h : content.Importable)
    (hd : Block.Draws scheme content m) : content.Contained := by
  have hone {tag text : String} (hs : InlineSafe text) (ht : tag.toList ∉ inlineNames) :
      ∀ p ∈ [(tag, text)], Contained p.1.toList p.2.toList :=
    List.forall_mem_singleton.mpr (hs.onlyInline.contained ht)
  cases hd with
  | paragraph => exact hone h.1 (by decide)
  | button => exact hone h.1 (by decide)
  | heading _ hs => exact hone h (heading_tag hs).2
  | link => exact hone h.1 (by decide)
  | @list items ordered _ =>
    refine List.forall_mem_map.mpr fun item hitem => ?_
    exact (h item hitem).onlyInline.contained (list_tag ordered).2
  | greeting => exact fun p hp => absurd hp List.not_mem_nil
  | image => exact fun p hp => absurd hp List.not_mem_nil
  | divider => exact fun p hp => absurd hp List.not_mem_nil
  | spacer => exact fun p hp => absurd hp List.not_mem_nil
  | infoBox => exact h.elim
  | stepList => exact h.elim
  | code => exact h.elim
  | customHtml => exact h.elim

theorem reads_of_draws {content : Block.Content} {m : Markup}
    (h : Block.Draws scheme content m) (hi : content.Importable) :
    ∃ core, m = line core ∧ Reads scheme core (content.shown scheme) :=
  reads_of_readable h (readable_of_importable hi scheme) (contained_of_importable hi h)

end Source

end EmailTemplates
