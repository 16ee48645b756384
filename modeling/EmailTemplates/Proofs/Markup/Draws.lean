import EmailTemplates.Email
import EmailTemplates.Proofs.Outcome

namespace EmailTemplates

open Outcome

namespace Fragment

theorem requireText_eq_ok {id field value : String} {u : Unit} :
    requireText id field value = .ok u ↔ Text.isBlankText value = false := by
  unfold requireText
  split <;> simp_all [malformed]

theorem requireVariable_eq_ok {id field value name : String} :
    requireVariable id field value = .ok name ↔ Variable.nameOf? value = some name := by
  unfold requireVariable
  split <;> simp_all [malformed]

end Fragment

namespace Block

open Fragment

inductive Draws (scheme : ColorScheme) : Content → Markup → Prop
  | greeting {v name : String} : Variable.nameOf? v = some name →
      Draws scheme (.greeting v) (greetingMarkup name)
  | paragraph {text : String} : Text.isBlankText text = false →
      Draws scheme (.paragraph text) (paragraphMarkup text)
  | infoBox {title : Option String} {items : List InfoItem} {own : Option ColorScheme} :
      items ≠ [] → (∀ item ∈ items, Text.isBlankText item.label = false) →
      Draws scheme (.infoBox title items own) (infoBoxMarkup (own.getD scheme).palette title items)
  | button {label v url : String} {own : Option ColorScheme} : Text.isBlankText label = false →
      Variable.nameOf? v = some url →
      Draws scheme (.button label v own) (buttonMarkup (own.getD scheme).palette label url)
  | stepList {title : Option String} {steps : List Step} :
      steps ≠ [] → (∀ step ∈ steps, Text.isBlankText step.title = false) →
      Draws scheme (.stepList title steps) (stepListMarkup scheme.palette title steps)
  | code {value : String} {label : Option String} : Text.isBlankText value = false →
      Draws scheme (.code value label) (codeMarkup scheme.palette value label)
  | image {contentId alt : String} {width : Option UInt32} :
      Text.isBlankText contentId = false → isContentId contentId = true →
      width.all isWidth = true →
      Draws scheme (.image contentId alt width) (imageMarkup contentId alt width)
  | divider : Draws scheme .divider Fragment.divider
  | spacer {height : UInt32} : height ≠ 0 → Draws scheme (.spacer height) (spacerMarkup height)
  | heading {text size : String} {level : UInt8} : Text.isBlankText text = false →
      headingSize? level = some size →
      Draws scheme (.heading text level) (headingMarkup text level size)
  | list {items : List String} {ordered : Bool} : items ≠ [] →
      Draws scheme (.list items ordered) (listMarkup items ordered)
  | link {text v url : String} {own : Option ColorScheme} : Text.isBlankText text = false →
      Variable.nameOf? v = some url →
      Draws scheme (.link text v own) (linkMarkup (own.getD scheme).palette text url)
  | customHtml {html : String} : Draws scheme (.customHtml html) (Fragment.customHtml html)

theorem draws_of_fragment {scheme : ColorScheme} {b : Block} {m : Markup}
    (h : b.fragment scheme = .ok m) : Draws scheme b.content m := by
  obtain ⟨id, content⟩ := b
  cases content with
  | greeting v =>
    obtain ⟨name, hv, hm⟩ := bind_eq_ok.mp h
    cases pure_eq_ok.mp hm
    exact .greeting (requireVariable_eq_ok.mp hv)
  | paragraph text =>
    obtain ⟨_, ht, hm⟩ := bind_eq_ok.mp h
    cases pure_eq_ok.mp hm
    exact .paragraph (requireText_eq_ok.mp ht)
  | infoBox title items own =>
    obtain ⟨hne, h⟩ := unless_error_eq_ok.mp h
    obtain ⟨_, hi, hm⟩ := bind_eq_ok.mp h
    cases pure_eq_ok.mp hm
    refine .infoBox (by simpa using hne) ?_
    intro item hitem
    exact requireText_eq_ok.mp (forM_eq_ok.mp hi item hitem)
  | button label v own =>
    obtain ⟨_, ht, h⟩ := bind_eq_ok.mp h
    obtain ⟨url, hv, hm⟩ := bind_eq_ok.mp h
    cases pure_eq_ok.mp hm
    exact .button (requireText_eq_ok.mp ht) (requireVariable_eq_ok.mp hv)
  | stepList title steps =>
    obtain ⟨hne, h⟩ := unless_error_eq_ok.mp h
    obtain ⟨_, hi, hm⟩ := bind_eq_ok.mp h
    cases pure_eq_ok.mp hm
    refine .stepList (by simpa using hne) ?_
    intro step hstep
    exact requireText_eq_ok.mp (forM_eq_ok.mp hi step hstep)
  | code value label =>
    obtain ⟨_, ht, hm⟩ := bind_eq_ok.mp h
    cases pure_eq_ok.mp hm
    exact .code (requireText_eq_ok.mp ht)
  | image contentId alt width =>
    obtain ⟨_, ht, h⟩ := bind_eq_ok.mp h
    obtain ⟨hc, h⟩ := unless_error_eq_ok.mp h
    obtain ⟨hw, hm⟩ := unless_error_eq_ok.mp h
    cases pure_eq_ok.mp hm
    exact .image (requireText_eq_ok.mp ht) (by simpa using hc) (by simpa using hw)
  | divider =>
    cases h
    exact .divider
  | spacer height =>
    obtain ⟨hh, hm⟩ := unless_error_eq_ok.mp h
    cases pure_eq_ok.mp hm
    exact .spacer hh
  | heading text level =>
    obtain ⟨_, ht, h⟩ := bind_eq_ok.mp h
    cases hs : headingSize? level with
    | none => simp [hs, malformed] at h
    | some size =>
      simp only [hs] at h
      cases pure_eq_ok.mp h
      exact .heading (requireText_eq_ok.mp ht) hs
  | list items ordered =>
    obtain ⟨hne, hm⟩ := unless_error_eq_ok.mp h
    cases pure_eq_ok.mp hm
    exact .list (by simpa using hne)
  | link text v own =>
    obtain ⟨_, ht, h⟩ := bind_eq_ok.mp h
    obtain ⟨url, hv, hm⟩ := bind_eq_ok.mp h
    cases pure_eq_ok.mp hm
    exact .link (requireText_eq_ok.mp ht) (requireVariable_eq_ok.mp hv)
  | customHtml html =>
    cases h
    exact .customHtml

theorem fragment_of_draws {scheme : ColorScheme} {content : Content} {m : Markup}
    (h : Draws scheme content m) (id : String) :
    (⟨id, content⟩ : Block).fragment scheme = .ok m := by
  cases h with
  | greeting hv => exact bind_eq_ok.mpr ⟨_, requireVariable_eq_ok.mpr hv, rfl⟩
  | paragraph ht => exact bind_eq_ok.mpr ⟨(), requireText_eq_ok.mpr ht, rfl⟩
  | infoBox hne hi =>
    refine unless_error_eq_ok.mpr ⟨by simpa using hne, bind_eq_ok.mpr ⟨(), ?_, rfl⟩⟩
    exact forM_eq_ok.mpr fun item hitem => requireText_eq_ok.mpr (hi item hitem)
  | button ht hv =>
    refine bind_eq_ok.mpr ⟨(), requireText_eq_ok.mpr ht, ?_⟩
    exact bind_eq_ok.mpr ⟨_, requireVariable_eq_ok.mpr hv, rfl⟩
  | stepList hne hi =>
    refine unless_error_eq_ok.mpr ⟨by simpa using hne, bind_eq_ok.mpr ⟨(), ?_, rfl⟩⟩
    exact forM_eq_ok.mpr fun step hstep => requireText_eq_ok.mpr (hi step hstep)
  | code ht => exact bind_eq_ok.mpr ⟨(), requireText_eq_ok.mpr ht, rfl⟩
  | image ht hc hw =>
    refine bind_eq_ok.mpr ⟨(), requireText_eq_ok.mpr ht, ?_⟩
    refine unless_error_eq_ok.mpr ⟨by simpa using hc, ?_⟩
    exact unless_error_eq_ok.mpr ⟨by simpa using hw, rfl⟩
  | divider => rfl
  | spacer hh => exact unless_error_eq_ok.mpr ⟨hh, rfl⟩
  | heading ht hs =>
    refine bind_eq_ok.mpr ⟨(), requireText_eq_ok.mpr ht, ?_⟩
    simp only [hs]
    rfl
  | list hne => exact unless_error_eq_ok.mpr ⟨by simpa using hne, rfl⟩
  | link ht hv =>
    refine bind_eq_ok.mpr ⟨(), requireText_eq_ok.mpr ht, ?_⟩
    exact bind_eq_ok.mpr ⟨_, requireVariable_eq_ok.mpr hv, rfl⟩
  | customHtml => rfl

theorem fragment_eq_ok {scheme : ColorScheme} {b : Block} {m : Markup} :
    b.fragment scheme = .ok m ↔ Draws scheme b.content m :=
  ⟨draws_of_fragment, fun h => fragment_of_draws h b.id⟩

end Block

namespace Template

def Fragments (t : Template) (ms : List Markup) : Prop :=
  List.Forall₂ (fun b m => Block.Draws t.colorScheme b.content m) t.blocks ms

theorem Fragments.exists_block {t : Template} {ms : List Markup} (h : t.Fragments ms) {m : Markup}
    (hm : m ∈ ms) : ∃ b ∈ t.blocks, Block.Draws t.colorScheme b.content m := by
  unfold Fragments at h
  generalize t.blocks = blocks at h ⊢
  induction h with
  | nil => cases hm
  | cons hb _ ih =>
    rcases List.mem_cons.mp hm with rfl | hm
    · exact ⟨_, List.mem_cons_self, hb⟩
    · obtain ⟨b, hmem, hd⟩ := ih hm
      exact ⟨b, List.mem_cons_of_mem _ hmem, hd⟩

theorem validateText_eq_ok {field : RequiredField} {value : String} {u : Unit} :
    validateText field value = .ok u ↔ Text.isBlankText value = false := by
  unfold validateText
  split <;> simp_all

theorem validate_eq_ok {t : Template} : t.validate = .ok () ↔
    isValidSlug t.slug = true ∧ Text.isBlankText t.name = false ∧
      Text.isBlankText t.subject = false ∧ Text.isBlankText t.header.title = false ∧
      validateIds [] 0 t.blocks = .ok () ∧ validateDeclarations t.declarations = .ok () := by
  constructor
  · intro h
    obtain ⟨hs, h⟩ := unless_error_eq_ok.mp h
    obtain ⟨_, hn, h⟩ := bind_eq_ok.mp h
    obtain ⟨_, hsub, h⟩ := bind_eq_ok.mp h
    obtain ⟨_, ht, h⟩ := bind_eq_ok.mp h
    obtain ⟨_, hi, hd⟩ := bind_eq_ok.mp h
    exact ⟨by simpa using hs, validateText_eq_ok.mp hn, validateText_eq_ok.mp hsub,
      validateText_eq_ok.mp ht, hi, hd⟩
  · rintro ⟨hs, hn, hsub, ht, hi, hd⟩
    refine unless_error_eq_ok.mpr ⟨by simpa using hs, ?_⟩
    refine bind_eq_ok.mpr ⟨(), validateText_eq_ok.mpr hn, ?_⟩
    refine bind_eq_ok.mpr ⟨(), validateText_eq_ok.mpr hsub, ?_⟩
    refine bind_eq_ok.mpr ⟨(), validateText_eq_ok.mpr ht, ?_⟩
    exact bind_eq_ok.mpr ⟨(), hi, hd⟩

theorem check_eq_ok {t : Template} {u : Unit} : t.check = .ok u ↔ t.validate = .ok u :=
  mapError_eq_ok

theorem fragments_eq_ok {t : Template} {ms : List Markup} :
    t.fragments = .ok ms ↔ t.Fragments ms := by
  rw [fragments, mapError_eq_ok, mapM_eq_ok]
  simp only [Block.fragment_eq_ok]
  rfl

theorem renderIn_eq_ok {wrapping : Wrapping} {t : Template} {values : Values}
    {options : RenderOptions} {e : RenderedEmail} :
    renderIn wrapping t values options = .ok e ↔
      t.validate = .ok () ∧ ∃ ms, t.Fragments ms ∧ ∃ html,
        wrapping ⟨options.mode, values⟩ (t.parts options ms.flatten) = .ok html ∧
        e = ⟨(Filling.mk options.mode values).plain (.authored t.subject), html,
          Variable.sorted ((Filling.mk options.mode values).unresolved
            (filledParts (t.parts options ms.flatten)).names)⟩ := by
  constructor
  · intro h
    obtain ⟨_, hc, h⟩ := bind_eq_ok.mp h
    obtain ⟨ms, hms, h⟩ := bind_eq_ok.mp h
    obtain ⟨html, hw, h⟩ := bind_eq_ok.mp h
    exact ⟨check_eq_ok.mp hc, ms, fragments_eq_ok.mp hms, html, hw, (pure_eq_ok.mp h).symm⟩
  · rintro ⟨hv, ms, hms, html, hw, rfl⟩
    refine bind_eq_ok.mpr ⟨(), check_eq_ok.mpr hv, ?_⟩
    refine bind_eq_ok.mpr ⟨ms, fragments_eq_ok.mpr hms, ?_⟩
    exact bind_eq_ok.mpr ⟨html, hw, rfl⟩

def emailOf (t : Template) (values : Values) (options : RenderOptions) (ms : List Markup) :
    RenderedEmail where
  subject := (Filling.mk options.mode values).plain (.authored t.subject)
  html := (Filling.mk options.mode values).markup
    (options.envelope.wrap (t.parts options ms.flatten))
  unresolved := Variable.sorted ((Filling.mk options.mode values).unresolved
    (filledParts (t.parts options ms.flatten)).names)

theorem render_eq_ok {t : Template} {values : Values} {options : RenderOptions}
    {e : RenderedEmail} :
    t.render values options = .ok e ↔
      t.validate = .ok () ∧ ∃ ms, t.Fragments ms ∧ e = t.emailOf values options ms := by
  rw [render, renderIn_eq_ok]
  constructor
  · rintro ⟨hv, ms, hms, html, hw, rfl⟩
    cases hw
    exact ⟨hv, ms, hms, rfl⟩
  · rintro ⟨hv, ms, hms, rfl⟩
    exact ⟨hv, ms, hms, _, rfl, rfl⟩

end Template

end EmailTemplates
