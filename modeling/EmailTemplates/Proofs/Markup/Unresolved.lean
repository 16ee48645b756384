import EmailTemplates.Proofs.SystemTemplate
import EmailTemplates.Proofs.Variable.Names
import EmailTemplates.Variable.Reference

namespace EmailTemplates

namespace Markup

@[simp] theorem names_nil : names [] = [] := rfl

@[simp] theorem names_append (m n : Markup) : names (m ++ n) = names m ++ names n :=
  List.filterMap_append

@[simp] theorem names_fixed (s : String) : names (fixed s) = [] := by
  simp [names, fixed, List.filterMap_map]

theorem names_pieces (cs : List Char) :
    names (Token.pieces cs) = (Token.names cs).map String.ofList := by
  simp only [names, Token.names, List.map_filterMap]
  congr 1
  funext p
  cases p <;> rfl

@[simp] theorem names_authored (s : String) : names (authored s) = Variable.occurrences s :=
  names_pieces s.toList

@[simp] theorem names_escaped (s : String) : names (escaped s) = Variable.occurrences s := by
  rw [← names_authored, authored, escaped]
  generalize Token.pieces s.toList = m
  induction m with
  | nil => rfl
  | cons p m ih =>
    rw [List.flatMap_cons, names_append, ih]
    cases p with
    | char c =>
      have hc : names ((Text.escapeChar c).map .char) = [] := by
        simp [names, List.filterMap_map]
      rw [escapePiece, hc]
      rfl
    | reference name => rfl

@[simp] theorem names_reference (name : String) : names (reference name) = [name] := by
  simp [names, reference]

@[simp] theorem names_flatMap {α : Type} (f : α → Markup) (xs : List α) :
    names (xs.flatMap f) = xs.flatMap fun x => names (f x) := by
  induction xs with
  | nil => rfl
  | cons x xs ih => rw [List.flatMap_cons, names_append, ih, List.flatMap_cons]

@[simp] theorem names_line (m : Markup) : names (line m) = names m := by
  simp [line]

@[simp] theorem names_opening (tag : String) (attributes : List Attribute) :
    names (opening tag attributes) = attributes.flatMap fun a => names a.value := by
  simp [opening, Attribute.markup]

@[simp] theorem names_element (tag : String) (attributes : List Attribute) (content : Markup) :
    names (element tag attributes content) =
      (attributes.flatMap fun a => names a.value) ++ names content := by
  simp [element, closing]

@[simp] theorem names_container (tag : String) (attributes : List Attribute) (lines : Markup) :
    names (container tag attributes lines) =
      (attributes.flatMap fun a => names a.value) ++ names lines := by
  simp [container, closing]

end Markup

namespace Attribute

@[simp] theorem names_value_fixed (name value : String) : (fixed name value).value.names = [] :=
  Markup.names_fixed value

@[simp] theorem names_value_style (s : Style) : (style s).value.names = [] :=
  Markup.names_fixed s.text

@[simp] theorem flatMap_names_presentation :
    (presentation.flatMap fun a => a.value.names) = [] := by
  simp [presentation]

end Attribute

theorem Field.isValidName_of_mem_occurrences {n : String} (field : Field)
    (h : n ∈ field.occurrences) : Variable.isValidName n = true := by
  cases field with
  | text name value => exact Variable.isValidName_of_mem_occurrences h
  | «variable» name value => exact Variable.isValidName_of_nameOf? (Option.mem_toList.mp h)

@[simp] theorem Field.occurrences_text (name value : String) :
    (Field.text name value).occurrences = Variable.occurrences value := rfl

@[simp] theorem Field.occurrences_variable (name value : String) :
    (Field.variable name value).occurrences = (Variable.nameOf? value).toList := rfl

namespace Block

open Fragment Markup

theorem names_stepRow (palette : Palette) (number : Nat) (step : Step) :
    (stepRow palette number step).names =
      Variable.occurrences step.title ++ Variable.occurrences step.description := by
  by_cases h : step.description = ""
  · have hd : Variable.occurrences step.description = [] := by
      rw [h]
      simp [Variable.occurrences, Token.names]
    rw [hd]
    simp [stepRow, h]
  · simp [stepRow, h]

theorem names_stepRows (palette : Palette) (number : Nat) (steps : List Step) :
    (stepRows palette number steps).names =
      steps.flatMap fun s => Variable.occurrences s.title ++ Variable.occurrences s.description := by
  induction steps generalizing number with
  | nil => rfl
  | cons step steps ih =>
    rw [stepRows, names_append, names_stepRow, ih, List.flatMap_cons]

theorem mem_names_of_draws {scheme : ColorScheme} {content : Content} {m : Markup}
    (h : Draws scheme content m) (n : String) :
    n ∈ m.names ↔ n ∈ content.fields.flatMap Field.occurrences := by
  cases h with
  | greeting hv => simp [greetingMarkup, Content.fields, hv]
  | paragraph => simp [paragraphMarkup, Content.fields]
  | infoBox =>
    simp [infoBoxMarkup, infoRow, Content.fields, List.flatMap_assoc]
  | button _ hv =>
    simp [buttonMarkup, anchor, Content.fields, hv, or_comm]
  | stepList =>
    simp [stepListMarkup, names_stepRows, Content.fields, List.flatMap_assoc]
  | code => simp [codeMarkup, Content.fields]
  | image => simp [imageMarkup, Content.fields]
  | divider => simp [Fragment.divider, Content.fields]
  | spacer => simp [spacerMarkup, Content.fields]
  | heading => simp [headingMarkup, Content.fields]
  | list => simp [listMarkup, Content.fields]
  | link _ hv =>
    simp [linkMarkup, anchor, Content.fields, hv, or_comm]
  | customHtml =>
    simp only [Fragment.customHtml, Content.fields]
    split <;> simp

end Block

namespace Envelope

open Markup

variable {p : Parts} {n : String}

theorem names_head : names (head p) = names p.subject := by
  simp [head]

theorem names_banner : names (banner p) = [] := by
  unfold banner
  split <;> simp

theorem names_header : names (header p) =
    p.emoji.toList.flatMap names ++ names p.title ++ p.subtitle.toList.flatMap names := by
  simp [header]

theorem names_content : names (content p) = names p.content := by
  simp [content]

theorem names_footerLine (s : Style) (m : Markup) : names (footerLine s m) = names m := by
  simp [footerLine]

theorem mem_names_of_footer (h : n ∈ names (footer p)) : n ∈ p.note.toList.flatMap names := by
  unfold footer at h
  split at h
  · simp at h
  · simp [names_footerLine] at h
  · simpa [names_footerLine, supportLine] using h

theorem names_document : names (document p) =
    names p.subject ++ p.preheader.toList.flatMap names ++
      (p.emoji.toList.flatMap names ++ names p.title ++ p.subtitle.toList.flatMap names) ++
        names p.content ++ names (footer p) := by
  simp [document, names_head, names_banner, names_header, names_content]

theorem mem_names_of_wrap {e : Envelope} (h : n ∈ names (e.wrap p)) :
    n ∈ names (Template.filledParts p) := by
  have hpart (part : Option Markup) : names part.toList.flatten = part.toList.flatMap names := by
    cases part <;> simp
  simp only [Template.filledParts, names_append, hpart, List.mem_append]
  cases e with
  | full =>
    have hfooter := @mem_names_of_footer p n
    simp only [wrap, names_document, List.mem_append] at h
    tauto
  | bare =>
    have hcontent : n ∈ names p.content := h
    tauto

end Envelope

namespace Template

open Markup

theorem mem_names_of_fragments {t : Template} {ms : List Markup} (h : t.Fragments ms) (n : String) :
    n ∈ names ms.flatten ↔ ∃ b ∈ t.blocks, n ∈ b.fields.flatMap Field.occurrences := by
  unfold Fragments at h
  generalize t.blocks = blocks at h
  induction h with
  | nil => simp
  | cons hb _ ih =>
    rw [List.flatten_cons, names_append, List.mem_append, Block.mem_names_of_draws hb n, ih]
    simp [Block.fields]

theorem names_toList_map_authored (text : Option String) :
    names (text.map authored).toList.flatten = text.toList.flatMap Variable.occurrences := by
  cases text <;> simp

def References (t : Template) (company : Company) (n : String) : Prop :=
  n ∈ t.variableNames ∨
    t.footer.note = none ∧ ∃ note, company.footerNote = some note ∧ n ∈ Variable.extract note

theorem names_filledParts (t : Template) (options : RenderOptions) (content : Markup) :
    names (filledParts (t.parts options content)) =
      names content ++ t.headTexts.flatMap Variable.occurrences ++
        (t.note options.company).toList.flatMap Variable.occurrences := by
  simp [filledParts, parts, headTexts, names_toList_map_authored]

theorem mem_variableNames {t : Template} {n : String} :
    n ∈ t.variableNames ↔ n ∈ t.headTexts.flatMap Variable.occurrences ∨
      (∃ b ∈ t.blocks, n ∈ b.fields.flatMap Field.occurrences) ∨
      n ∈ t.footer.note.toList.flatMap Variable.occurrences := by
  rw [variableNames, Variable.mem_addNew, occurrences, List.mem_append, List.mem_append, or_assoc]
  simp only [List.not_mem_nil, false_or, List.mem_flatMap (l := t.blocks)]

theorem isValidName_of_mem_variableNames {t : Template} {n : String} (h : n ∈ t.variableNames) :
    Variable.isValidName n = true := by
  rcases mem_variableNames.mp h with h | ⟨b, _, h⟩ | h
  · obtain ⟨text, _, hn⟩ := List.mem_flatMap.mp h
    exact Variable.isValidName_of_mem_occurrences hn
  · obtain ⟨field, _, hn⟩ := List.mem_flatMap.mp h
    exact field.isValidName_of_mem_occurrences hn
  · obtain ⟨text, _, hn⟩ := List.mem_flatMap.mp h
    exact Variable.isValidName_of_mem_occurrences hn

theorem isValidName_of_references {t : Template} {company : Company} {n : String}
    (h : t.References company n) : Variable.isValidName n = true := by
  rcases h with h | ⟨_, note, _, h⟩
  · exact isValidName_of_mem_variableNames h
  · exact Variable.isValidName_of_mem_occurrences (Variable.mem_extract.mp h)

theorem mem_names_filledParts {t : Template} {ms : List Markup} (h : t.Fragments ms)
    (options : RenderOptions) (n : String) :
    n ∈ names (filledParts (t.parts options ms.flatten)) ↔ t.References options.company n := by
  rw [names_filledParts, List.mem_append, List.mem_append, mem_names_of_fragments h, References,
    mem_variableNames, note]
  generalize (n ∈ t.headTexts.flatMap Variable.occurrences) = drawnAbove
  generalize (∃ b ∈ t.blocks, n ∈ b.fields.flatMap Field.occurrences) = drawnInBlocks
  cases hn : t.footer.note with
  | none =>
    cases hc : options.company.footerNote with
    | none =>
      simp only [Option.or_none, Option.toList_none, List.flatMap_nil, List.not_mem_nil, or_false,
        reduceCtorEq, false_and, exists_false, and_false]
      exact or_comm
    | some note =>
      simp only [Option.or_some, Option.getD_none, Option.toList_some, Option.toList_none,
        List.flatMap_singleton, List.flatMap_nil, List.not_mem_nil, or_false, Option.some.injEq,
        exists_eq_left', true_and, Variable.mem_extract]
      tauto
  | some note =>
    simp only [reduceCtorEq, false_and, or_false]
    tauto

theorem unresolved_eq_references {wrapping : Wrapping} {t : Template} {values : Values}
    {options : RenderOptions} {e : RenderedEmail}
    (h : renderIn wrapping t values options = .ok e) :
    (options.mode = .substitute →
      e.unresolved.Pairwise (fun a b => Variable.bytes a < Variable.bytes b) ∧
        ∀ n, n ∈ e.unresolved ↔ t.References options.company n ∧ values.get? n = none) ∧
      (options.mode = .preserve → e.unresolved = []) := by
  obtain ⟨_, ms, hms, html, _, rfl⟩ := renderIn_eq_ok.mp h
  constructor
  · intro hmode
    have hmem : ∀ n, n ∈ Variable.sorted ((Filling.mk options.mode values).unresolved
        (names (filledParts (t.parts options ms.flatten)))) ↔
        t.References options.company n ∧ values.get? n = none := by
      intro n
      rw [Variable.mem_sorted, Filling.unresolved, hmode, List.mem_filter,
        mem_names_filledParts hms, Option.isNone_iff_eq_none]
    refine ⟨?_, hmem⟩
    refine (Variable.pairwise_sorted _).imp_of_mem ?_
    intro a b ha hb hlt
    exact Variable.bytes_lt_of_lt (isValidName_of_references ((hmem a).mp ha).1)
      (isValidName_of_references ((hmem b).mp hb).1) hlt
  · intro hmode
    rw [Filling.unresolved, hmode]
    rfl

theorem unresolved_of_welcome :
    ∃ e, SystemTemplate.welcome.starter.render .empty (.ofMode .substitute) = .ok e ∧
      e.unresolved.Pairwise (fun a b => Variable.bytes a < Variable.bytes b) ∧
      ∀ n, n ∈ e.unresolved ↔ SystemTemplate.welcome.starter.References .unnamed n ∧
        Values.empty.get? n = none := by
  have h := SystemTemplate.render_starter SystemTemplate.welcome_mem_all .empty (.ofMode .substitute)
  exact ⟨_, h, (unresolved_eq_references h).1 rfl⟩

end Template

end EmailTemplates
