import EmailTemplates.Draft.Basic
import EmailTemplates.Proofs.Markup.Duality
import EmailTemplates.Proofs.Markup.Leftover
import EmailTemplates.Proofs.Variable.Advice

namespace EmailTemplates

namespace Token

variable {value? : List Char → Option (List Char)}

def FillsAside (value? : List Char → Option (List Char)) (n name : List Char) : Prop :=
  ∃ value, value? name = some value ∧ '{' ∉ value ∧ '}' ∉ value ∧ ∃ c ∈ value, c ∉ chars n

theorem infix_of_infix_append {c : Char} {cs value rest : List Char} (hc : c ∉ value)
    (h : c :: cs <:+: value ++ rest) : c :: cs <:+: rest := by
  induction value with
  | nil => exact h
  | cons d value ih =>
    rw [List.mem_cons, not_or] at hc
    rcases List.infix_cons_iff.mp h with h | h
    · exact absurd (List.cons_prefix_cons.mp h).1 hc.1
    · exact ih hc.2 h

theorem prefix_of_prefix_fill {n : List Char} {cs s : List Char}
    (hvalue : ∀ name ∈ names cs, FillsAside value? n name) (hs : ∀ c ∈ s, c ∈ chars n)
    (h : s ++ ['}'] <+: Markup.fill value? (pieces cs)) : s ++ ['}'] <+: cs := by
  induction cs using text_induction generalizing s with
  | nil =>
    rw [pieces_nil] at h
    exact h
  | token name rest hname ih =>
    rw [names_chars hname, List.forall_mem_cons] at hvalue
    obtain ⟨value, hv, hopen, hclose, c, hc, hcn⟩ := hvalue.1
    rw [pieces_chars hname, Markup.fill, hv, Option.getD_some] at h
    exfalso
    rcases List.prefix_or_prefix_of_prefix h (List.prefix_append value _) with h | h
    · exact hclose (h.subset (by simp))
    · rcases List.mem_append.mp (h.subset hc) with hs' | hlast
      · exact hcn (hs c hs')
      · exact hclose (List.mem_singleton.mp hlast ▸ hc)
  | char c cs hr ih =>
    rw [names_cons hr] at hvalue
    rw [pieces_cons hr, Markup.fill] at h
    cases s with
    | nil => exact List.cons_prefix_cons.mpr ⟨(List.cons_prefix_cons.mp h).1, List.nil_prefix⟩
    | cons d s =>
      obtain ⟨hd, h⟩ := List.cons_prefix_cons.mp h
      exact List.cons_prefix_cons.mpr ⟨hd, ih hvalue (List.forall_mem_cons.mp hs).2 h⟩

theorem not_infix_fill_pieces {n cs : List Char} (hn : isName n = true)
    (hvalue : ∀ name ∈ names cs, FillsAside value? n name) :
    ¬ chars n <:+: Markup.fill value? (pieces cs) := by
  induction cs using text_induction with
  | nil =>
    rw [pieces_nil]
    exact fun h => absurd (List.infix_nil.mp h) (by simp [chars])
  | token name rest hname ih =>
    rw [names_chars hname, List.forall_mem_cons] at hvalue
    obtain ⟨value, hv, hopen, -⟩ := hvalue.1
    rw [pieces_chars hname, Markup.fill, hv, Option.getD_some]
    exact fun h => ih hvalue.2 (infix_of_infix_append hopen h)
  | char c cs hr ih =>
    rw [names_cons hr] at hvalue
    rw [pieces_cons hr, Markup.fill]
    have hchars : chars n = '{' :: (('{' :: (n ++ ['}'])) ++ ['}']) := by simp [chars]
    have hinner : ∀ d ∈ '{' :: (n ++ ['}']), d ∈ chars n := by simp [chars]
    intro h
    rcases List.infix_cons_iff.mp h with h | h
    · rw [hchars] at h
      obtain ⟨rfl, hrest⟩ := List.cons_prefix_cons.mp h
      have htail := prefix_of_prefix_fill hvalue hinner hrest
      obtain ⟨rest, hrest⟩ := List.cons_prefix_cons.mpr ⟨rfl, htail⟩
      rw [← hchars] at hrest
      rw [← hrest, read?_chars hn] at hr
      cases hr
    · exact ih hvalue h

end Token

namespace Variable

theorem lower_of_mem_name : ∀ d ∈ registry, ∀ c ∈ d.name.toList, c.isLower = true ∨ c = '_' := by
  decide +kernel

theorem escape_sample : ∀ d ∈ registry, Text.escape d.sample.toList = d.sample.toList := by
  decide +kernel

theorem ne_brace_of_mem_sample : ∀ d ∈ registry, ∀ c ∈ d.sample.toList, c ≠ '{' ∧ c ≠ '}' := by
  decide +kernel

theorem not_lower_of_mem_sample :
    ∀ d ∈ registry, ¬ ∀ c ∈ d.sample.toList, c.isLower = true ∨ c = '_' := by
  decide +kernel

end Variable

namespace Values

open Token (FillsAside)

theorem fillsAside_sample {v : Values} {d d' : VariableDefinition} {name : List Char}
    (hd : d ∈ Variable.registry) (hd' : d' ∈ Variable.registry)
    (h : v.get? (.ofList name) = some d'.sample) :
    FillsAside v.plain? d.name.toList name ∧ FillsAside v.markup? d.name.toList name := by
  have hopen : '{' ∉ d'.sample.toList := fun hmem =>
    (Variable.ne_brace_of_mem_sample d' hd' _ hmem).1 rfl
  have hclose : '}' ∉ d'.sample.toList := fun hmem =>
    (Variable.ne_brace_of_mem_sample d' hd' _ hmem).2 rfl
  have hforeign := Variable.not_lower_of_mem_sample d' hd'
  push Not at hforeign
  obtain ⟨c, hc, hlower⟩ := hforeign
  have hchars : c ∉ Token.chars d.name.toList := by
    simp only [Token.chars, List.mem_cons, List.mem_append, List.not_mem_nil, or_false]
    rintro ((rfl | rfl | hmem) | rfl | rfl)
    · exact hopen hc
    · exact hopen hc
    · rcases Variable.lower_of_mem_name d hd c hmem with h | h
      · exact hlower.1 h
      · exact hlower.2 h
    · exact hclose hc
    · exact hclose hc
  refine ⟨⟨d'.sample.toList, ?_, hopen, hclose, c, hc, hchars⟩,
    ⟨d'.sample.toList, ?_, hopen, hclose, c, hc, hchars⟩⟩
  · rw [plain?, h, Option.map_some]
  · rw [markup?, h, Option.map_some, Variable.escape_sample d' hd']

end Values

namespace Template

open Markup

variable {t : Template} {n : String}

theorem get?_exampleValues_of_checkVariables_eq_nil (h : t.checkVariables = [])
    (hn : n ∈ t.variableNames) :
    ∃ d ∈ Variable.registry, d.name = n ∧ t.exampleValues.get? n = some d.sample := by
  obtain ⟨d, hd⟩ := exists_lookup?_of_checkVariables_eq_nil h hn
  obtain ⟨hmem, hname⟩ := Variable.name_of_lookup? hd
  refine ⟨d, hmem, hname, ?_⟩
  rw [get?_exampleValues, if_pos hn, hd, Option.map_some]

theorem mem_names_filledParts_of_unnamed {options : RenderOptions} {ms : List Markup}
    (hms : t.Fragments ms) (hc : options.company = .unnamed) :
    n ∈ names (filledParts (t.parts options ms.flatten)) ↔ n ∈ t.variableNames := by
  rw [mem_names_filledParts hms, References, hc]
  refine or_iff_left ?_
  rintro ⟨-, note, hnote, -⟩
  cases hnote

theorem mem_unresolved_emailOf_unnamed {options : RenderOptions} {v : Values} {ms : List Markup}
    (hms : t.Fragments ms) (hc : options.company = .unnamed) :
    n ∈ (t.emailOf v { options with mode := .substitute } ms).unresolved ↔
      n ∈ t.variableNames ∧ v.get? n = none := by
  rw [mem_unresolved_emailOf, mem_names_filledParts_of_unnamed hms hc]

theorem not_shows_of_checkVariables_eq_nil {options : RenderOptions} {ms : List Markup}
    (h : t.checkVariables = []) (hms : t.Fragments ms) (hc : options.company = .unnamed)
    (hn : n ∈ t.variableNames) :
    ¬ (t.emailOf t.exampleValues { options with mode := .substitute } ms).Shows n := by
  obtain ⟨d, hd, rfl, -⟩ := get?_exampleValues_of_checkVariables_eq_nil h hn
  have hvalid := isValidName_of_mem_variableNames hn
  have haside (name : List Char) (hname : .ofList name ∈ t.variableNames) :
      Token.FillsAside t.exampleValues.plain? d.name.toList name ∧
        Token.FillsAside t.exampleValues.markup? d.name.toList name := by
    obtain ⟨d', hd', -, hvalue⟩ := get?_exampleValues_of_checkVariables_eq_nil h hname
    exact Values.fillsAside_sample hd hd' hvalue
  rintro (hshown | hshown)
  · have hlegible : Legible (options.envelope.wrap (t.parts options ms.flatten)) :=
      legible_wrap (hc ▸ Company.tokenFree_unnamed) hms
    rw [emailOf, Filling.markup_substitute, String.toList_ofList] at hshown
    change _ <:+: fill _ (options.envelope.wrap (t.parts options ms.flatten)) at hshown
    rw [← hlegible] at hshown
    refine Token.not_infix_fill_pieces hvalid (fun name hname => (haside name ?_).2) hshown
    have hdrawn : .ofList name ∈ names (options.envelope.wrap (t.parts options ms.flatten)) := by
      rw [← hlegible, names_pieces]
      exact List.mem_map_of_mem hname
    exact (mem_names_filledParts_of_unnamed hms hc).mp (Envelope.mem_names_of_wrap hdrawn)
  · rw [emailOf, Filling.plain_substitute, String.toList_ofList] at hshown
    refine Token.not_infix_fill_pieces hvalid (fun name hname => (haside name ?_).1) hshown
    refine mem_variableNames.mpr (.inl (List.mem_flatMap.mpr ⟨t.subject, ?_, ?_⟩))
    · simp [headTexts]
    · exact List.mem_map_of_mem hname

end Template

namespace Draft

def previewOptions : RenderOptions :=
  ⟨.substitute, true, .unnamed, .full⟩

theorem preview_eq_ok {d : Draft} {e : RenderedEmail} : d.preview = .ok e ↔
    d.template.validate = .ok () ∧ ∃ ms, d.template.Fragments ms ∧
      e = d.template.emailOf d.template.exampleValues
        { previewOptions with mode := .substitute } ms :=
  Template.render_eq_ok

theorem mem_unresolved_preview {d : Draft} {e : RenderedEmail} (h : d.preview = .ok e)
    (n : String) : n ∈ e.unresolved ↔ n ∈ d.template.variableNames ∧ Variable.lookup? n = none := by
  obtain ⟨-, ms, hms, rfl⟩ := preview_eq_ok.mp h
  rw [Template.mem_unresolved_emailOf_unnamed hms rfl]
  refine and_congr_right fun hn => ?_
  rw [Template.get?_exampleValues, if_pos hn, Option.map_eq_none_iff]

theorem pairwise_unresolved_preview {d : Draft} {e : RenderedEmail} (h : d.preview = .ok e) :
    e.unresolved.Pairwise (fun a b => Variable.bytes a < Variable.bytes b) := by
  have hvalid (n : String) (hn : n ∈ e.unresolved) : Variable.isValidName n = true :=
    Template.isValidName_of_mem_variableNames ((mem_unresolved_preview h n).mp hn).1
  obtain ⟨-, ms, -, rfl⟩ := preview_eq_ok.mp h
  refine (Variable.pairwise_sorted _).imp_of_mem ?_
  intro a b ha hb hlt
  exact Variable.bytes_lt_of_lt (hvalid a ha) (hvalid b hb) hlt

theorem not_shows_preview {d : Draft} {e : RenderedEmail} (h : d.preview = .ok e)
    (hchecks : d.template.checkVariables = []) {n : String} (hn : n ∈ d.template.variableNames) :
    ¬ e.Shows n := by
  obtain ⟨-, ms, hms, rfl⟩ := preview_eq_ok.mp h
  exact Template.not_shows_of_checkVariables_eq_nil hchecks hms rfl hn

theorem preview_agrees_with_checks {d : Draft} {e : RenderedEmail} (h : d.preview = .ok e) :
    (e.unresolved.Pairwise (fun a b => Variable.bytes a < Variable.bytes b) ∧
      ∀ n, n ∈ e.unresolved ↔
        ∃ w ∈ d.template.checkVariables, w.title = "Unknown variable" ∧ w.IsAbout n) ∧
    (∃ groups, d.template.checkVariables = groups.flatten ∧
      List.Forall₂
        (fun name ds => List.Forall₂ (Template.Warns name) (d.template.dueCodes name) ds)
        d.template.variableNames groups) ∧
    (d.template.checkVariables = [] →
      e.unresolved = [] ∧ ∀ n ∈ d.template.variableNames, ¬ e.Shows n) := by
  have hunknown (n : String) : n ∈ e.unresolved ↔
      ∃ w ∈ d.template.checkVariables, w.title = "Unknown variable" ∧ w.IsAbout n :=
    (mem_unresolved_preview h n).trans Template.exists_unknown_iff.symm
  refine ⟨⟨pairwise_unresolved_preview h, hunknown⟩, d.template.warns_checkVariables,
    fun hchecks => ⟨?_, fun n hn => not_shows_preview h hchecks hn⟩⟩
  refine List.eq_nil_iff_forall_not_mem.mpr fun n hn => ?_
  obtain ⟨w, hw, -⟩ := (hunknown n).mp hn
  rw [hchecks] at hw
  cases hw

def nicknamed : Draft :=
  .ofTemplate { SystemTemplate.welcome.starter with subject := "Hi \x7b\x7bnickname\x7d\x7d" }

theorem preview_agrees_with_checks_nicknamed : ∃ e, nicknamed.preview = .ok e ∧
    ((e.unresolved.Pairwise (fun a b => Variable.bytes a < Variable.bytes b) ∧
      ∀ n, n ∈ e.unresolved ↔ ∃ w ∈ nicknamed.template.checkVariables,
        w.title = "Unknown variable" ∧ w.IsAbout n) ∧
    (∃ groups, nicknamed.template.checkVariables = groups.flatten ∧
      List.Forall₂
        (fun name ds => List.Forall₂ (Template.Warns name) (nicknamed.template.dueCodes name) ds)
        nicknamed.template.variableNames groups) ∧
    (nicknamed.template.checkVariables = [] →
      e.unresolved = [] ∧ ∀ n ∈ nicknamed.template.variableNames, ¬ e.Shows n)) := by
  have h : nicknamed.preview = .ok _ := preview_eq_ok.mpr
    ⟨by rfl, _, SystemTemplate.fragments_starter SystemTemplate.welcome, rfl⟩
  exact ⟨_, h, preview_agrees_with_checks h⟩

end Draft

end EmailTemplates
