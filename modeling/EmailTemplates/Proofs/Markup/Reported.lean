import EmailTemplates.Proofs.Markup.Leftover

namespace EmailTemplates

namespace Markup

theorem infix_fill_of_mem_names {value? : List Char → Option (List Char)} {m : Markup} {n : String}
    (h : n ∈ m.names) (hv : value? n.toList = none) : Token.chars n.toList <:+: m.fill value? := by
  obtain ⟨piece, hpiece, hn⟩ := List.mem_filterMap.mp h
  cases piece with
  | char c => cases hn
  | reference name =>
    cases hn
    obtain ⟨before, after, rfl⟩ := List.append_of_mem hpiece
    rw [String.toList_ofList] at hv ⊢
    rw [fill_append, fill, hv, Option.getD_none, ← List.append_assoc]
    exact List.infix_append _ _ _

end Markup

namespace Envelope

open Markup

theorem names_footer (p : Parts) :
    names (footer p) = if p.footer = .standard then p.note.toList.flatMap names else [] := by
  unfold footer
  split
  · rename_i h
    simp [h]
  · rename_i h
    simp [h, names_footerLine]
  · rename_i h
    simp [h, names_footerLine, supportLine]

end Envelope

namespace Template

open Markup

variable {t : Template} {options : RenderOptions} {v : Values} {n : String}

theorem mem_names_document {content : Markup} :
    n ∈ names (Envelope.document (t.parts options content)) ↔
      n ∈ t.headTexts.flatMap Variable.occurrences ∨ n ∈ names content ∨
        t.footer.kind = .standard ∧
          n ∈ (t.note options.company).toList.flatMap Variable.occurrences := by
  have hpart (text : Option String) : (text.map authored).toList.flatMap names =
      text.toList.flatMap Variable.occurrences := by
    cases text <;> simp
  have hfooter : n ∈ names (Envelope.footer (t.parts options content)) ↔
      t.footer.kind = .standard ∧
        n ∈ (t.note options.company).toList.flatMap Variable.occurrences := by
    rw [Envelope.names_footer, List.mem_ite_nil_right, parts, hpart]
  simp only [Envelope.names_document, List.mem_append, hfooter]
  simp only [parts, hpart, names_escaped, names_authored, headTexts, List.flatMap_append,
    List.flatMap_singleton, List.mem_append]
  tauto

def OnlyInUndrawnNote (t : Template) (company : Company) (n : String) : Prop :=
  t.footer.kind ≠ .standard ∧
    n ∈ (t.note company).toList.flatMap Variable.occurrences ∧
    n ∉ t.headTexts.flatMap Variable.occurrences ∧
    ∀ b ∈ t.blocks, n ∉ b.fields.flatMap Field.occurrences

theorem mem_names_document_of_filledParts {ms : List Markup} (h : t.Fragments ms)
    (hn : n ∈ names (filledParts (t.parts options ms.flatten))) :
    n ∈ names (Envelope.document (t.parts options ms.flatten)) ∨
      t.OnlyInUndrawnNote options.company n := by
  rw [names_filledParts, List.mem_append, List.mem_append] at hn
  rw [mem_names_document]
  by_cases hhead : n ∈ t.headTexts.flatMap Variable.occurrences
  · exact .inl (.inl hhead)
  by_cases hcontent : n ∈ names ms.flatten
  · exact .inl (.inr (.inl hcontent))
  have hnote : n ∈ (t.note options.company).toList.flatMap Variable.occurrences := by tauto
  by_cases hkind : t.footer.kind = .standard
  · exact .inl (.inr (.inr ⟨hkind, hnote⟩))
  · refine .inr ⟨hkind, hnote, hhead, fun b hb hfield => hcontent ?_⟩
    exact (mem_names_of_fragments h n).mpr ⟨b, hb, hfield⟩

theorem shows_of_unresolved {e : RenderedEmail}
    (h : t.render v { options with mode := .substitute, envelope := .full } = .ok e) :
    ∀ n ∈ e.unresolved, e.Shows n ∨ t.OnlyInUndrawnNote options.company n := by
  obtain ⟨-, ms, hms, rfl⟩ := render_eq_ok.mp h
  intro n hn
  have hreported : n ∈ names (filledParts (t.parts options ms.flatten)) ∧ v.get? n = none :=
    mem_unresolved_emailOf.mp hn
  obtain ⟨hnames, hnone⟩ := hreported
  refine (mem_names_document_of_filledParts hms hnames).imp_left fun hdrawn => .inl ?_
  have hvalue : (Filling.mk .substitute v).markupValue? n.toList = none := by
    rw [Filling.markupValue?, Filling.plainValue?, String.ofList_toList, hnone]
    rfl
  rw [emailOf, Filling.markup, String.toList_ofList]
  exact infix_fill_of_mem_names hdrawn hvalue

theorem not_shows_of_onlyInUndrawnNote {ms : List Markup} (h : t.Fragments ms)
    (ht : ∀ s ∈ t.drawnTexts, Token.Tidy s.toList)
    (hn : ∀ s ∈ options.company.footerNote, Token.Tidy s.toList)
    (hv : ∀ name value, v.get? name = some value → '{' ∉ value.toList)
    (hc : ∀ s ∈ options.company.details, '{' ∉ s.toList)
    (honly : t.OnlyInUndrawnNote options.company n) :
    ¬ (t.emailOf v { options with mode := .substitute, envelope := .full } ms).Shows n := by
  obtain ⟨hkind, hnote, hhead, hblocks⟩ := honly
  have hname : Variable.isValidName n = true := by
    obtain ⟨note, -, hmem⟩ := List.mem_flatMap.mp hnote
    exact Variable.isValidName_of_mem_occurrences hmem
  intro hshown
  have hdrawn : (n ∈ names (Envelope.document (t.parts options ms.flatten)) ∨
      n ∈ Variable.occurrences t.subject) ∧ v.get? n = none :=
    @drawn_of_shows t { options with envelope := .full } v ms h ht hn hv hc n hname hshown
  rcases hdrawn.1 with hdrawn | hsubject
  · rcases mem_names_document.mp hdrawn with hmem | hmem | ⟨hstandard, -⟩
    · exact hhead hmem
    · obtain ⟨b, hb, hfield⟩ := (mem_names_of_fragments h n).mp hmem
      exact hblocks b hb hfield
    · exact hkind hstandard
  · exact hhead (List.mem_flatMap.mpr ⟨t.subject, by simp [headTexts], hsubject⟩)

def mutedWelcome : Template :=
  { SystemTemplate.welcome.starter with
    footer := ⟨.minimal, some "Sent to \x7b\x7brecipient\x7d\x7d"⟩ }

theorem render_mutedWelcome (values : Values) (options : RenderOptions) :
    mutedWelcome.render values options = .ok (mutedWelcome.emailOf values options
      [Fragment.greetingMarkup "customer_name",
        Fragment.paragraphMarkup "Add your message here."]) :=
  render_eq_ok.mpr ⟨rfl, _, SystemTemplate.fragments_starter _, rfl⟩

theorem shows_of_unresolved_mutedWelcome :
    ∃ e, mutedWelcome.render .empty (.ofMode .substitute) = .ok e ∧
      ∀ n ∈ e.unresolved, e.Shows n ∨ mutedWelcome.OnlyInUndrawnNote .unnamed n :=
  ⟨_, render_mutedWelcome _ _, @shows_of_unresolved _ (.ofMode .substitute) _ _
    (render_mutedWelcome _ _)⟩

theorem recipient_reported_unseen :
    ∃ e, mutedWelcome.render .empty (.ofMode .substitute) = .ok e ∧
      "recipient" ∈ e.unresolved ∧ ¬ e.Shows "recipient" := by
  have hnote : Variable.occurrences "Sent to \x7b\x7brecipient\x7d\x7d" = ["recipient"] := by
    decide +kernel
  have honly : mutedWelcome.OnlyInUndrawnNote .unnamed "recipient" := by
    refine ⟨by decide, ?_, by decide +kernel, by decide +kernel⟩
    exact List.mem_flatMap.mpr ⟨_, List.mem_singleton.mpr rfl, by rw [hnote]; simp⟩
  have hfragments := SystemTemplate.fragments_starter SystemTemplate.welcome
  refine ⟨_, render_mutedWelcome _ _, ?_, ?_⟩
  · refine (@mem_unresolved_emailOf _ (.ofMode .substitute) _ _ _).mpr ⟨?_, rfl⟩
    rw [names_filledParts]
    exact List.mem_append_right _ honly.2.1
  · exact @not_shows_of_onlyInUndrawnNote mutedWelcome (.ofMode .substitute) _ _ _
      hfragments (by decide) (by decide) (by simp [Values.get?, Values.empty]) (by decide) honly

end Template

end EmailTemplates
