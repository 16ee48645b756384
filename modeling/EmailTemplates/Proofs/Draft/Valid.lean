import EmailTemplates.Proofs.Template.Undo
import EmailTemplates.Proofs.Verdict

namespace EmailTemplates

open Outcome

namespace Template

theorem malformed_of_render_error {t : Template} {values : Values} {options : RenderOptions}
    {e : RenderError} (hv : t.validate = .ok ()) (h : t.render values options = .error e) :
    ∃ m, e = .malformedBlock m ∧ m.blockId ∈ t.blocks.map (·.id) := by
  have hrefused : t.RefusedFor e := ((judged_render t values options).refuses e).mp h
  cases e with
  | invalidTemplate reason =>
    rw [RefusedFor, hv] at hrefused
    cases hrefused
  | malformedBlock m =>
    obtain ⟨-, b, hfirst, hblamed⟩ := hrefused
    exact ⟨m, rfl, List.mem_map.mpr ⟨b, hfirst.mem_and_holds.1, hblamed.blockId.symm⟩⟩

variable {t t' : Template}

theorem validate_withBlocks {blocks : List Block} (hv : t.validate = .ok ())
    (hd : (t.withBlocks blocks).HasDistinctIds) : (t.withBlocks blocks).validate = .ok () := by
  obtain ⟨hs, hn, hsub, ht, -, hdecl⟩ := validate_eq_ok.mp hv
  have hids : validateIds [] 0 blocks = .ok () :=
    validateIds_eq_ok.mpr ⟨fun b hb => ⟨hd.1 b hb, List.not_mem_nil⟩, hd.2⟩
  exact validate_eq_ok.mpr ⟨hs, hn, hsub, ht, hids, hdecl⟩

theorem validate_insertBlock {index : Nat} {b : Block} (hv : t.validate = .ok ())
    (h : t.insertBlock index b = .ok t') : t'.validate = .ok () := by
  obtain ⟨rfl, hne, hb⟩ := placed_of_insertBlock h
  exact validate_withBlocks hv (hb.hasDistinctIds_iff.mpr ⟨hne, hasDistinctIds_of_validate hv⟩)

theorem validate_replaceBlock {b : Block} {old : Block} (hv : t.validate = .ok ())
    (h : t.replaceBlock b = .ok (old, t')) : t'.validate = .ok () := by
  have hd := hasDistinctIds_of_validate hv
  obtain ⟨i, others, hid, hold, rfl⟩ := placed_of_replaceBlock hd h
  obtain ⟨hne, hothers⟩ := hold.hasDistinctIds_iff.mp hd
  have hb := hold.moved hid.symm hold.fits
  exact validate_withBlocks hv (hb.hasDistinctIds_iff.mpr ⟨hid ▸ hne, hothers⟩)

theorem validate_moveBlock {id : String} {target : Nat} (hv : t.validate = .ok ())
    (h : t.moveBlock id target = .ok t') : t'.validate = .ok () := by
  have hd := hasDistinctIds_of_validate hv
  obtain ⟨b, source, others, rfl, hb, htarget, rfl⟩ := placed_of_moveBlock hd h
  have hb' := hb.moved rfl htarget
  exact validate_withBlocks hv (hb'.hasDistinctIds_iff.mpr (hb.hasDistinctIds_iff.mp hd))

theorem validate_removeBlock {id : String} {old : Block} (hv : t.validate = .ok ())
    (h : t.removeBlock id = .ok (old, t')) : t'.validate = .ok () := by
  have hd := hasDistinctIds_of_validate hv
  obtain ⟨i, others, rfl, -, hold, rfl⟩ := placed_of_removeBlock hd h
  exact validate_withBlocks hv (hold.hasDistinctIds_iff.mp hd).2

theorem validate_run {command : EditCommand} (hv : t.validate = .ok ())
    (h : command.run t = .ok t') : t'.validate = .ok () := by
  cases command with
  | insertBlock index block => exact validate_insertBlock hv h
  | replaceBlock block =>
    obtain ⟨⟨old, _⟩, hr, rfl⟩ := map_eq_ok.mp h
    exact validate_replaceBlock hv hr
  | moveBlock id target => exact validate_moveBlock hv h
  | removeBlock id =>
    obtain ⟨⟨old, _⟩, hr, rfl⟩ := map_eq_ok.mp h
    exact validate_removeBlock hv hr
  | setSubject subject =>
    unfold EditCommand.run at h
    simp only at h
    split at h
    · cases h
    · rename_i hblank
      cases h
      obtain ⟨hs, hn, -, ht, hi, hd⟩ := validate_eq_ok.mp hv
      exact validate_eq_ok.mpr ⟨hs, hn, by simpa using hblank, ht, hi, hd⟩
  | setPreheader preheader =>
    cases h
    exact validate_eq_ok.mpr (validate_eq_ok.mp hv)
  | setColorScheme scheme =>
    cases h
    exact validate_eq_ok.mpr (validate_eq_ok.mp hv)

end Template

namespace Draft

theorem validate_perform {d : Draft} (action : Action) (hv : d.template.validate = .ok ()) :
    (action.perform d).2.template.validate = .ok () := by
  cases action with
  | apply command =>
    rcases Action.perform_apply command d with ⟨d', ha, hp⟩ | ⟨e, -, hp⟩
    · rw [hp]
      obtain ⟨t, hr, rfl⟩ := map_eq_ok.mp ha
      exact Template.validate_run hv hr
    · rw [hp]
      exact hv
  | markSaved => exact hv
  | preview => exact hv
  | previewWith values => exact hv
  | storedMarkup => exact hv

theorem validate_after {d : Draft} (actions : List Action) (hv : d.template.validate = .ok ()) :
    (d.after actions).template.validate = .ok () := by
  induction actions generalizing d with
  | nil => exact hv
  | cons action actions ih => exact ih (validate_perform action hv)

theorem render_of_storedMarkup_error {d : Draft} {e : RenderError} (h : d.storedMarkup = .error e) :
    d.template.render .empty (.ofMode .preserve) = .error e :=
  (bind_eq_error_of_ok fun email : RenderedEmail => ⟨email.html, rfl⟩).mp h

theorem editing_keeps_valid {t : Template} (hv : t.validate = .ok ()) (actions : List Action) :
    (reached t actions).template.validate = .ok () ∧
      ∀ e : RenderError, ((reached t actions).preview = .error e ∨
          (∃ values, (reached t actions).previewWith values = .error e) ∨
          (reached t actions).storedMarkup = .error e) →
        ∃ m, e = .malformedBlock m ∧ m.blockId ∈ (reached t actions).template.blocks.map (·.id) := by
  have hvalid : (reached t actions).template.validate = .ok () := validate_after actions hv
  refine ⟨hvalid, ?_⟩
  rintro e (h | ⟨values, h⟩ | h)
  · exact Template.malformed_of_render_error hvalid h
  · exact Template.malformed_of_render_error hvalid h
  · exact Template.malformed_of_render_error hvalid (render_of_storedMarkup_error h)

theorem editing_keeps_valid_welcome :
    let t := SystemTemplate.welcome.starter
    let actions : List Action :=
      [.apply (.replaceBlock ⟨"intro", .spacer 0⟩), .preview, .apply (.removeBlock "missing")]
    t.validate = .ok () ∧ (reached t actions).template.validate = .ok () ∧
      (reached t actions).storedMarkup = .error (.malformedBlock ⟨"intro", "height", .noHeight⟩) ∧
      "intro" ∈ (reached t actions).template.blocks.map (·.id) := by
  have ht : SystemTemplate.welcome.starter.validate = .ok () :=
    SystemTemplate.validate_starter SystemTemplate.welcome_mem_all
  obtain ⟨hvalid, herrors⟩ := editing_keeps_valid ht
    [.apply (.replaceBlock ⟨"intro", .spacer 0⟩), .preview, .apply (.removeBlock "missing")]
  obtain ⟨m, hm, hid⟩ := herrors (.malformedBlock ⟨"intro", "height", .noHeight⟩)
    (.inr (.inr rfl))
  cases hm
  exact ⟨ht, hvalid, rfl, hid⟩

end Draft

end EmailTemplates
