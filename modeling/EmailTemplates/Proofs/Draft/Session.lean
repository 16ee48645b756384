import EmailTemplates.Draft.Session
import EmailTemplates.Proofs.SystemTemplate
import Mathlib.Data.List.Basic

namespace EmailTemplates

open Outcome

namespace Template

theorem locate_block (t : Template) (id : String) :
    (t.position? id = none ∧ t.block? id = none) ∨
      ∃ i b, t.position? id = some i ∧ t.block? id = some b ∧ t.blocks[i]? = some b ∧ b.id = id := by
  unfold position? block?
  induction t.blocks with
  | nil => exact .inl ⟨rfl, rfl⟩
  | cons b blocks ih =>
    rw [List.findIdx?_cons, List.find?_cons]
    by_cases h : b.id = id
    · exact .inr ⟨0, b, by simp [h], by simp [h], rfl, h⟩
    · rw [beq_false_of_ne h]
      rcases ih with ⟨hi, hb⟩ | ⟨i, found, hi, hb, hget, hid⟩
      · exact .inl ⟨by simp [hi], hb⟩
      · exact .inr ⟨i + 1, found, by simp [hi], hb, hget, hid⟩

end Template

namespace Editing

def ofChange (change : Template → Except TemplateError Template) : Editing Unit := fun d =>
  match change d.template with
  | .ok t => .ok () { d with template := t }
  | .error e => .error e d

variable (d : Draft)

theorem bind_apply {α β : Type} (x : Editing α) (f : α → Editing β) :
    (x >>= f) d = match x d with
      | .ok a d => f a d
      | .error e d => .error e d := by
  cases h : x d <;> simp only [bind, EStateM.bind, h]

theorem get_apply : (get : Editing Draft) d = .ok d d := rfl

theorem throw_apply {α : Type} (e : TemplateError) : (throw e : Editing α) d = .error e d := rfl

theorem blocks_apply : blocks d = .ok d.template.blocks d := rfl

theorem setBlocks_apply (bs : List Block) :
    setBlocks bs d = .ok () { d with template := d.template.withBlocks bs } := rfl

theorem ensureUnusedId_apply (b : Block) : ensureUnusedId b d =
    if b.id = "" then .error (.emptyBlockId d.template.blocks.length) d
    else if (d.template.block? b.id).isSome then .error (.duplicateBlockId b.id) d
    else .ok () d := by
  unfold ensureUnusedId
  simp only [bind_apply, get_apply]
  split
  · rfl
  · split <;> rfl

theorem locate_of_some {id : String} {i : Nat} (h : d.template.position? id = some i) :
    locate id d = .ok i d := by
  simp only [locate, bind_apply, get_apply, h]
  rfl

theorem locate_of_none {id : String} (h : d.template.position? id = none) :
    locate id d = .error (.blockNotFound id) d := by
  simp only [locate, bind_apply, get_apply, h, throw_apply]

theorem insertBlock_apply (index : Nat) (b : Block) :
    insertBlock index b d = ofChange (·.insertBlock index b) d := by
  unfold insertBlock ofChange Template.insertBlock
  simp only [bind_apply, blocks_apply]
  by_cases hi : d.template.blocks.length < index
  · simp only [hi, if_true, bind_apply, throw_apply]
  · simp only [hi, if_false, bind_apply, ensureUnusedId_apply]
    by_cases he : b.id = ""
    · simp only [he, if_true]
    · simp only [he, if_false]
      by_cases hu : (d.template.block? b.id).isSome
      · simp only [hu, if_true]
      · simp only [hu, Bool.false_eq_true, if_false, blocks_apply, setBlocks_apply]

theorem replaceBlock_apply (b : Block) :
    replaceBlock b d = ofChange (fun t => (t.replaceBlock b).map Prod.snd) d := by
  unfold replaceBlock ofChange Template.replaceBlock
  rw [bind_apply]
  rcases d.template.locate_block b.id with ⟨hi, hb⟩ | ⟨i, old, hi, hb, -, -⟩
  · simp only [locate_of_none d hi, hi, hb, Except.map]
  · simp only [locate_of_some d hi, hi, hb, Except.map, bind_apply, blocks_apply, setBlocks_apply]

theorem moveBlock_apply (id : String) (target : Nat) :
    moveBlock id target d = ofChange (·.moveBlock id target) d := by
  unfold moveBlock ofChange Template.moveBlock
  rw [bind_apply]
  rcases d.template.locate_block id with ⟨hi, hb⟩ | ⟨i, b, hi, hb, hget, -⟩
  · simp only [locate_of_none d hi, hi, hb]
  · simp only [locate_of_some d hi, hi, hb, bind_apply, blocks_apply]
    by_cases ht : d.template.blocks.length ≤ target
    · simp only [ht, if_true, bind_apply, throw_apply]
    · simp only [ht, if_false, bind_apply, blocks_apply, setBlocks_apply, hget]
      rfl

theorem removeBlock_apply (id : String) :
    removeBlock id d = ofChange (fun t => (t.removeBlock id).map Prod.snd) d := by
  unfold removeBlock ofChange Template.removeBlock
  rw [bind_apply]
  rcases d.template.locate_block id with ⟨hi, hb⟩ | ⟨i, old, hi, hb, -, -⟩
  · simp only [locate_of_none d hi, hi, hb, Except.map]
  · simp only [locate_of_some d hi, hi, hb, Except.map, bind_apply, blocks_apply, setBlocks_apply]

theorem setSubject_apply (subject : String) : setSubject subject d =
    ofChange (fun t => EditCommand.run t (.setSubject subject)) d := by
  by_cases h : Text.isBlankText subject = true
  · simp only [setSubject, ofChange, EditCommand.run, h, if_true, bind_apply, throw_apply]
  · simp only [setSubject, ofChange, EditCommand.run, h]
    rfl

end Editing

namespace EditCommand

variable {d : Draft} {command : EditCommand}

theorem perform_eq (command : EditCommand) (d : Draft) : command.perform d =
    (Editing.ofChange (fun t => command.run t) >>= fun _ => modify fun d => { d with dirty := true })
      d := by
  cases command with
  | insertBlock index block =>
    unfold perform
    simp only [Editing.bind_apply, Editing.insertBlock_apply]
    rfl
  | replaceBlock block =>
    unfold perform
    simp only [Editing.bind_apply, Editing.replaceBlock_apply]
    rfl
  | moveBlock id target =>
    unfold perform
    simp only [Editing.bind_apply, Editing.moveBlock_apply]
    rfl
  | removeBlock id =>
    unfold perform
    simp only [Editing.bind_apply, Editing.removeBlock_apply]
    rfl
  | setSubject subject =>
    unfold perform
    simp only [Editing.bind_apply, Editing.setSubject_apply]
  | setPreheader preheader => rfl
  | setColorScheme scheme => rfl

theorem perform_of_ok {d' : Draft} (h : d.apply command = .ok d') :
    command.perform d = .ok () d' := by
  obtain ⟨t, hr, rfl⟩ := map_eq_ok.mp h
  rw [perform_eq, Editing.bind_apply, Editing.ofChange, hr]
  rfl

theorem perform_of_error {e : TemplateError} (h : d.apply command = .error e) :
    command.perform d = .error e d := by
  rw [perform_eq, Editing.bind_apply, Editing.ofChange, map_eq_error.mp h]

end EditCommand

namespace Draft

theorem dirty_of_apply {d d' : Draft} {command : EditCommand} (h : d.apply command = .ok d') :
    d'.dirty = true := by
  obtain ⟨t, -, rfl⟩ := map_eq_ok.mp h
  rfl

namespace Action

variable {d : Draft} {action : Action}

theorem perform_apply (command : EditCommand) (d : Draft) :
    (∃ d', d.apply command = .ok d' ∧ (apply command).perform d = (.done, d')) ∨
      ∃ e, d.apply command = .error e ∧ (apply command).perform d = (.refused e, d) := by
  cases h : d.apply command with
  | ok d' => exact .inl ⟨d', rfl, by rw [perform, EditCommand.perform_of_ok h]⟩
  | error e => exact .inr ⟨e, rfl, by rw [perform, EditCommand.perform_of_error h]⟩

theorem unchanged_of_isError (h : (action.perform d).1.isError = true) :
    (action.perform d).2 = d := by
  cases action with
  | apply command =>
    rcases perform_apply command d with ⟨d', -, hp⟩ | ⟨e, -, hp⟩
    · rw [hp] at h
      cases h
    · rw [hp]
  | markSaved => cases h
  | preview => rfl
  | previewWith values => rfl
  | storedMarkup => rfl

theorem dirty_of_done {command : EditCommand} (h : ((apply command).perform d).1 = .done) :
    ((apply command).perform d).2.dirty = true := by
  rcases perform_apply command d with ⟨d', ha, hp⟩ | ⟨e, -, hp⟩
  · rw [hp]
    exact dirty_of_apply ha
  · rw [hp] at h
    cases h

theorem eq_of_clean (hs : action ≠ markSaved) (h : (action.perform d).2.dirty = false) :
    (action.perform d).2 = d := by
  cases action with
  | apply command =>
    rcases perform_apply command d with ⟨d', ha, hp⟩ | ⟨e, -, hp⟩
    · rw [hp, dirty_of_apply ha] at h
      cases h
    · rw [hp]
  | markSaved => exact absurd rfl hs
  | preview => rfl
  | previewWith values => rfl
  | storedMarkup => rfl

end Action

theorem lastSaved_cons {saved : Template} {d : Draft} {action : Action} (actions : List Action)
    (h : action ≠ .markSaved) :
    lastSaved saved d (action :: actions) = lastSaved saved (action.perform d).2 actions := by
  cases action <;> first | rfl | exact absurd rfl h

theorem template_after_of_clean {saved : Template} {d : Draft}
    (hd : d.dirty = false → d.template = saved) (actions : List Action) :
    (d.after actions).dirty = false → (d.after actions).template = lastSaved saved d actions := by
  induction actions generalizing saved d with
  | nil => exact hd
  | cons action actions ih =>
    by_cases hs : action = .markSaved
    · subst hs
      exact @ih d.template d.markSaved fun _ => rfl
    · rw [lastSaved_cons actions hs]
      refine @ih saved (action.perform d).2 fun h => ?_
      have hsame : (action.perform d).2 = d := Action.eq_of_clean hs h
      rw [hsame] at h ⊢
      exact hd h

theorem edits_atomic_and_dirty_sound (t : Template) (actions : List Action) :
    (∀ action : Action, (action.perform (reached t actions)).1.isError = true →
        (action.perform (reached t actions)).2 = reached t actions) ∧
      (∀ command, ((Action.apply command).perform (reached t actions)).1 = .done →
        ((Action.apply command).perform (reached t actions)).2.dirty = true) ∧
      ((reached t actions).dirty = false →
        (reached t actions).template = lastSaved t (ofTemplate t) actions) := by
  refine ⟨?_, ?_, ?_⟩
  · exact fun action h => Action.unchanged_of_isError h
  · exact fun command h => Action.dirty_of_done h
  · exact template_after_of_clean (fun _ => rfl) actions

theorem edits_of_welcome :
    let t := SystemTemplate.welcome.starter
    let actions : List Action :=
      [.apply (.setSubject "Hello"), .markSaved, .apply (.removeBlock "missing")]
    ((Action.apply (.setSubject " ")).perform (reached t actions)).2 = reached t actions ∧
      ((Action.apply (.moveBlock "intro" 0)).perform (reached t actions)).2.dirty = true ∧
      (reached t actions).template = { t with subject := "Hello" } := by
  intro t actions
  obtain ⟨hatomic, hdirty, hsaved⟩ := edits_atomic_and_dirty_sound t actions
  exact ⟨hatomic _ rfl, hdirty _ rfl, hsaved rfl⟩

end Draft

end EmailTemplates
