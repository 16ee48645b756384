import EmailTemplates.Proofs.Draft.Session
import EmailTemplates.Proofs.Source.Usable
import EmailTemplates.Template.Edit
import Mathlib.Data.List.InsertIdx

namespace EmailTemplates.Template

variable {t t' : Template} {b old : Block} {others : List Block} {id : String}
  {i source target : Nat}

structure Placed (b : Block) (i : Nat) (others : List Block) (t : Template) : Prop where
  fits : i ≤ others.length
  blocks : t.blocks = others.insertIdx i b
  unused : ∀ x ∈ others, x.id ≠ b.id

theorem withBlocks_self (t : Template) : t.withBlocks t.blocks = t := rfl

theorem find?_insertIdx (hi : i ≤ others.length) (hu : ∀ x ∈ others, x.id ≠ b.id) :
    (others.insertIdx i b).findIdx? (·.id == b.id) = some i ∧
      (others.insertIdx i b).find? (·.id == b.id) = some b := by
  induction others generalizing i with
  | nil =>
    cases Nat.le_zero.mp hi
    simp
  | cons x others ih =>
    cases i with
    | zero => simp [List.findIdx?_cons]
    | succ i =>
      obtain ⟨hx, hothers⟩ := List.forall_mem_cons.mp hu
      obtain ⟨hindex, hb⟩ := ih (Nat.le_of_succ_le_succ hi) hothers
      simp [List.findIdx?_cons, hx, hindex, hb]

theorem set_insertIdx {α : Type} {xs : List α} {x y : α} (hi : i ≤ xs.length) :
    (xs.insertIdx i x).set i y = xs.insertIdx i y := by
  have hne : i ≠ (xs.insertIdx i x).length := by
    rw [List.length_insertIdx_of_le_length hi]
    omega
  rw [← List.insertIdx_eraseIdx_self hne, List.eraseIdx_insertIdx_self]

theorem filter_insertIdx {p : Block → Bool} (hb : p b = false) (others : List Block) (i : Nat) :
    (others.insertIdx i b).filter p = others.filter p := by
  induction others generalizing i with
  | nil => cases i <;> simp [hb]
  | cons x others ih =>
    cases i with
    | zero => simp [hb]
    | succ i => simp [List.filter_cons, ih]

namespace Placed

variable (h : Placed b i others t)
include h

theorem position? : t.position? b.id = some i := by
  rw [Template.position?, h.blocks]
  exact (find?_insertIdx h.fits h.unused).1

theorem block? : t.block? b.id = some b := by
  rw [Template.block?, h.blocks]
  exact (find?_insertIdx h.fits h.unused).2

theorem length : t.blocks.length = others.length + 1 := by
  rw [h.blocks, List.length_insertIdx, if_pos h.fits]

theorem getElem? : t.blocks[i]? = some b := by
  rw [h.blocks, List.getElem?_insertIdx_self, if_pos h.fits]

theorem eraseIdx : t.blocks.eraseIdx i = others := by
  rw [h.blocks, List.eraseIdx_insertIdx_self]

theorem perm : t.blocks.Perm (b :: others) := by
  rw [h.blocks]
  exact List.perm_insertIdx b others h.fits

theorem hasDistinctIds_iff :
    t.HasDistinctIds ↔ b.id ≠ "" ∧ (t.withBlocks others).HasDistinctIds := by
  have hunused : b.id ∉ others.map (·.id) := by
    intro hmem
    obtain ⟨x, hx, hid⟩ := List.mem_map.mp hmem
    exact h.unused x hx hid
  simp only [HasDistinctIds, h.perm.mem_iff, (h.perm.map (·.id)).nodup_iff, List.map_cons,
    List.nodup_cons, List.forall_mem_cons, Template.withBlocks, hunused, not_false_eq_true,
    true_and, and_assoc]

theorem set (c : Block) : t.blocks.set i c = others.insertIdx i c := by
  rw [h.blocks, set_insertIdx h.fits]

theorem withBlocks : t.withBlocks (others.insertIdx i b) = t := by
  rw [← h.blocks, withBlocks_self]

theorem moved {c : Block} (hc : c.id = b.id) (htarget : target ≤ others.length) :
    Placed c target others (t.withBlocks (others.insertIdx target c)) where
  fits := htarget
  blocks := rfl
  unused := by
    rw [hc]
    exact h.unused

theorem moveBlock (htarget : target ≤ others.length) :
    t.moveBlock b.id target = .ok (t.withBlocks (others.insertIdx target b)) := by
  have hlt : ¬ t.blocks.length ≤ target := by
    rw [h.length]
    omega
  simp only [Template.moveBlock, h.position?, h.block?, hlt, if_false, h.eraseIdx]

theorem removeBlock : t.removeBlock b.id = .ok (b, t.withBlocks others) := by
  simp only [Template.removeBlock, h.position?, h.block?, h.eraseIdx]

theorem replaceBlock {c : Block} (hc : c.id = b.id) :
    t.replaceBlock c = .ok (b, t.withBlocks (others.insertIdx i c)) := by
  simp only [Template.replaceBlock, hc, h.position?, h.block?, h.set]

theorem insertBlock (hb : b.id ≠ "") : (t.withBlocks others).insertBlock i b = .ok t := by
  have hi : ¬ others.length < i := Nat.not_lt.mpr h.fits
  have hnone : others.find? (·.id == b.id) = none := by
    rw [List.find?_eq_none]
    exact fun x hx => by simpa using h.unused x hx
  have hblock : (t.withBlocks others).block? b.id = none := hnone
  unfold Template.insertBlock
  rw [if_neg (by exact hi), if_neg hb, hblock]
  exact congrArg Except.ok h.withBlocks

end Placed

theorem HasDistinctIds.exists_placed (hd : t.HasDistinctIds) (hi : t.position? id = some i) :
    ∃ b, b.id = id ∧ b.id ≠ "" ∧ Placed b i (t.blocks.eraseIdx i) t := by
  rcases t.locate_block id with ⟨hnone, -⟩ | ⟨j, b, hj, -, hget, hid⟩
  · rw [hi] at hnone
    cases hnone
  · cases hi.symm.trans hj
    obtain ⟨hlt, rfl⟩ := List.getElem?_eq_some_iff.mp hget
    have hperm := (List.getElem_cons_eraseIdx_perm hlt).map (·.id)
    have hnodup := hperm.nodup_iff.mpr hd.2
    rw [List.map_cons, List.nodup_cons] at hnodup
    refine ⟨_, hid, hd.1 _ (List.getElem_mem hlt), ?_, ?_, ?_⟩
    · rw [List.length_eraseIdx_of_lt hlt]
      omega
    · rw [List.insertIdx_eraseIdx_getElem hlt]
    · intro x hx hsame
      exact hnodup.1 (hsame ▸ List.mem_map_of_mem hx)

theorem placed_of_moveBlock (hd : t.HasDistinctIds) (h : t.moveBlock id target = .ok t') :
    ∃ b source others, b.id = id ∧ Placed b source others t ∧ target ≤ others.length ∧
      t' = t.withBlocks (others.insertIdx target b) := by
  rcases t.locate_block id with ⟨hi, hb⟩ | ⟨source, c, hi, hc, -, -⟩
  · rw [moveBlock, hi, hb] at h
    cases h
  · obtain ⟨b, rfl, -, hplaced⟩ := hd.exists_placed hi
    by_cases htarget : target ≤ (t.blocks.eraseIdx source).length
    · cases (hplaced.moveBlock htarget).symm.trans h
      exact ⟨b, source, _, rfl, hplaced, htarget, rfl⟩
    · have hge : t.blocks.length ≤ target := by
        have := hplaced.length
        omega
      simp only [moveBlock, hi, hc, hge, if_true] at h
      cases h

theorem placed_of_removeBlock (hd : t.HasDistinctIds) (h : t.removeBlock id = .ok (b, t')) :
    ∃ i others, b.id = id ∧ b.id ≠ "" ∧ Placed b i others t ∧ t' = t.withBlocks others := by
  rcases t.locate_block id with ⟨hi, hb⟩ | ⟨i, -, hi, -, -, -⟩
  · rw [removeBlock, hi, hb] at h
    cases h
  · obtain ⟨c, rfl, hne, hplaced⟩ := hd.exists_placed hi
    cases hplaced.removeBlock.symm.trans h
    exact ⟨i, _, rfl, hne, hplaced, rfl⟩

theorem placed_of_replaceBlock (hd : t.HasDistinctIds) (h : t.replaceBlock b = .ok (old, t')) :
    ∃ i others, old.id = b.id ∧ Placed old i others t ∧
      t' = t.withBlocks (others.insertIdx i b) := by
  rcases t.locate_block b.id with ⟨hi, hb⟩ | ⟨i, -, hi, -, -, -⟩
  · rw [replaceBlock, hi, hb] at h
    cases h
  · obtain ⟨c, hid, -, hplaced⟩ := hd.exists_placed hi
    cases (hplaced.replaceBlock hid.symm).symm.trans h
    exact ⟨i, _, hid, hplaced, rfl⟩

theorem placed_of_insertBlock (h : t.insertBlock i b = .ok t') :
    t' = t.withBlocks (t.blocks.insertIdx i b) ∧ b.id ≠ "" ∧ Placed b i t.blocks t' := by
  unfold insertBlock at h
  split at h
  · cases h
  · rename_i hi
    split at h
    · cases h
    · rename_i hempty
      split at h
      · cases h
      · rename_i hunused
        cases h
        refine ⟨rfl, hempty, Nat.not_lt.mp hi, rfl, fun x hx hsame => hunused ?_⟩
        exact List.find?_isSome.mpr ⟨x, hx, beq_iff_eq.mpr hsame⟩

def without (t : Template) (id : String) : List Block :=
  t.blocks.filter (·.id != id)

theorem Placed.without_eq (h : Placed b i others t) : t.without b.id = others := by
  rw [without, h.blocks, filter_insertIdx (by simp)]
  exact List.filter_eq_self.mpr fun x hx => by simpa using h.unused x hx

structure Moves (t t' : Template) (id : String) (source target : Nat) : Prop where
  before : t.position? id = some source
  after : t'.position? id = some target
  same : ∃ b : Block, b.id = id ∧ t.blocks[source]? = some b ∧ t'.blocks[target]? = some b
  others : t'.without id = t.without id
  kept : t'.blocks.Perm t.blocks
  undone : t'.moveBlock id source = .ok t

structure Inserts (t t' : Template) (b : Block) (i : Nat) : Prop where
  position : t'.position? b.id = some i
  placed : t'.blocks[i]? = some b
  others : t'.blocks.eraseIdx i = t.blocks
  kept : t'.blocks.Perm (b :: t.blocks)
  undone : t'.removeBlock b.id = .ok (b, t)

structure Removes (t t' : Template) (id : String) (b : Block) (i : Nat) : Prop where
  position : t.position? id = some i
  found : b.id = id ∧ t.blocks[i]? = some b
  others : t'.blocks = t.blocks.eraseIdx i
  kept : (b :: t'.blocks).Perm t.blocks
  undone : t'.insertBlock i b = .ok t

structure Replaces (t t' : Template) (b old : Block) (i : Nat) : Prop where
  position : t.position? b.id = some i
  found : old.id = b.id ∧ t.blocks[i]? = some old
  placed : t'.blocks[i]? = some b
  others : ∀ j, j ≠ i → t'.blocks[j]? = t.blocks[j]?
  kept : (old :: t'.blocks).Perm (b :: t.blocks)
  undone : t'.replaceBlock old = .ok (b, t)

theorem moves_of_moveBlock (hd : t.HasDistinctIds) (h : t.moveBlock id target = .ok t') :
    ∃ source, Moves t t' id source target := by
  obtain ⟨b, source, others, rfl, hb, htarget, rfl⟩ := placed_of_moveBlock hd h
  have hb' := hb.moved rfl htarget
  refine ⟨source, hb.position?, hb'.position?, ⟨b, rfl, hb.getElem?, hb'.getElem?⟩, ?_, ?_, ?_⟩
  · rw [hb'.without_eq, hb.without_eq]
  · exact hb'.perm.trans hb.perm.symm
  · rw [hb'.moveBlock hb.fits]
    exact congrArg Except.ok hb.withBlocks

theorem inserts_of_insertBlock (h : t.insertBlock i b = .ok t') : Inserts t t' b i := by
  obtain ⟨rfl, -, hb⟩ := placed_of_insertBlock h
  exact ⟨hb.position?, hb.getElem?, hb.eraseIdx, hb.perm, hb.removeBlock⟩

theorem removes_of_removeBlock (hd : t.HasDistinctIds) (h : t.removeBlock id = .ok (b, t')) :
    ∃ i, Removes t t' id b i := by
  obtain ⟨i, others, rfl, hne, hb, rfl⟩ := placed_of_removeBlock hd h
  exact ⟨i, hb.position?, ⟨rfl, hb.getElem?⟩, hb.eraseIdx.symm, hb.perm.symm, hb.insertBlock hne⟩

theorem replaces_of_replaceBlock (hd : t.HasDistinctIds) (h : t.replaceBlock b = .ok (old, t')) :
    ∃ i, Replaces t t' b old i := by
  obtain ⟨i, others, hid, hold, rfl⟩ := placed_of_replaceBlock hd h
  have hb := hold.moved hid.symm hold.fits
  refine ⟨i, ?_, ⟨hid, hold.getElem?⟩, hb.getElem?, fun j hj => ?_, ?_, ?_⟩
  · rw [← hid, hold.position?]
  · rw [hb.blocks, ← hold.set, List.getElem?_set_ne hj.symm]
  · exact (hb.perm.cons old).trans ((List.Perm.swap _ _ _).trans (hold.perm.symm.cons b))
  · rw [hb.replaceBlock hid]
    exact congrArg (fun t => Except.ok (b, t)) hold.withBlocks

theorem edits_undone (hv : t.validate = .ok ()) :
    (∀ id target t', t.moveBlock id target = .ok t' → ∃ source, Moves t t' id source target) ∧
      (∀ i b t', t.insertBlock i b = .ok t' → Inserts t t' b i) ∧
      (∀ id b t', t.removeBlock id = .ok (b, t') → ∃ i, Removes t t' id b i) ∧
      ∀ b old t', t.replaceBlock b = .ok (old, t') → ∃ i, Replaces t t' b old i := by
  have hd := hasDistinctIds_of_validate hv
  refine ⟨?_, ?_, ?_, ?_⟩
  · exact fun _ _ _ h => moves_of_moveBlock hd h
  · exact fun _ _ _ h => inserts_of_insertBlock h
  · exact fun _ _ _ h => removes_of_removeBlock hd h
  · exact fun _ _ _ h => replaces_of_replaceBlock hd h

theorem edits_undone_welcome :
    let t := SystemTemplate.welcome.starter
    let b : Block := ⟨"rule", .divider⟩
    t.validate = .ok () ∧
      (∃ t', t.moveBlock "greeting" 1 = .ok t' ∧ t'.moveBlock "greeting" 0 = .ok t) ∧
      (∃ t', t.insertBlock 1 b = .ok t' ∧ t'.removeBlock "rule" = .ok (b, t)) ∧
      (∃ t' old, t.removeBlock "intro" = .ok (old, t') ∧ t'.insertBlock 1 old = .ok t) ∧
      ∃ t' old, t.replaceBlock ⟨"intro", .divider⟩ = .ok (old, t') ∧
        t'.replaceBlock old = .ok (⟨"intro", .divider⟩, t) := by
  intro t b
  have hv : t.validate = .ok () := SystemTemplate.validate_starter SystemTemplate.welcome_mem_all
  obtain ⟨hmove, hinsert, hremove, hreplace⟩ := edits_undone hv
  refine ⟨hv, ⟨_, rfl, ?_⟩, ⟨_, rfl, ?_⟩, ⟨_, _, rfl, ?_⟩, ⟨_, _, rfl, ?_⟩⟩
  · obtain ⟨source, h⟩ := hmove "greeting" 1 _ rfl
    cases h.before.symm.trans (rfl : t.position? "greeting" = some 0)
    exact h.undone
  · exact (hinsert 1 b _ rfl).undone
  · obtain ⟨i, h⟩ := hremove "intro" _ _ rfl
    cases h.position.symm.trans (rfl : t.position? "intro" = some 1)
    exact h.undone
  · obtain ⟨i, h⟩ := hreplace ⟨"intro", .divider⟩ _ _ rfl
    exact h.undone

end EmailTemplates.Template
