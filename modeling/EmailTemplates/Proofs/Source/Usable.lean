import EmailTemplates.Proofs.Source.Recognize
import EmailTemplates.Proofs.Variable.Names
import EmailTemplates.Source.Generate

namespace EmailTemplates

open Outcome

namespace Template

def HasDistinctIds (t : Template) : Prop :=
  (∀ b ∈ t.blocks, b.id ≠ "") ∧ (t.blocks.map (·.id)).Nodup

def DeclaresAll (t : Template) : Prop :=
  (∀ n ∈ t.variableNames, n ∈ t.declarations.map (·.name)) ∧ (t.declarations.map (·.name)).Nodup

structure Usable (t : Template) : Prop where
  valid : t.validate = .ok ()
  distinctIds : t.HasDistinctIds
  declaresAll : t.DeclaresAll
  renders : ∀ values options, ∃ e, t.render values options = .ok e
  generates : ∃ source, t.generate = .ok source

theorem validateIds_eq_ok {seen : List String} {index : Nat} {blocks : List Block} :
    validateIds seen index blocks = .ok () ↔
      (∀ b ∈ blocks, b.id ≠ "" ∧ b.id ∉ seen) ∧ (blocks.map (·.id)).Nodup := by
  induction blocks generalizing seen index with
  | nil => simp [validateIds]
  | cons b blocks ih =>
    unfold validateIds
    split
    · rename_i h
      simp [h]
    · rename_i hne
      split
      · rename_i h
        simp [h]
      · rename_i hseen
        rw [ih, List.map_cons, List.nodup_cons]
        simp only [List.mem_cons, not_or, forall_eq_or_imp, List.mem_map, not_exists, not_and]
        constructor
        · rintro ⟨hb, hnodup⟩
          exact ⟨⟨⟨hne, hseen⟩, fun x hx => ⟨(hb x hx).1, (hb x hx).2.2⟩⟩,
            fun x hx => (hb x hx).2.1, hnodup⟩
        · rintro ⟨⟨_, hb⟩, hid, hnodup⟩
          exact ⟨fun x hx => ⟨(hb x hx).1, hid x hx, (hb x hx).2⟩, hnodup⟩

theorem hasDistinctIds_of_validate {t : Template} (h : t.validate = .ok ()) :
    t.HasDistinctIds := by
  obtain ⟨_, _, _, _, hi, _⟩ := validate_eq_ok.mp h
  obtain ⟨hb, hnodup⟩ := validateIds_eq_ok.mp hi
  exact ⟨fun b hmem => (hb b hmem).1, hnodup⟩

theorem exists_fragments {t : Template} (h : ∀ b ∈ t.blocks, b.content.Drawable) :
    ∃ ms, t.Fragments ms := by
  unfold Fragments
  generalize t.blocks = blocks at h ⊢
  induction blocks with
  | nil => exact ⟨[], .nil⟩
  | cons b blocks ih =>
    obtain ⟨hb, hblocks⟩ := List.forall_mem_cons.mp h
    obtain ⟨m, hm⟩ := hb t.colorScheme
    obtain ⟨ms, hms⟩ := ih hblocks
    exact ⟨m :: ms, .cons hm hms⟩

theorem generate_eq_ok {t : Template} {source : String} :
    t.generate = .ok source ↔
      t.validate = .ok () ∧ ∃ ms, t.Fragments ms ∧ t.moduleText ms = source := by
  constructor
  · intro h
    obtain ⟨_, hc, h⟩ := bind_eq_ok.mp h
    obtain ⟨ms, hms, h⟩ := bind_eq_ok.mp h
    exact ⟨check_eq_ok.mp hc, ms, fragments_eq_ok.mp hms, pure_eq_ok.mp h⟩
  · rintro ⟨hv, ms, hms, rfl⟩
    refine bind_eq_ok.mpr ⟨(), check_eq_ok.mpr hv, ?_⟩
    exact bind_eq_ok.mpr ⟨ms, fragments_eq_ok.mpr hms, rfl⟩

theorem usable_of_drawable {t : Template} (hv : t.validate = .ok ()) (hd : t.DeclaresAll)
    (hb : ∀ b ∈ t.blocks, b.content.Drawable) : t.Usable := by
  obtain ⟨ms, hms⟩ := exists_fragments hb
  exact ⟨hv, hasDistinctIds_of_validate hv, hd,
    fun _ _ => ⟨_, render_eq_ok.mpr ⟨hv, ms, hms, rfl⟩⟩,
    _, generate_eq_ok.mpr ⟨hv, ms, hms, rfl⟩⟩

end Template

namespace Source

theorem map_name_inferred (names : List String) :
    (names.map inferred).map (·.name) = names := by
  rw [List.map_map]
  exact List.map_id names

theorem name_declaration (m : Member) : (declaration m).1.name = m.name := by
  unfold declaration
  split
  · rfl
  · split <;> rfl

theorem nodup_distinctMembers (members : List Member) :
    ((distinctMembers members).map (·.name)).Nodup := by
  suffices h : ∀ seen : List Member, (seen.map (·.name)).Nodup →
      ((members.foldl (fun seen m => if seen.any (·.name == m.name) then seen else seen ++ [m])
        seen).map (·.name)).Nodup from h [] .nil
  induction members with
  | nil => exact fun _ h => h
  | cons m members ih =>
    intro seen h
    rw [List.foldl_cons]
    refine ih _ ?_
    split
    · exact h
    · rename_i hnew
      rw [List.map_append, List.nodup_append]
      refine ⟨h, by simp, ?_⟩
      intro a ha b hb
      obtain ⟨x, hx, rfl⟩ := List.mem_map.mp ha
      rw [List.map_singleton, List.mem_singleton] at hb
      rintro rfl
      exact hnew (List.any_eq_true.mpr ⟨x, hx, by simp [hb]⟩)

theorem nodup_interface {source : Text.Slice} {declared : List VariableDeclaration}
    (h : (interface source).1 = some declared) : (declared.map (·.name)).Nodup := by
  unfold interface at h
  split at h
  · cases h
  · rename_i members _
    cases h
    have hmap : ((distinctMembers members).map declaration).map (fun d => d.1.name) =
        (distinctMembers members).map (·.name) := by
      rw [List.map_map]
      exact List.map_congr_left fun m _ => name_declaration m
    rw [List.map_map]
    exact hmap ▸ nodup_distinctMembers members

theorem mem_withInferred {declared : Option (List VariableDeclaration)} {referenced : List String}
    {n : String} (h : n ∈ referenced) :
    n ∈ (withInferred declared referenced).1.map (·.name) := by
  cases declared with
  | none =>
    rw [withInferred, map_name_inferred]
    exact h
  | some declared =>
    rw [withInferred, List.map_append, map_name_inferred, List.mem_append, List.mem_filter]
    by_cases hd : declared.any (·.name == n) = true
    · obtain ⟨d, hmem, hn⟩ := List.any_eq_true.mp hd
      exact .inl (List.mem_map.mpr ⟨d, hmem, beq_iff_eq.mp hn⟩)
    · exact .inr ⟨h, by simpa using hd⟩

theorem nodup_withInferred {declared : Option (List VariableDeclaration)}
    {referenced : List String} (hd : ∀ ds ∈ declared, (ds.map (·.name)).Nodup)
    (hr : referenced.Nodup) : ((withInferred declared referenced).1.map (·.name)).Nodup := by
  cases declared with
  | none =>
    rw [withInferred, map_name_inferred]
    exact hr
  | some declared =>
    rw [withInferred, List.map_append, map_name_inferred, List.nodup_append]
    refine ⟨hd declared rfl, hr.filter _, ?_⟩
    intro a ha b hb
    obtain ⟨d, hmem, rfl⟩ := List.mem_map.mp ha
    rintro rfl
    have hnot := (List.mem_filter.mp hb).2
    simp only [Bool.not_eq_true', List.any_eq_false, beq_iff_eq] at hnot
    exact hnot d hmem rfl

def Content.AllRecognized (scheme : ColorScheme) (c : Content) : Prop :=
  ∀ b ∈ c.blocks, ∃ tag, Recognized scheme tag b.content

theorem Content.AllRecognized.addSegment {scheme : ColorScheme} {c : Content}
    (h : c.AllRecognized scheme) (segment : Segment) :
    (c.addSegment scheme segment).AllRecognized scheme := by
  unfold Content.addSegment
  dsimp only
  split
  · split <;> exact h
  · exact h
  · split
    · rename_i content hr
      intro b hb
      rcases List.mem_append.mp hb with hb | hb
      · exact h b hb
      · cases List.mem_singleton.mp hb
        exact ⟨_, (recognized_of_recognize hr).withMarkedScheme _⟩
    · exact h
  · exact h

theorem recognized_foldl {scheme : ColorScheme} (segments : List Segment) {c : Content}
    (h : c.AllRecognized scheme) :
    (segments.foldl (Content.addSegment scheme) c).AllRecognized scheme := by
  induction segments generalizing c with
  | nil => exact h
  | cons segment segments ih => exact ih (h.addSegment segment)

theorem recognized_content (scheme : ColorScheme) (source : Text.Slice) :
    ∀ b ∈ (content scheme source).1, ∃ tag, Recognized scheme tag b.content := by
  unfold content
  split
  · simp
  · rename_i body _
    exact @recognized_foldl scheme (segments body) ⟨[], [], none, []⟩ (by simp [Content.AllRecognized])

theorem drawable_content (scheme : ColorScheme) (source : Text.Slice) :
    ∀ b ∈ (content scheme source).1, b.content.Drawable := by
  intro b hb
  obtain ⟨tag, h⟩ := recognized_content scheme source b hb
  exact h.drawable

end Source

namespace Import

open Source

theorem variableNames_declarations (t : Template) (declarations : List VariableDeclaration) :
    ({ t with declarations } : Template).variableNames = t.variableNames := rfl

/-- There is a template exactly if there are no errors, and then it can be used. -/
def Sound (i : Import) : Prop :=
  match i.template with
  | some t => i.errors = [] ∧ t.Usable
  | none => i.errors ≠ []

theorem sound_declaring {declared : Option (List VariableDeclaration)}
    {warnings : List Diagnostic} {t : Template}
    (hd : ∀ ds ∈ declared, (ds.map (·.name)).Nodup) (hb : ∀ b ∈ t.blocks, b.content.Drawable) :
    (declaring declared warnings t).Sound := by
  unfold declaring
  dsimp only
  split
  · rename_i hv
    refine ⟨rfl, Template.usable_of_drawable hv ⟨?_, ?_⟩ hb⟩
    · exact fun n hn => mem_withInferred hn
    · exact nodup_withInferred hd (Variable.nodup_addNew .nil)
  · exact List.cons_ne_nil _ _

theorem errorOf_eq_nil {α : Type} {x : Except Diagnostic α} :
    errorOf x = [] ↔ ∃ a, x = .ok a := by
  cases x <;> simp [errorOf]

theorem sound_ofSource (text : String) : (ofSource text).Sound := by
  unfold ofSource
  dsimp only
  split
  · refine sound_declaring ?_ (drawable_content _ _)
    exact fun ds h => nodup_interface h
  · rename_i hnot
    intro he
    simp only [List.append_eq_nil_iff, errorOf_eq_nil] at he
    obtain ⟨⟨⟨⟨slug, hs⟩, subject, hsub⟩, header, hh⟩, ⟨scheme, warnings⟩, hc⟩ := he
    exact hnot slug subject header scheme warnings hs hsub hh hc

end Import

end EmailTemplates
