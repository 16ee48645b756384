import EmailTemplates.Proofs.Source.Usable

namespace EmailTemplates

open Source
open Outcome

namespace Source

theorem ne_some_of_bind_nonempty? (value : Option String) : value.bind nonempty? ≠ some "" := by
  intro h
  obtain ⟨s, -, hs⟩ := Option.bind_eq_some_iff.mp h
  unfold nonempty? at hs
  split at hs
  · cases hs
  · rename_i hne
    exact hne (Option.some.inj hs)

theorem isBlankText_of_mem_bind_nonblank? {value : Option String} {s : String}
    (h : s ∈ value.bind nonblank?) : Text.isBlankText s = false := by
  obtain ⟨v, -, hv⟩ := Option.bind_eq_some_iff.mp h
  unfold nonblank? at hv
  split at hv
  · cases hv
  · rename_i hblank
    cases hv
    simpa using hblank

theorem nonempty_of_header {source : Text.Slice} {h : Header} (hh : header source = .ok h) :
    h.emoji ≠ some "" ∧ h.subtitle ≠ some "" := by
  unfold header at hh
  split at hh
  · cases hh
  · dsimp only at hh
    split at hh
    · cases hh
      exact ⟨ne_some_of_bind_nonempty? _, ne_some_of_bind_nonempty? _⟩
    · cases hh

end Source

namespace Import

structure Taken (text : String) (t : Template) : Prop where
  scheme : ∃ ws, Source.colorScheme (scalars (Text.Slice.ofString text)) = .ok (t.colorScheme, ws)
  blocks : t.blocks = (content t.colorScheme (Text.Slice.ofString text)).1
  reported : (content t.colorScheme (Text.Slice.ofString text)).2 <:+: (ofSource text).warnings
  preheader : ∀ s ∈ t.preheader, Text.isBlankText s = false
  emoji : t.header.emoji ≠ some ""
  subtitle : t.header.subtitle ≠ some ""
  usable : t.Usable

theorem Sound.usable {i : Import} {t : Template} (h : i.Sound) (ht : i.template = some t) :
    t.Usable := by
  rw [Sound, ht] at h
  exact h.2

theorem template_declaring {declared : Option (List VariableDeclaration)}
    {warnings : List Diagnostic} {t u : Template}
    (h : (declaring declared warnings t).template = some u) :
    (∃ declarations, u = { t with declarations }) ∧
      warnings <+: (declaring declared warnings t).warnings := by
  unfold declaring at h ⊢
  dsimp only at h ⊢
  split at h
  · cases h
    exact ⟨⟨_, rfl⟩, List.prefix_append _ _⟩
  · cases h

theorem ofSource_of_template {text : String} {t : Template}
    (h : (ofSource text).template = some t) :
    ∃ slug subject header scheme ws,
      Source.header (Text.Slice.ofString text) = .ok header ∧
      Source.colorScheme (scalars (Text.Slice.ofString text)) = .ok (scheme, ws) ∧
      let rest := lenient (Text.Slice.ofString text) (scalars (Text.Slice.ofString text)) (some slug)
        (some (scheme, ws))
      ofSource text = declaring rest.declared rest.warnings
        (rest.template slug subject header scheme) := by
  unfold ofSource at h ⊢
  dsimp only at h ⊢
  cases hslug : Source.slug (scalars (Text.Slice.ofString text)) with
  | error e =>
    rw [hslug] at h
    cases h
  | ok slug =>
    cases hsubject : Source.subject (scalars (Text.Slice.ofString text)) with
    | error e =>
      rw [hslug, hsubject] at h
      cases h
    | ok subject =>
      cases hheader : Source.header (Text.Slice.ofString text) with
      | error e =>
        rw [hslug, hsubject, hheader] at h
        cases h
      | ok header =>
        cases hscheme : Source.colorScheme (scalars (Text.Slice.ofString text)) with
        | error e =>
          rw [hslug, hsubject, hheader, hscheme] at h
          cases h
        | ok p =>
          obtain ⟨scheme, ws⟩ := p
          exact ⟨slug, subject, header, scheme, ws, rfl, rfl, rfl⟩

theorem taken_of_ofSource {text : String} {t : Template} (h : (ofSource text).template = some t) :
    Taken text t := by
  obtain ⟨slug, subject, header, scheme, ws, hheader, hscheme, hsource⟩ := ofSource_of_template h
  rw [hsource] at h
  have husable := Sound.usable (sound_declaring (fun ds hds => nodup_interface hds)
    (drawable_content scheme (Text.Slice.ofString text))) h
  obtain ⟨⟨declarations, rfl⟩, hwarnings⟩ := template_declaring h
  obtain ⟨hemoji, hsubtitle⟩ := nonempty_of_header hheader
  refine ⟨⟨ws, hscheme⟩, rfl, ?_, fun s hs => isBlankText_of_mem_bind_nonblank? hs, hemoji,
    hsubtitle, husable⟩
  rw [hsource]
  exact (List.suffix_append _ _).isInfix.trans hwarnings.isInfix

end Import

end EmailTemplates
