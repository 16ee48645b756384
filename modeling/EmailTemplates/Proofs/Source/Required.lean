import EmailTemplates.Proofs.Source.Named
import EmailTemplates.Proofs.Source.Taken

namespace EmailTemplates

open Text (Slice)

namespace Source

inductive Requirement where
  | slug
  | subject
  | header
  | colorScheme
deriving DecidableEq, Repr

def Requirement.all : List Requirement :=
  [slug, subject, header, colorScheme]

inductive Violates (source : Slice) : Requirement → Diagnostic → Prop
  | noSlug : Scalar.find? (scalars source) "slug" = none →
      Violates source .slug (missing "slug" "export const slug = 'my-template';")
  | badSlug {s : Scalar} : Scalar.find? (scalars source) "slug" = some s →
      Template.isValidSlug s.value = false →
      Violates source .slug (errorAt "M-4-2" "Invalid slug"
        ("`" ++ s.value ++ "` is not lowercase kebab-case") s.span)
  | noSubject : Scalar.find? (scalars source) "subject" = none →
      Violates source .subject
        (missing "subject" "export const subject = 'Your invoice is ready';")
  | blankSubject {s : Scalar} : Scalar.find? (scalars source) "subject" = some s →
      Text.isBlankText s.value = true →
      Violates source .subject (errorAt "M-4-1" "Missing subject" "The subject line is empty" s.span)
  | noHeader : headerObject? source = none →
      Violates source .header (missing "header" "export const header = \x7b title: 'Welcome' \x7d;")
  | noTitle {whole body : Slice} : headerObject? source = some (whole, body) →
      (∀ s ∈ Scalar.find? (body.findAll Scalar.readField) "title",
        Text.isBlankText s.value = true) →
      Violates source .header (errorAt "M-4-1" "Missing header title"
        "The header object has no `title`" whole.span)
  | unknownScheme {s : Scalar} : Scalar.find? (scalars source) "colorScheme" = some s →
      (∀ scheme : ColorScheme, scheme.id ≠ s.value) →
      Violates source .colorScheme (errorAt "M-4-2" "Invalid color scheme"
        ("Unknown color scheme: " ++ s.value) s.span)

/-- One diagnostic for each requirement that is not met, in their order. -/
def Reports (source : Slice) (ds : List Diagnostic) : Prop :=
  ∃ rs, rs.Sublist Requirement.all ∧ (∀ r, r ∈ rs ↔ ∃ d, Violates source r d) ∧
    List.Forall₂ (Violates source) rs ds

/-- The first name in the interface that no reference can have. Names are read there with the
letters and digits of all scripts. -/
def unnameable? (source : Slice) : Option String :=
  (((interfaceMembers? source).getD []).map (·.name)).find? fun name => !Variable.isValidName name

theorem foreign_of_unnameable {source : Slice} {name : String}
    (h : unnameable? source = some name) :
    ∃ c ∈ name.toList, Text.isWord c = true ∧ Text.isNameChar c = false := by
  have hbad : Variable.isValidName name = false := by
    simpa using List.find?_some h
  obtain ⟨m, hm, rfl⟩ := List.mem_map.mp (List.mem_of_find?_eq_some h)
  unfold interfaceMembers? at hm
  cases hfind : source.find readInterface with
  | none =>
    rw [hfind] at hm
    cases hm
  | some found =>
    obtain ⟨start, body, rest⟩ := found
    rw [hfind] at hm
    obtain ⟨s', rest', -, hread⟩ := Member.leavesEnd_read.of_mem_findAllInLines hm
    obtain ⟨hne, hword⟩ := Member.name_of_read hread
    rw [Variable.isValidName, Token.isName, Bool.and_eq_false_iff] at hbad
    rcases hbad with hempty | hchars
    · exact absurd (by simpa using hempty) hne
    · obtain ⟨c, hc, hforeign⟩ := List.all_eq_false.mp hchars
      exact ⟨c, hc, (hword c hc).1, by simpa using hforeign⟩

def violations (source : Slice) : Requirement → List Diagnostic
  | .slug => errorOf (slug (scalars source))
  | .subject => errorOf (subject (scalars source))
  | .header => errorOf (header source)
  | .colorScheme => errorOf (colorScheme (scalars source))

theorem mem_errorOf {α : Type} {x : Except Diagnostic α} {d : Diagnostic} :
    d ∈ errorOf x ↔ x = .error d := by
  cases x <;> simp [errorOf, eq_comm]

theorem slug_eq_error {source : Slice} {d : Diagnostic} :
    slug (scalars source) = .error d ↔ Violates source .slug d := by
  unfold slug
  constructor
  · intro h
    split at h
    · rename_i s hs
      split at h
      · cases h
      · rename_i hslug
        cases h
        exact .badSlug hs (by simpa using hslug)
    · rename_i hs
      cases h
      exact .noSlug hs
  · intro h
    cases h with
    | noSlug hs => simp only [hs]
    | badSlug hs hslug => simp only [hs, hslug, Bool.false_eq_true, if_false]

theorem subject_eq_error {source : Slice} {d : Diagnostic} :
    subject (scalars source) = .error d ↔ Violates source .subject d := by
  unfold subject
  constructor
  · intro h
    split at h
    · rename_i s hs
      split at h
      · rename_i hblank
        cases h
        exact .blankSubject hs hblank
      · cases h
    · rename_i hs
      cases h
      exact .noSubject hs
  · intro h
    cases h with
    | noSubject hs => simp only [hs]
    | blankSubject hs hblank => simp only [hs, hblank, if_true]

theorem bind_nonblank?_eq_none {x : Option Scalar} :
    (x.map Scalar.value).bind nonblank? = none ↔ ∀ s ∈ x, Text.isBlankText s.value = true := by
  cases x <;> simp [nonblank?]

theorem header_eq_error {source : Slice} {d : Diagnostic} :
    header source = .error d ↔ Violates source .header d := by
  unfold header
  constructor
  · intro h
    split at h
    · rename_i hs
      cases h
      exact .noHeader hs
    · rename_i whole body hs
      dsimp only at h
      split at h
      · cases h
      · rename_i htitle
        cases h
        exact .noTitle hs (bind_nonblank?_eq_none.mp htitle)
  · intro h
    cases h with
    | noHeader hs => simp only [hs]
    | noTitle hs htitle => simp only [hs, bind_nonblank?_eq_none.mpr htitle]

theorem ofId?_eq_none {id : String} :
    ColorScheme.ofId? id = none ↔ ∀ scheme : ColorScheme, scheme.id ≠ id := by
  rw [ColorScheme.ofId?, List.find?_eq_none]
  constructor
  · intro h scheme
    have hmem : scheme ∈ ColorScheme.all := by cases scheme <;> decide
    simpa using h scheme hmem
  · exact fun h scheme _ => by simpa using h scheme

theorem colorScheme_eq_error {source : Slice} {d : Diagnostic} :
    colorScheme (scalars source) = .error d ↔ Violates source .colorScheme d := by
  have hunknown {id : String} (h : ColorScheme.ofId? id = none) :
      ColorScheme.ofId id = .error (.unknownColorScheme id) := by
    rw [ColorScheme.ofId, h]
    rfl
  unfold colorScheme
  constructor
  · intro h
    split at h
    · rename_i s hs
      cases hid : ColorScheme.ofId? s.value with
      | none =>
        simp only [hunknown hid] at h
        cases h
        exact .unknownScheme hs (ofId?_eq_none.mp hid)
      | some scheme =>
        simp only [ColorScheme.ofId, hid, Option.elim_some] at h
        cases h
    · cases h
  · intro h
    cases h with
    | unknownScheme hs hid =>
      simp only [hs, hunknown (ofId?_eq_none.mpr hid)]
      rfl

theorem mem_violations {source : Slice} {r : Requirement} {d : Diagnostic} :
    d ∈ violations source r ↔ Violates source r d := by
  cases r with
  | slug => exact mem_errorOf.trans slug_eq_error
  | subject => exact mem_errorOf.trans subject_eq_error
  | header => exact mem_errorOf.trans header_eq_error
  | colorScheme => exact mem_errorOf.trans colorScheme_eq_error

theorem violations_eq (source : Slice) (r : Requirement) :
    violations source r = [] ∨ ∃ d, violations source r = [d] := by
  have herror {α : Type} (x : Except Diagnostic α) : errorOf x = [] ∨ ∃ d, errorOf x = [d] := by
    cases x with
    | ok a => exact .inl rfl
    | error d => exact .inr ⟨d, rfl⟩
  cases r <;> exact herror _

theorem forall₂_violations (source : Slice) (rs : List Requirement) :
    List.Forall₂ (Violates source) (rs.filter fun r => !(violations source r).isEmpty)
      (rs.flatMap (violations source)) := by
  induction rs with
  | nil => exact .nil
  | cons r rs ih =>
    rw [List.flatMap_cons]
    rcases violations_eq source r with hnone | ⟨d, hd⟩
    · rw [List.filter_cons_of_neg (by simp [hnone]), hnone]
      exact ih
    · rw [List.filter_cons_of_pos (by simp [hd]), hd]
      exact .cons (mem_violations.mp (hd ▸ List.mem_singleton_self d)) ih

theorem reports_violations (source : Slice) :
    Reports source (Requirement.all.flatMap (violations source)) := by
  refine ⟨_, List.filter_sublist, fun r => ?_, forall₂_violations source _⟩
  have hall : r ∈ Requirement.all := by cases r <;> decide
  rw [List.mem_filter, and_iff_right hall, Bool.not_eq_true', List.isEmpty_eq_false_iff_exists_mem]
  exact exists_congr fun d => mem_violations

theorem capitalizedWords_of_isValidSlug {slug : String}
    (h : Template.isValidSlug slug = true) :
    ∃ c w ws, isInitial c = true ∧ capitalizedWords slug = .ofList (c :: w) :: ws := by
  unfold Template.isValidSlug at h
  unfold capitalizedWords
  cases hcs : slug.toList with
  | nil =>
    rw [hcs] at h
    cases h
  | cons c cs =>
    obtain ⟨w, ws, hw, -, -⟩ := infix_of_mem_words cs
    have hc : Template.isSlugChar c = true := by
      rw [hcs, Template.isSlugFrom] at h
      by_contra hc
      simp [hc] at h
    have hdash : c ≠ '-' := by
      rintro rfl
      exact absurd hc (by decide)
    refine ⟨c.toUpper, w, (ws.filter (!·.isEmpty)).map fun word => .ofList (capitalize word),
      isInitial_toUpper hc, ?_⟩
    rw [words, if_neg hdash, hw]
    rfl

theorem isBlankText_titleCase {slug : String} (h : Template.isValidSlug slug = true) :
    Text.isBlankText (titleCase slug) = false := by
  obtain ⟨c, w, ws, hc, hwords⟩ := capitalizedWords_of_isValidSlug h
  have hblank := Text.isBlank_of_isNameChar (isNameChar_of_isInitial hc)
  have hmem : c ∈ (titleCase slug).toList := by
    rw [titleCase, hwords]
    cases ws <;> simp [String.intercalate_cons_cons]
  rw [Text.isBlankText, List.all_eq_false]
  exact ⟨c, hmem, by simp [hblank]⟩

theorem find?_distinctMembers (p : String → Bool) (members : List Member) :
    ((distinctMembers members).find? fun m => p m.name) = members.find? fun m => p m.name := by
  suffices hgo : ∀ seen : List Member, ((members.foldl
      (fun seen m => if seen.any (·.name == m.name) then seen else seen ++ [m]) seen).find?
        fun m => p m.name) = (seen ++ members).find? fun m => p m.name from hgo []
  induction members with
  | nil => simp
  | cons m members ih =>
    intro seen
    rw [List.foldl_cons, ih]
    split
    · -- the member is left out, and one of its name is found before it
      rename_i hseen
      obtain ⟨x, hx, hname⟩ := List.any_eq_true.mp hseen
      rw [beq_iff_eq] at hname
      rw [List.find?_append, List.find?_append, List.find?_cons]
      cases hp : p m.name with
      | false => rfl
      | true =>
        have hfound : (seen.find? fun m => p m.name).isSome = true :=
          List.find?_isSome.mpr ⟨x, hx, by rw [hname, hp]⟩
        rw [Option.or_of_isSome hfound, Option.or_of_isSome hfound]
    · rw [List.append_assoc, List.singleton_append]

end Source

namespace Template

theorem validateDeclarations_eq (ds : List VariableDeclaration) :
    validateDeclarations ds = match ds.find? fun d => !Variable.isValidName d.name with
      | some d => .error (.invalidVariableName d.name)
      | none => .ok () := by
  induction ds with
  | nil => rfl
  | cons d ds ih =>
    rw [validateDeclarations, List.find?_cons]
    cases Variable.isValidName d.name with
    | true => exact ih
    | false => rfl

theorem validate_withDeclarations {t : Template} (h : t.validate = .ok ())
    (declarations : List VariableDeclaration) :
    ({ t with declarations } : Template).validate = validateDeclarations declarations := by
  obtain ⟨hslug, hname, hsubject, htitle, hids, -⟩ := validate_eq_ok.mp h
  simp only [validate, hslug, hids, validateText, hname, hsubject, htitle]
  rfl

end Template

namespace Source

theorem find?_withInferred {declared : Option (List VariableDeclaration)}
    {referenced : List String} (hr : ∀ n ∈ referenced, Variable.isValidName n = true) :
    ((withInferred declared referenced).1.find? fun d => !Variable.isValidName d.name) =
      (declared.getD []).find? fun d => !Variable.isValidName d.name := by
  have hinferred {names : List String} (h : ∀ n ∈ names, n ∈ referenced) :
      ((names.map inferred).find? fun d => !Variable.isValidName d.name) = none := by
    rw [List.find?_eq_none, List.forall_mem_map]
    exact fun n hn => by simpa [inferred] using hr n (h n hn)
  cases declared with
  | none => exact hinferred fun _ hn => hn
  | some declared =>
    simp only [withInferred, List.find?_append, Option.getD_some]
    rw [hinferred fun _ hn => (List.mem_filter.mp hn).1, Option.or_none]

theorem find?_interface (source : Slice) :
    (((interface source).1.getD []).find? fun d => !Variable.isValidName d.name).map (·.name) =
      unnameable? source := by
  have hname : (fun d : VariableDeclaration => d.name) ∘ (fun m => (declaration m).1) =
      Member.name :=
    funext name_declaration
  have hbad : (fun d : VariableDeclaration => !Variable.isValidName d.name) ∘
      (fun m => (declaration m).1) = fun m => !Variable.isValidName m.name :=
    funext fun m => by rw [Function.comp_apply, name_declaration]
  unfold interface unnameable?
  cases interfaceMembers? source with
  | none => rfl
  | some members =>
    have hmap : ((distinctMembers members).map declaration).map Prod.fst =
        (distinctMembers members).map fun m => (declaration m).1 := List.map_map
    have hfind := find?_distinctMembers (fun name => !Variable.isValidName name) members
    simp only [Option.getD_some, hmap, List.find?_map, hbad, Option.map_map, hname]
    rw [hfind]
    rfl

end Source

namespace Import

open Source

theorem errors_declaring {declared : Option (List VariableDeclaration)}
    {warnings : List Diagnostic} {t : Template} (h : t.validate = .ok ()) :
    (declaring declared warnings t).errors =
        ((((declared.getD []).find? fun d => !Variable.isValidName d.name).map (·.name)).map
          fun name => (TemplateError.invalidVariableName name).diagnostic).toList ∧
      ((declaring declared warnings t).template.isSome = true ↔
        (declaring declared warnings t).errors = []) := by
  have hfind : ((withInferred declared t.variableNames).1.find? _) = _ :=
    find?_withInferred fun _ => Template.isValidName_of_mem_variableNames
  unfold declaring
  dsimp only
  rw [Template.validate_withDeclarations h, Template.validateDeclarations_eq, hfind]
  cases (declared.getD []).find? fun d => !Variable.isValidName d.name with
  | none => simp
  | some d => simp

end Import

namespace Source

variable {source : Slice}

theorem isValidSlug_of_slug {s : String} (h : slug (scalars source) = .ok s) :
    Template.isValidSlug s = true := by
  unfold slug at h
  split at h
  · split at h
    · rename_i hslug
      cases h
      exact hslug
    · cases h
  · cases h

theorem isBlankText_of_subject {s : String} (h : subject (scalars source) = .ok s) :
    Text.isBlankText s = false := by
  unfold subject at h
  split at h
  · split at h
    · cases h
    · rename_i hblank
      cases h
      simpa using hblank
  · cases h

theorem isBlankText_of_header {x : Header} (h : header source = .ok x) :
    Text.isBlankText x.title = false := by
  unfold header at h
  split at h
  · cases h
  · dsimp only at h
    split at h
    · rename_i htitle
      cases h
      exact isBlankText_of_mem_bind_nonblank? htitle
    · cases h

theorem isBlankText_name (xs : List Scalar) {s : String} (h : Template.isValidSlug s = true) :
    Text.isBlankText (name xs (some s)).1 = false := by
  unfold name
  split
  · rename_i hname
    exact isBlankText_of_mem_bind_nonblank? (Option.bind_map.trans hname)
  · exact isBlankText_titleCase h

theorem validate_lenient {s sub : String} {x : Header} {p : ColorScheme × List Diagnostic}
    (hslug : slug (scalars source) = .ok s) (hsubject : subject (scalars source) = .ok sub)
    (hheader : header source = .ok x) :
    ((lenient source (scalars source) (some s) (some p)).template s sub x p.1).validate =
      .ok () := by
  have hs := isValidSlug_of_slug hslug
  obtain ⟨hids, hnodup⟩ := ids_content p.1 source
  refine Template.validate_eq_ok.mpr ⟨hs, isBlankText_name _ hs, isBlankText_of_subject hsubject,
    isBlankText_of_header hheader, Template.validateIds_eq_ok.mpr ⟨fun b hb => ?_, hnodup⟩, rfl⟩
  exact ⟨Marker.ne_empty_of_canName (hids b hb), List.not_mem_nil⟩

theorem flatMap_violations (source : Slice) :
    Requirement.all.flatMap (violations source) =
      errorOf (slug (scalars source)) ++ errorOf (subject (scalars source)) ++
        errorOf (header source) ++ errorOf (colorScheme (scalars source)) := by
  simp [Requirement.all, violations]

end Source

namespace Import

open Source

variable {text : String}

theorem ofSource_of_violations
    (h : Requirement.all.flatMap (violations (Slice.ofString text)) ≠ []) :
    (ofSource text).errors = Requirement.all.flatMap (violations (Slice.ofString text)) ∧
      (ofSource text).template = none := by
  rw [flatMap_violations] at h ⊢
  unfold ofSource
  dsimp only
  split
  · rename_i hslug hsubject hheader hscheme
    rw [hslug, hsubject, hheader, hscheme] at h
    exact absurd rfl h
  · exact ⟨rfl, rfl⟩

theorem ofSource_of_no_violations
    (h : Requirement.all.flatMap (violations (Slice.ofString text)) = []) :
    (ofSource text).errors = ((unnameable? (Slice.ofString text)).map fun name =>
        (TemplateError.invalidVariableName name).diagnostic).toList ∧
      ((ofSource text).template.isSome = true ↔ (ofSource text).errors = []) := by
  rw [flatMap_violations] at h
  simp only [List.append_eq_nil_iff, errorOf_eq_nil] at h
  obtain ⟨⟨⟨⟨slug, hslug⟩, subject, hsubject⟩, header, hheader⟩, p, hscheme⟩ := h
  have hvalid := @validate_lenient _ _ _ _ p hslug hsubject hheader
  have hsource : ofSource text =
      let rest := lenient (Slice.ofString text) (scalars (Slice.ofString text)) (some slug) (some p)
      declaring rest.declared rest.warnings (rest.template slug subject header p.1) := by
    unfold ofSource
    dsimp only
    rw [hslug, hsubject, hheader, hscheme]
    rfl
  rw [hsource, ← find?_interface]
  exact errors_declaring hvalid

theorem errors_ofSource (text : String) :
    ∃ reports, Reports (Slice.ofString text) reports ∧
      (reports ≠ [] → (ofSource text).errors = reports) ∧
      (reports = [] → (ofSource text).errors =
        ((unnameable? (Slice.ofString text)).map fun name =>
          (TemplateError.invalidVariableName name).diagnostic).toList) ∧
      ((ofSource text).template.isSome = true ↔ (ofSource text).errors = []) := by
  refine ⟨_, reports_violations _, fun h => (ofSource_of_violations h).1,
    fun h => (ofSource_of_no_violations h).1, ?_⟩
  by_cases h : Requirement.all.flatMap (violations (Slice.ofString text)) = []
  · exact (ofSource_of_no_violations h).2
  · obtain ⟨herrors, htemplate⟩ := ofSource_of_violations h
    simp [herrors, htemplate, h]

example : unnameable? (.ofString
    "export interface V \x7b\n  code: string;\n  naïve: string;\n\x7d") = some "naïve" := by
  decide +kernel

end Import

end EmailTemplates
