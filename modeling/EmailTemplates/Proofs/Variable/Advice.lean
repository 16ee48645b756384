import EmailTemplates.Proofs.Markup.Unresolved

namespace EmailTemplates

namespace Values

theorem lookup_filter_bne {name n : String} (entries : List (String × String)) (h : n ≠ name) :
    (entries.filter (·.1 != name)).lookup n = entries.lookup n := by
  induction entries with
  | nil => rfl
  | cons entry entries ih =>
    by_cases hentry : entry.1 = name
    · have hne : (n == entry.1) = false := beq_eq_false_iff_ne.mpr (hentry ▸ h)
      rw [List.filter_cons_of_neg (by simp [hentry]), ih, List.lookup_cons, hne]
    · rw [List.filter_cons_of_pos (by simp [hentry]), List.lookup_cons, List.lookup_cons, ih]

theorem get?_insert (v : Values) (name value n : String) :
    (v.insert name value).get? n = if n = name then some value else v.get? n := by
  rw [get?, insert, List.lookup_cons]
  by_cases h : n = name
  · rw [if_pos h, beq_iff_eq.mpr h]
  · rw [if_neg h, beq_eq_false_iff_ne.mpr h]
    exact lookup_filter_bne v.entries h

theorem get?_foldl_filterMap (value? : String → Option String) (names : List String) (v : Values)
    (n : String) :
    ((names.filterMap fun name => (value? name).map fun value => (name, value)).foldl
        (fun v entry => v.insert entry.1 entry.2) v).get? n =
      (if n ∈ names then value? n else none).or (v.get? n) := by
  induction names generalizing v with
  | nil => rfl
  | cons name names ih =>
    cases hvalue : value? name with
    | none =>
      rw [List.filterMap_cons_none (by rw [hvalue]; rfl), ih]
      by_cases hn : n = name
      · simp [hn, hvalue]
      · simp [hn]
    | some value =>
      rw [List.filterMap_cons_some (by rw [hvalue]; rfl), List.foldl_cons, ih, get?_insert]
      by_cases hn : n = name
      · subst hn
        by_cases hmem : n ∈ names <;> simp [hmem, hvalue]
      · simp [hn]

end Values

namespace Variable

theorem name_of_lookup? {name : String} {d : VariableDefinition} (h : lookup? name = some d) :
    d ∈ registry ∧ d.name = name :=
  ⟨List.mem_of_find?_eq_some h, by simpa using List.find?_some h⟩

end Variable

namespace Diagnostic

def IsAbout (d : Diagnostic) (name : String) : Prop :=
  ∃ problem, d.problem = some problem ∧
    ("`" ++ Variable.token name ++ "` ").toList <+: problem.toList

end Diagnostic

namespace Template

open Variable (lookup? isValidIn isValidName token)

theorem get?_exampleValues (t : Template) (n : String) :
    t.exampleValues.get? n =
      if n ∈ t.variableNames then (lookup? n).map VariableDefinition.sample else none := by
  have hentries : (fun name => (lookup? name).map fun d => (name, d.sample)) =
      fun name => ((lookup? name).map VariableDefinition.sample).map fun value =>
        (name, value) := by
    funext name
    rw [Option.map_map]
    rfl
  rw [exampleValues, hentries, Values.ofList, Values.get?_foldl_filterMap]
  exact Option.or_none

theorem isAbout_undeclaredWarning (t : Template) (name : String) :
    (t.undeclaredWarning name).IsAbout name := by
  refine ⟨_, rfl, ?_⟩
  simp only [String.toList_append, List.append_assoc, List.prefix_append_right_inj]
  exact ⟨"is referenced but not declared by template `".toList ++
    (t.slug.toList ++ "`".toList), rfl⟩

theorem isAbout_unavailableWarning (t : Template) (d : VariableDefinition) :
    (t.unavailableWarning d).IsAbout d.name := by
  refine ⟨_, rfl, ?_⟩
  simp only [String.toList_append, List.append_assoc, List.prefix_append_right_inj]
  exact ⟨"is not supplied for `".toList ++ (t.registryContext.toList ++ "` emails".toList), rfl⟩

theorem isAbout_unknownWarning (name : String) : (unknownWarning name).IsAbout name := by
  refine ⟨_, rfl, ?_⟩
  simp only [String.toList_append, List.append_assoc, List.prefix_append_right_inj]
  exact ⟨"is not in the variable registry".toList, rfl⟩

structure Warns (name code : String) (d : Diagnostic) : Prop where
  severity : d.severity = .warning
  code : d.code = some code
  about : d.IsAbout name

/-- The codes of the warnings that a name gets. -/
def dueCodes (t : Template) (name : String) : List String :=
  (if t.declares name then [] else ["M-2-1"]) ++
    if isValidIn name t.registryContext then [] else ["M-2-2"]

theorem warns_checkVariable (t : Template) (name : String) :
    List.Forall₂ (Warns name) (t.dueCodes name) (t.checkVariable name) := by
  refine List.rel_append ?_ ?_
  · split
    · exact .nil
    · exact .cons ⟨rfl, rfl, t.isAbout_undeclaredWarning name⟩ .nil
  · rw [isValidIn]
    cases hlookup : lookup? name with
    | none => exact .cons ⟨rfl, rfl, isAbout_unknownWarning name⟩ .nil
    | some d =>
      obtain ⟨-, rfl⟩ := Variable.name_of_lookup? hlookup
      simp only
      split
      · exact .nil
      · exact .cons ⟨rfl, rfl, t.isAbout_unavailableWarning d⟩ .nil

theorem warns_checkVariables (t : Template) :
    ∃ groups, t.checkVariables = groups.flatten ∧
      List.Forall₂ (fun name ds => List.Forall₂ (Warns name) (t.dueCodes name) ds)
        t.variableNames groups := by
  refine ⟨t.variableNames.map t.checkVariable, List.flatMap_def, ?_⟩
  exact List.forall₂_map_right_iff.mpr
    (List.forall₂_same.mpr fun name _ => t.warns_checkVariable name)

theorem eq_of_isAbout_unknownWarning {n m : String} (hm : isValidName m = true)
    (h : (unknownWarning m).IsAbout n) : n = m := by
  obtain ⟨_, ⟨⟩, hprefix⟩ := h
  have hclosing : '}' ∉ m.toList := by
    intro hmem
    exact absurd (List.all_eq_true.mp (Bool.and_eq_true_iff.mp hm).2 _ hmem) (by decide)
  have hstart : n.toList ++ "\x7d\x7d` ".toList <+:
      m.toList ++ "\x7d\x7d` is not in the variable registry".toList := by
    simpa [token, Token.chars, List.cons_prefix_cons] using hprefix
  obtain ⟨rest, hrest⟩ := hstart
  rw [List.append_assoc] at hrest
  rcases List.append_eq_append_iff.mp hrest with ⟨a, hname, ha⟩ | ⟨a, hname, ha⟩
  · cases a with
    | nil => exact (String.toList_inj.mp (by simpa using hname)).symm
    | cons c a =>
      have hc : '}' = c := by simpa using congrArg List.head? ha
      rw [hname, ← hc] at hclosing
      exact absurd (List.mem_append_right _ List.mem_cons_self) hclosing
  · cases a with
    | nil => exact String.toList_inj.mp (by simpa using hname)
    | cons c a =>
      -- Both pairs of braces would have to stand where there is only one.
      have hcount := congrArg (List.count '}') ha
      have hc : '}' = c := by simpa using congrArg List.head? ha
      simp [hc.symm] at hcount
      omega

theorem exists_unknown_iff {t : Template} {n : String} :
    (∃ w ∈ t.checkVariables, w.title = "Unknown variable" ∧ w.IsAbout n) ↔
      n ∈ t.variableNames ∧ lookup? n = none := by
  constructor
  · rintro ⟨w, hw, htitle, habout⟩
    obtain ⟨name, hname, hw⟩ := List.mem_flatMap.mp hw
    rcases List.mem_append.mp hw with hw | hw
    · split at hw
      · cases hw
      · cases List.mem_singleton.mp hw
        exact absurd (show "Undeclared variable" = _ from htitle) (by decide)
    · split at hw
      · split at hw
        · cases hw
        · cases List.mem_singleton.mp hw
          exact absurd (show "Variable not available in this context" = _ from htitle) (by decide)
      · rename_i hlookup
        cases List.mem_singleton.mp hw
        cases eq_of_isAbout_unknownWarning (isValidName_of_mem_variableNames hname) habout
        exact ⟨hname, hlookup⟩
  · rintro ⟨hname, hlookup⟩
    refine ⟨unknownWarning n, List.mem_flatMap.mpr ⟨n, hname, ?_⟩, rfl, isAbout_unknownWarning n⟩
    rw [checkVariable, hlookup]
    exact List.mem_append_right _ List.mem_cons_self

theorem exists_lookup?_of_checkVariables_eq_nil {t : Template} {n : String}
    (h : t.checkVariables = []) (hn : n ∈ t.variableNames) : ∃ d, lookup? n = some d := by
  refine Option.ne_none_iff_exists'.mp fun hnone => ?_
  obtain ⟨w, hw, -⟩ := exists_unknown_iff.mpr ⟨hn, hnone⟩
  rw [h] at hw
  cases hw

end Template

end EmailTemplates
