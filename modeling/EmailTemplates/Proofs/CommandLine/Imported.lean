import EmailTemplates.CommandLine.Directory
import EmailTemplates.Proofs.Json.Codec
import EmailTemplates.Proofs.Source.Required

namespace EmailTemplates.CommandLine

variable {command : CommandSpec} {g : Given} {value : String} {rest : List String}

theorem asked_plain {s : String} (h : argument s = .plain) :
    asked command g (s :: rest) =
      (g.addOperand command s).bind fun g => asked command g rest := by
  rw [asked, h]
  rfl

theorem asked_operand {options : List (String × String)} {s : String}
    (hcommand : command.operands ≠ []) (h : argument s = .plain) :
    asked command ⟨options, []⟩ (s :: rest) = asked command ⟨options, [s]⟩ rest := by
  have hlimit : 0 < command.operands.length := List.length_pos_of_ne_nil hcommand
  rw [asked_plain h, Given.addOperand, List.length_nil, if_pos hlimit]
  rfl

theorem asked_output {about : String}
    (hoption : command.allOptions.find? (·.letter == some 'o') = some (.output about))
    (h : argument value = .plain) :
    asked command g ("-o" :: value :: rest) =
      (g.add (.output about) value false).bind fun g => asked command g rest := by
  have hletter : argument "-o" = .short 'o' [] := rfl
  rw [asked, hletter]
  simp [hoption, h, joinedValue, OptionSpec.output]

theorem asked_var (h : argument value = .plain) :
    asked .render g ("-V" :: value :: rest) =
      asked .render { g with options := g.options ++ [("var", value)] } rest := by
  have hletter : argument "-V" = .short 'V' [] := rfl
  have hoption : CommandSpec.render.allOptions.find? (·.letter == some 'V') =
      some ⟨"var", some 'V', .value "VAR" true,
        "Variable value (KEY=VALUE), overrides --vars"⟩ := rfl
  rw [asked, hletter]
  simp [hoption, h, joinedValue, Given.add]

theorem parse?_import {input output : String} (hin : argument input = .plain)
    (hout : argument output = .plain) :
    parse? ["import", input, "-o", output] = some (.importModule input (some output) false) := by
  rw [parse?, CommandSpec.parse?, asked_operand (by decide) hin, asked_output rfl hout]
  rfl

theorem parse?_generate {template : String} (h : argument template = .plain) :
    parse? ["generate", template] = some (.generate template none) := by
  rw [parse?, CommandSpec.parse?, asked_operand (by decide) h]
  rfl

theorem asked_vars (assignments : List String) (g : Given)
    (h : ∀ a ∈ assignments, argument a = .plain) :
    asked .render g (assignments.flatMap fun a => ["-V", a]) =
      some (.given { g with options := g.options ++ assignments.map fun a => ("var", a) }) := by
  induction assignments generalizing g with
  | nil => simp [asked]
  | cons a assignments ih =>
    obtain ⟨ha, hassignments⟩ := List.forall_mem_cons.mp h
    rw [List.flatMap_cons, List.cons_append, List.cons_append, List.nil_append, asked_var ha,
      ih _ hassignments, List.append_assoc]
    rfl

def flagNames : List String :=
  ["examples", "preserve", "preview", "fragment"]

theorem argument_flag : ∀ name ∈ flagNames, argument ("--" ++ name) = .long name none ∧
    ∃ about, CommandSpec.render.allOptions.find? (·.name == name) = some (.flag name about) := by
  intro name hname
  simp only [flagNames, List.mem_cons, List.not_mem_nil, or_false] at hname
  rcases hname with rfl | rfl | rfl | rfl <;> exact ⟨rfl, _, rfl⟩

theorem asked_flag {name : String} (hname : name ∈ flagNames)
    (hnew : name ∉ g.options.map Prod.fst) :
    asked .render g (("--" ++ name) :: rest) =
      asked .render { g with options := g.options ++ [(name, "")] } rest := by
  obtain ⟨hargument, about, hoption⟩ := argument_flag name hname
  have hhas : g.has name = false := by
    rw [Given.has, Given.values, Bool.not_eq_false', List.isEmpty_iff, List.map_eq_nil_iff,
      List.filter_eq_nil_iff]
    exact fun option hmem hmatch => hnew (beq_iff_eq.mp hmatch ▸ List.mem_map_of_mem hmem)
  rw [asked, hargument]
  simp [hoption, OptionSpec.flag, Given.add, hhas]

theorem asked_flags {flags : List String} (hflags : ∀ name ∈ flags, name ∈ flagNames)
    (hnodup : flags.Nodup) (hnew : ∀ name ∈ flags, name ∉ g.options.map Prod.fst) :
    asked .render g (flags.map ("--" ++ ·) ++ rest) =
      asked .render { g with options := g.options ++ flags.map fun name => (name, "") } rest := by
  induction flags generalizing g with
  | nil => simp
  | cons name flags ih =>
    obtain ⟨hname, hflags⟩ := List.forall_mem_cons.mp hflags
    obtain ⟨hfirst, hnodup⟩ := List.nodup_cons.mp hnodup
    obtain ⟨hnone, hnew⟩ := List.forall_mem_cons.mp hnew
    rw [List.map_cons, List.cons_append, asked_flag hname hnone, ih hflags hnodup]
    · rw [List.append_assoc]
      rfl
    · intro other hother hmem
      rw [List.map_append, List.mem_append] at hmem
      rcases hmem with hmem | hmem
      · exact hnew other hother hmem
      · cases List.mem_singleton.mp hmem
        exact hfirst hother

def drawing (template : String) (flags assignments : List String) : Given where
  options := (flags.map fun name => (name, "")) ++ assignments.map fun a => ("var", a)
  operands := [template]

theorem values_drawing {template name : String} {flags assignments : List String} :
    (drawing template flags assignments).values name =
      ((flags.filter (· == name)).map fun _ => "") ++
        if name = "var" then assignments else [] := by
  rw [Given.values, drawing, List.filter_append, List.map_append, List.filter_map, List.filter_map,
    List.map_map, List.map_map]
  congr 1
  by_cases h : name = "var"
  · simp [h, Function.comp_def]
  · have hne : ("var" == name) = false := beq_eq_false_iff_ne.mpr (Ne.symm h)
    simp [h, hne, Function.comp_def]

theorem filter_beq_eq_nil {name : String} {names : List String} (h : name ∉ names) :
    names.filter (· == name) = [] := by
  rw [List.filter_eq_nil_iff]
  exact fun other hother heq => h (beq_iff_eq.mp heq ▸ hother)

theorem has_drawing {template name : String} {flags assignments : List String}
    (h : name ≠ "var") : (drawing template flags assignments).has name = flags.contains name := by
  rw [Given.has, values_drawing, if_neg h, List.append_nil, List.isEmpty_map]
  rw [Bool.eq_iff_iff]
  simp [List.filter_eq_nil_iff]

theorem value?_drawing {template name : String} {flags assignments : List String}
    (hflags : name ∉ flags) (h : name ≠ "var") :
    (drawing template flags assignments).value? name = none := by
  rw [Given.value?, values_drawing, filter_beq_eq_nil hflags, if_neg h]
  rfl

def renderLine (template : String) (flags assignments : List String) : List String :=
  "render" :: template :: (flags.map ("--" ++ ·) ++ assignments.flatMap fun a => ["-V", a])

theorem parse?_renderLine {template : String} {flags assignments : List String}
    (ht : argument template = .plain) (hflags : ∀ name ∈ flags, name ∈ flagNames)
    (hnodup : flags.Nodup) (ha : ∀ a ∈ assignments, argument a = .plain) :
    parse? (renderLine template flags assignments) = some (.render {
      template
      valuesFile := none
      assignments
      examples := flags.contains "examples"
      preserve := flags.contains "preserve"
      preview := flags.contains "preview"
      fragment := flags.contains "fragment"
      config := none
      output := none }) := by
  have hgiven : asked .render ⟨[], []⟩
      (template :: (flags.map ("--" ++ ·) ++ assignments.flatMap fun a => ["-V", a])) =
        some (.given (drawing template flags assignments)) := by
    rw [asked_operand (by decide) ht, asked_flags hflags hnodup (by simp),
      asked_vars assignments _ ha]
    rfl
  have hother {name : String} (h : name ∉ flagNames) : name ∉ flags := fun hname =>
    h (hflags name hname)
  have hvar : (drawing template flags assignments).values "var" = assignments := by
    rw [values_drawing, filter_beq_eq_nil (hother (by decide)), if_pos rfl]
    rfl
  rw [renderLine, parse?, CommandSpec.parse?, hgiven]
  change some (Command.render _) = _
  rw [hvar]
  iterate 3 rw [value?_drawing (hother (by decide)) (by decide)]
  iterate 4 rw [has_drawing (by decide)]

theorem Directory.read?_of_write? {d d' : Directory} {path text : String}
    (h : d.write? path text = some d') : d'.read? path = some text := by
  obtain ⟨steps, hsteps, h⟩ := Option.bind_eq_some_iff.mp h
  split at h
  · cases h
    rw [read?, hsteps]
    exact List.lookup_cons_self
  · cases h

/-- A name that is not blank, an equals sign and a value. -/
def Assigns (s : String) : Prop :=
  ∃ name value, s.toList = name ++ '=' :: value ∧ '=' ∉ name ∧ Text.trim name ≠ []

theorem exists_assignment {s : String} (h : Assigns s) : ∃ entry, assignment s = .ok entry := by
  obtain ⟨name, value, hs, hname, htrim⟩ := h
  have hbefore : ∀ c ∈ name, (c != '=') = true := by
    intro c hc
    rw [bne_iff_ne]
    rintro rfl
    exact hname hc
  have hdrop : s.toList.dropWhile (· != '=') = '=' :: value := by
    rw [hs, List.dropWhile_append_of_pos hbefore]
    rfl
  have htake : s.toList.takeWhile (· != '=') = name := by
    rw [hs, List.takeWhile_append_of_pos hbefore]
    simp
  have hne : (Text.trim name).isEmpty = false := List.isEmpty_eq_false_iff.mpr htrim
  exact ⟨_, by simp only [assignment, hdrop, htake, hne, Bool.false_eq_true, if_false]; rfl⟩

theorem exists_assignments {assignments : List String} (h : ∀ a ∈ assignments, Assigns a) :
    ∃ entries, assignments.mapM assignment = .ok entries := by
  induction assignments with
  | nil => exact ⟨[], rfl⟩
  | cons a assignments ih =>
    obtain ⟨ha, hassignments⟩ := List.forall_mem_cons.mp h
    obtain ⟨entry, hentry⟩ := exists_assignment ha
    obtain ⟨entries, hentries⟩ := ih hassignments
    exact ⟨entry :: entries, by rw [List.mapM_cons, hentry, hentries]; rfl⟩

structure RenderCommand.Alone (c : RenderCommand) : Prop where
  valuesFile : c.valuesFile = none
  config : c.config = none
  output : c.output = none

variable {d : Directory} {t : Template} {path : String}

section

variable {args : List String} {command : Command} {notes : List Diagnostic} {text : String}
  (hparse : parse? args = some command)
include hparse

theorem runIn_printed (h : command.run d.read? = ⟨notes, some ⟨none, text⟩, none⟩) :
    runIn d args = ⟨0, text, none, d⟩ := by
  simp [runIn, hparse, h]

theorem runIn_written {d' : Directory}
    (h : command.run d.read? = ⟨notes, some ⟨some path, text⟩, none⟩)
    (hwrite : d.write? path text = some d') : runIn d args = ⟨0, "", none, d'⟩ := by
  simp [runIn, hparse, h, hwrite]

theorem runIn_failed {message : String}
    (h : command.run d.read? = ⟨notes, none, some message⟩) :
    runIn d args = ⟨1, "", some message, d⟩ := by
  simp [runIn, hparse, h]

end

theorem exitCode_render {args : List String} {c : RenderCommand} (ht : t.Usable)
    (hread : readTemplate d.read? c.template = .ok t) (hparse : parse? args = some (.render c))
    (hc : c.Alone) (ha : ∀ a ∈ c.assignments, Assigns a) : (runIn d args).exitCode = 0 := by
  obtain ⟨entries, hentries⟩ := exists_assignments ha
  obtain ⟨email, hemail⟩ := ht.renders (c.values t [] entries) (c.options .default)
  have hrun : (Command.render c).run d.read? =
      ⟨t.checkVariables, some (outputOf none email.html), none⟩ := by
    simp only [Command.run, render, hread, hc.config, hc.valuesFile, hc.output, readConfig,
      readValues, hentries, bind, Except.bind, hemail]
    rfl
  rw [runIn_printed hparse hrun]

theorem exitCode_generate (ht : t.Usable) (hpath : argument path = .plain)
    (hread : readTemplate d.read? path = .ok t) :
    (runIn d ["generate", path]).exitCode = 0 := by
  obtain ⟨source, hsource⟩ := ht.generates
  have hrun : (Command.generate path none).run d.read? =
      ⟨[], some (outputOf none source), none⟩ := by
    simp only [Command.run, generate, hread, bind, Except.bind, hsource]
    rfl
  rw [runIn_printed (parse?_generate hpath) hrun]

theorem isSome_template_iff (text : String) :
    (Import.ofSource text).template.isSome = true ↔ (Import.ofSource text).errors = [] := by
  by_cases h : Source.Requirement.all.flatMap
      (Source.violations (Text.Slice.ofString text)) = []
  · exact (Import.ofSource_of_no_violations h).2
  · obtain ⟨herrors, htemplate⟩ := Import.ofSource_of_violations h
    simp [herrors, htemplate, h]

section

variable {input output text : String} (hin : argument input = .plain)
  (hout : argument output = .plain) (hread : d.read? input = some text)
include hin hout hread

theorem runIn_import_of_errors (h : (Import.ofSource text).errors ≠ []) :
    ∃ message, runIn d ["import", input, "-o", output] = ⟨1, "", some message, d⟩ := by
  have hnone : (Import.ofSource text).template = none := by
    rw [← Option.not_isSome_iff_eq_none, isSome_template_iff]
    exact h
  have hrun : (Command.importModule input (some output) false).run d.read? =
      ⟨(Import.ofSource text).diagnostics, none, some (input ++ " could not be imported: " ++
        (Import.ofSource text).errors.length.repr ++ " error(s)")⟩ := by
    simp only [Command.run, importModule, hread, hnone]
    simp [Import.isOk, h]
  exact ⟨_, runIn_failed (parse?_import hin hout) hrun⟩

theorem runIn_import_of_template {d' : Directory} (h : (Import.ofSource text).errors = [])
    (ht : (Import.ofSource text).template = some t)
    (hwrite : d.write? output (t.toJson.pretty 0) = some d') :
    runIn d ["import", input, "-o", output] = ⟨0, "", none, d'⟩ := by
  have hrun : (Command.importModule input (some output) false).run d.read? =
      ⟨(Import.ofSource text).diagnostics, some ⟨some output, t.toJson.pretty 0⟩, none⟩ := by
    simp only [Command.run, importModule, hread, ht]
    simp [Import.isOk, h, outputOf]
  exact runIn_written (parse?_import hin hout) hrun hwrite

end

theorem readTemplate_of_write? {d' : Directory} (hv : t.validate = .ok ())
    (h : d.write? path (t.toJson.pretty 0) = some d') : readTemplate d'.read? path = .ok t := by
  have hload := Template.loadText_of_parse? hv (Json.parse?_pretty t.fits_toJson.plain)
  simp only [readTemplate, Directory.read?_of_write? h, hload]

theorem import_leaves_usable_file {d : Directory} {input output text : String}
    (hin : argument input = .plain) (hout : argument output = .plain)
    (hread : d.read? input = some text) (hwrite : ∀ json, (d.write? output json).isSome = true) :
    let imported := Import.ofSource text
    let r := runIn d ["import", input, "-o", output]
    (r.exitCode = 1 ↔ imported.errors ≠ []) ∧
    (imported.errors ≠ [] → r.directory = d) ∧
    (imported.errors = [] → r.exitCode = 0 ∧ ∃ t, imported.template = some t ∧
      d.write? output (t.toJson.pretty 0) = some r.directory ∧
      readTemplate r.directory.read? output = .ok t ∧
      (runIn r.directory ["generate", output]).exitCode = 0 ∧
      (∀ args c, parse? args = some (.render c) → c.template = output → c.Alone →
        (∀ a ∈ c.assignments, Assigns a) → (runIn r.directory args).exitCode = 0) ∧
      ∀ flags assignments, (∀ name ∈ flags, name ∈ flagNames) → flags.Nodup →
        (∀ a ∈ assignments, argument a = .plain ∧ Assigns a) →
          (runIn r.directory (renderLine output flags assignments)).exitCode = 0) := by
  intro imported r
  by_cases herrors : imported.errors = []
  · obtain ⟨t, ht⟩ := Option.isSome_iff_exists.mp ((isSome_template_iff text).mpr herrors)
    have husable := (Import.taken_of_ofSource ht).usable
    obtain ⟨d', hd'⟩ := Option.isSome_iff_exists.mp (hwrite (t.toJson.pretty 0))
    have hr : r = ⟨0, "", none, d'⟩ := runIn_import_of_template hin hout hread herrors ht hd'
    have hloaded : readTemplate d'.read? output = .ok t := readTemplate_of_write? husable.valid hd'
    have hdraw : ∀ args c, parse? args = some (.render c) → c.template = output → c.Alone →
        (∀ a ∈ c.assignments, Assigns a) → (runIn d' args).exitCode = 0 := by
      intro args c hparse hc halone ha
      exact exitCode_render husable (hc ▸ hloaded) hparse halone ha
    rw [hr]
    refine ⟨by simp [herrors], fun h => absurd herrors h, fun _ => ⟨rfl, t, ht, hd', hloaded,
      exitCode_generate husable hout hloaded, hdraw, ?_⟩⟩
    intro flags assignments hflags hnodup ha
    have hparse := parse?_renderLine hout hflags hnodup fun a hmem => (ha a hmem).1
    exact hdraw _ _ hparse rfl ⟨rfl, rfl, rfl⟩ fun a hmem => (ha a hmem).2
  · obtain ⟨message, hr⟩ := runIn_import_of_errors hin hout hread herrors
    have hr : r = ⟨1, "", some message, d⟩ := hr
    rw [hr]
    exact ⟨by simp [herrors], fun _ => rfl, fun h => absurd h herrors⟩

def greetingModule : String :=
  "export const slug = 'hi';\nexport const subject = 'Hi';\n" ++
    "export const header = \x7b title: 'Hi' \x7d;\n" ++
    "export function renderContent(data: V): string \x7b\n" ++
    "  return `<p>Hi $\x7bdata.customer_name\x7d,</p>`;\n\x7d\n"

theorem errors_greetingModule : (Import.ofSource greetingModule).errors = [] := by
  decide +kernel

theorem import_leaves_usable_file_greeting :
    let r := runIn (.ofList [("m.ts", greetingModule)]) ["import", "m.ts", "-o", "t.json"]
    r.exitCode = 0 ∧ (runIn r.directory ["generate", "t.json"]).exitCode = 0 ∧
      (runIn r.directory (renderLine "t.json" ["preserve", "fragment"] ["name=Ada"])).exitCode
        = 0 := by
  have hread : (Directory.ofList [("m.ts", greetingModule)]).read? "m.ts" = some greetingModule :=
    rfl
  have hassigns : Assigns "name=Ada" :=
    ⟨"name".toList, "Ada".toList, by decide, by decide, by decide⟩
  obtain ⟨-, -, h⟩ := @import_leaves_usable_file _ "m.ts" "t.json" _ rfl rfl hread fun _ => rfl
  obtain ⟨hexit, t, -, -, -, hgenerate, -, hrender⟩ := h errors_greetingModule
  refine ⟨hexit, hgenerate, hrender _ _ (by simp [flagNames]) (by simp) ?_⟩
  exact List.forall_mem_singleton.mpr ⟨rfl, hassigns⟩

end EmailTemplates.CommandLine
