namespace EmailTemplates.CommandLine

inductive OptionKind where
  | flag
  | value (placeholder : String) (repeatable : Bool)
  | help
deriving DecidableEq, Repr

structure OptionSpec where
  name : String
  letter : Option Char
  kind : OptionKind
  about : String
deriving DecidableEq, Repr

namespace OptionSpec

def flag (name about : String) : OptionSpec :=
  ⟨name, none, .flag, about⟩

def value (name placeholder about : String) : OptionSpec :=
  ⟨name, none, .value placeholder false, about⟩

def output (about : String) : OptionSpec :=
  ⟨"output", some 'o', .value "OUTPUT" false, about⟩

def help : OptionSpec :=
  ⟨"help", some 'h', .help, "Print help"⟩

def version : OptionSpec :=
  ⟨"version", some 'V', .flag, "Print version"⟩

def row (o : OptionSpec) : String × String :=
  let letter := match o.letter with
    | some letter => .ofList ['-', letter, ',', ' ']
    | none => "    "
  let placeholder := match o.kind with
    | .value placeholder _ => " <" ++ placeholder ++ ">"
    | _ => ""
  (letter ++ "--" ++ o.name ++ placeholder, o.about)

end OptionSpec

structure CommandSpec where
  name : String
  about : String
  operands : List (String × String)
  options : List OptionSpec
deriving DecidableEq, Repr

def padTo (width : Nat) (s : String) : String :=
  s ++ .ofList (List.replicate (width - s.length) ' ')

def widest (texts : List String) : Nat :=
  (texts.map String.length).foldl max 0

def table (title : String) (rows : List (String × String)) : String :=
  if rows.isEmpty then ""
  else
    let width := widest (rows.map Prod.fst)
    "\n" ++ title ++ ":\n" ++
      .join (rows.map fun (term, about) => "  " ++ padTo width term ++ "  " ++ about ++ "\n")

def page (about usage : String) (tables : List (String × List (String × String))) : String :=
  about ++ "\n\nUsage: " ++ usage ++ "\n" ++
    .join (tables.map fun (title, rows) => table title rows)

namespace CommandSpec

def allOptions (c : CommandSpec) : List OptionSpec :=
  c.options ++ [.help]

def operandRows (c : CommandSpec) : List (String × String) :=
  c.operands.map fun (placeholder, about) => ("<" ++ placeholder ++ ">", about)

def usage (c : CommandSpec) : String :=
  " ".intercalate (["mailblocks", c.name] ++ (if c.options.isEmpty then [] else ["[OPTIONS]"]) ++
    c.operandRows.map Prod.fst)

def helpPage (c : CommandSpec) : String :=
  page c.about c.usage
    [("Arguments", c.operandRows), ("Options", c.allOptions.map OptionSpec.row)]

def render : CommandSpec where
  name := "render"
  about := "Render a template to HTML"
  operands := [("TEMPLATE", "Template JSON file")]
  options := [
    .value "vars" "VARS" "JSON file with variable values",
    ⟨"var", some 'V', .value "VAR" true, "Variable value (KEY=VALUE), overrides --vars"⟩,
    .flag "examples" "Fill variables from the registry's example values first",
    .flag "preserve" "Keep every \x7b\x7bname\x7d\x7d reference instead of substituting",
    .flag "preview" "Draw the preview banner",
    .flag "fragment" "Emit the block fragments only, without the envelope",
    .value "config" "CONFIG" "TOML file with shell options",
    .output "Write output to FILE instead of stdout"]

def importModule : CommandSpec where
  name := "import"
  about := "Import a legacy template module"
  operands := [("INPUT", "Legacy .ts module")]
  options := [
    .output "Write the template JSON to FILE instead of stdout",
    .flag "json" "Print the full import result, diagnostics included, as JSON"]

def generate : CommandSpec where
  name := "generate"
  about := "Generate a legacy template module from a template"
  operands := [("TEMPLATE", "Template JSON file")]
  options := [.output "Write output to FILE instead of stdout"]

def listVariables : CommandSpec where
  name := "variables"
  about := "List the variable registry"
  operands := []
  options := [
    .value "context" "CONTEXT" "Only variables available in this template context",
    .flag "json" "Output as JSON"]

def catalog : CommandSpec where
  name := "catalog"
  about := "List the system template catalog"
  operands := []
  options := [
    .value "category" "CATEGORY" "Only templates in this category",
    .value "starter" "SLUG" "Print the starter template for SLUG as JSON",
    .flag "json" "Output as JSON"]

def newBlock : CommandSpec where
  name := "new-block"
  about := "Print a new block of the given kind with default content"
  operands := [("KIND", "Block kind (e.g. button, info-box)"), ("ID", "Block id")]
  options := []

def all : List CommandSpec :=
  [render, importModule, generate, listVariables, catalog, newBlock]

end CommandSpec

def aboutHelp : String :=
  "Print this message or the help of the given subcommand(s)"

def programPage : String :=
  page "Build, render and migrate block-based email templates" "mailblocks <COMMAND>"
    [("Commands", (CommandSpec.all.map fun c => (c.name, c.about)) ++ [("help", aboutHelp)]),
     ("Options", [OptionSpec.help.row, OptionSpec.version.row])]

def helpOn : List String → Option String
  | [] => some programPage
  | ["help"] => some (page aboutHelp "mailblocks help [COMMAND]..."
      [("Arguments", [("[COMMAND]...", "Print help for the subcommand(s)")])])
  | [name] => (CommandSpec.all.find? (·.name == name)).map CommandSpec.helpPage
  | _ => none

end EmailTemplates.CommandLine
