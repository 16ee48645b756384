import EmailTemplates.Codec
import EmailTemplates.CommandLine.Arguments
import EmailTemplates.CommandLine.Toml
import EmailTemplates.Json.Printer
import EmailTemplates.Source.Generate

namespace EmailTemplates.CommandLine

structure Output where
  path : Option String
  text : String
deriving DecidableEq, Repr

structure Outcome where
  notes : List Diagnostic
  output : Option Output
  failure : Option String
deriving DecidableEq, Repr

namespace Outcome

def failed (message : String) : Outcome :=
  ⟨[], none, some message⟩

def printed (text : String) : Outcome :=
  ⟨[], some ⟨none, text⟩, none⟩

end Outcome

abbrev Reading := String → Option String

def endLine (s : String) : String :=
  if s.toList.getLast? = some '\n' then s else s ++ "\n"

def outputOf (path : Option String) (text : String) : Output :=
  match path with
  | some path => ⟨some path, text⟩
  | none => ⟨none, endLine text⟩

def readTemplate (read : Reading) (path : String) : Except String Template :=
  match read path with
  | none => .error ("Failed to read template: " ++ path)
  | some text =>
    match Template.loadText text with
    | .ok t => .ok t
    | .error _ => .error ("Invalid template: " ++ path)

structure Config where
  preview : Bool
  company : Company
deriving DecidableEq, Repr

def Config.default : Config :=
  ⟨false, .unnamed⟩

def Config.ofText? (text : String) : Option Config := do
  let j ← Toml.parse? text
  if !j.members.all fun m => m.1 == "preview" || m.1 == "shell" then none
  let r ← Record.ofJson? ["preview", "shell"] j
  return ⟨← r.withDefault "preview" false Json.bool?,
    ← r.withDefault "shell" .unnamed Company.ofJson?⟩

def readConfig (read : Reading) : Option String → Except String Config
  | none => .ok .default
  | some path =>
    match read path with
    | none => .error ("Failed to read config: " ++ path)
    | some text => (Config.ofText? text).elim (.error ("Invalid config: " ++ path)) .ok

def readValues (read : Reading) : Option String → Except String (List (String × String))
  | none => .ok []
  | some path =>
    match read path with
    | none => .error ("Failed to read values: " ++ path)
    | some text =>
      ((Json.parse? text).bind Json.stringMap?).elim
        (.error ("Values file must be a JSON object of strings: " ++ path)) .ok

def assignment (s : String) : Except String (String × String) :=
  let cs := s.toList
  match cs.dropWhile (· != '=') with
  | [] => .error ("Expected KEY=VALUE, got '" ++ s ++ "'")
  | _ :: value =>
    let name := Text.trim (cs.takeWhile (· != '='))
    if name.isEmpty then .error ("Missing variable name in '" ++ s ++ "'")
    else .ok (.ofList name, .ofList value)

def RenderCommand.options (c : RenderCommand) (config : Config) : RenderOptions where
  mode := if c.preserve then .preserve else .substitute
  preview := c.preview || config.preview
  company := config.company
  envelope := if c.fragment then .bare else .full

def RenderCommand.values (c : RenderCommand) (t : Template)
    (fromFile assigned : List (String × String)) : Values :=
  let examples := if c.examples then t.exampleValues else .empty
  (fromFile ++ assigned).foldl (fun v entry => v.insert entry.1 entry.2) examples

def render (read : Reading) (c : RenderCommand) : Except String Outcome := do
  let t ← readTemplate read c.template
  let config ← readConfig read c.config
  let fromFile ← readValues read c.valuesFile
  let assigned ← c.assignments.mapM assignment
  match t.render (c.values t fromFile assigned) (c.options config) with
  | .ok email => return ⟨t.checkVariables, some (outputOf c.output email.html), none⟩
  | .error _ => throw ("Failed to render " ++ c.template)

def generate (read : Reading) (template : String) (output : Option String) :
    Except String Outcome := do
  let t ← readTemplate read template
  match t.generate with
  | .ok source => return ⟨[], some (outputOf output source), none⟩
  | .error _ => throw ("Failed to generate module for " ++ t.slug)

def importModule (read : Reading) (input : String) (output : Option String) (json : Bool) :
    Except String Outcome :=
  match read input with
  | none => .error ("Failed to read " ++ input)
  | some text =>
    let i := Import.ofSource text
    let result := if json then some i.toJson else i.template.map Template.toJson
    .ok ⟨i.diagnostics, result.map fun j => outputOf output (j.pretty 0),
      if i.isOk then none
      else some (input ++ " could not be imported: " ++ i.errors.length.repr ++ " error(s)")⟩

def definitionLine (width : Nat) (d : VariableDefinition) : String :=
  "  " ++ padTo width (Variable.token d.name) ++ "  " ++ d.label ++ " (" ++ d.kind.id ++
    "), e.g. " ++ d.sample ++ "\n"

def listVariables (context : Option String) (json : Bool) : Outcome :=
  let groups := Variable.byCategory context
  let definitions := groups.flatMap Prod.snd
  if json then
    .printed ((Json.array (definitions.map VariableDefinition.toJson)).pretty 0 ++ "\n")
  else
    let width := widest (definitions.map fun d => Variable.token d.name)
    .printed (.join (groups.map fun (category, definitions) =>
      if definitions.isEmpty then ""
      else category.displayName ++ "\n" ++ .join (definitions.map (definitionLine width))))

def entryLine (width : Nat) (s : SystemTemplate) : String :=
  padTo width s.slug ++ "  " ++ padTo 13 s.category ++ " " ++ s.description ++ "\n"

def entries (category : Option String) : Except String (List SystemTemplate) :=
  match category with
  | none => .ok SystemTemplate.all
  | some category =>
    match SystemTemplate.inCategory category with
    | [] => .error ("Unknown category '" ++ category ++ "' (expected one of: " ++
        ", ".intercalate SystemTemplate.categories ++ ")")
    | entries => .ok entries

def catalog (category starter : Option String) (json : Bool) : Except String Outcome :=
  match starter with
  | some slug =>
    match SystemTemplate.find? slug with
    | some s => .ok (.printed (s.starter.toJson.pretty 0 ++ "\n"))
    | none => .error ("Unknown system template '" ++ slug ++ "'")
  | none => do
    let entries ← entries category
    if json then
      return .printed ((Json.array (entries.map SystemTemplate.toJson)).pretty 0 ++ "\n")
    let width := widest (entries.map (·.slug))
    return .printed (.join (entries.map (entryLine width)))

def newBlock (kind id : String) : Except String Outcome :=
  if Text.isBlankText id then .error "Block id must not be empty"
  else
    match BlockKind.ofId? kind with
    | some kind => .ok (.printed ((Block.ofKind kind id).toJson.pretty 0 ++ "\n"))
    | none =>
      .error ("Expected one of: " ++ ", ".intercalate (BlockKind.all.map BlockKind.id))

def Command.run (read : Reading) (c : Command) : Outcome :=
  let result := match c with
    | .render c => CommandLine.render read c
    | .importModule input output json => CommandLine.importModule read input output json
    | .generate template output => CommandLine.generate read template output
    | .listVariables context json => .ok (CommandLine.listVariables context json)
    | .catalog category starter json => CommandLine.catalog category starter json
    | .newBlock kind id => CommandLine.newBlock kind id
    | .version => .ok (.printed "mailblocks 0.1.0\n")
    | .help text => .ok (.printed text)
  match result with
  | .ok outcome => outcome
  | .error message => .failed message

def Command.inputs : Command → List String
  | .render c => [c.template] ++ c.config.toList ++ c.valuesFile.toList
  | .importModule input _ _ => [input]
  | .generate template _ => [template]
  | _ => []

def writeFailure (path : String) : String :=
  "Failed to write output: " ++ path

def usage : String :=
  "Usage: mailblocks <render|import|generate|variables|catalog|new-block> ..."

end EmailTemplates.CommandLine
