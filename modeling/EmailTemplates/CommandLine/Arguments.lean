import EmailTemplates.CommandLine.Spec

namespace EmailTemplates.CommandLine

structure RenderCommand where
  template : String
  valuesFile : Option String
  assignments : List String
  examples : Bool
  preserve : Bool
  preview : Bool
  fragment : Bool
  config : Option String
  output : Option String
deriving DecidableEq, Repr

inductive Command where
  | render (command : RenderCommand)
  | importModule (input : String) (output : Option String) (json : Bool)
  | generate (template : String) (output : Option String)
  | listVariables (context : Option String) (json : Bool)
  | catalog (category starter : Option String) (json : Bool)
  | newBlock (kind id : String)
  | version
  | help (text : String)
deriving DecidableEq, Repr

structure Given where
  options : List (String × String)
  operands : List String
deriving DecidableEq, Repr

namespace Given

def values (g : Given) (name : String) : List String :=
  (g.options.filter (·.1 == name)).map Prod.snd

def value? (g : Given) (name : String) : Option String :=
  (g.values name).head?

def has (g : Given) (name : String) : Bool :=
  !(g.values name).isEmpty

def add (g : Given) (option : OptionSpec) (value : String) (repeatable : Bool) : Option Given :=
  if !repeatable && g.has option.name then none
  else some { g with options := g.options ++ [(option.name, value)] }

def addOperand (g : Given) (command : CommandSpec) (operand : String) : Option Given :=
  if g.operands.length < command.operands.length then
    some { g with operands := g.operands ++ [operand] }
  else none

end Given

inductive Argument where
  | terminator
  | long (name : String) (value : Option String)
  | short (letter : Char) (rest : List Char)
  | plain

def argument (s : String) : Argument :=
  match s.toList with
  | ['-', '-'] => .terminator
  | '-' :: '-' :: cs =>
    match cs.dropWhile (· != '=') with
    | _ :: value => .long (.ofList (cs.takeWhile (· != '='))) (some (.ofList value))
    | [] => .long (.ofList cs) none
  | '-' :: letter :: rest => .short letter rest
  | _ => .plain

def joinedValue : List Char → Option String
  | [] => none
  | '=' :: value => some (.ofList value)
  | value => some (.ofList value)

inductive Asked where
  | given (g : Given)
  | help
deriving DecidableEq, Repr

/-- An option that lacks its value takes the next argument, which must not be an option itself. -/
def asked (command : CommandSpec) (g : Given) : List String → Option Asked
  | [] => some (.given g)
  | s :: rest =>
    let take (option : OptionSpec) (joined : Option String) : Option Asked :=
      match option.kind, joined with
      | .help, none => some .help
      | .flag, none => do asked command (← g.add option "" false) rest
      | .help, some _ | .flag, some _ => none
      | .value _ repeatable, some value => do asked command (← g.add option value repeatable) rest
      | .value _ repeatable, none =>
        match rest with
        | [] => none
        | value :: rest =>
          match argument value with
          | .plain => do asked command (← g.add option value repeatable) rest
          | _ => none
    match argument s with
    | .terminator => do return .given (← rest.foldlM (·.addOperand command) g)
    | .long name joined => do take (← command.allOptions.find? (·.name == name)) joined
    | .short letter joined => do
      let option ← command.allOptions.find? (·.letter == some letter)
      -- what is joined to a letter that asks for help is not read
      take option (if option.kind = .help then none else joinedValue joined)
    | .plain => do asked command (← g.addOperand command s) rest

def CommandSpec.parse? (command : CommandSpec) (make : Given → Option Command)
    (arguments : List String) : Option Command := do
  match ← asked command ⟨[], []⟩ arguments with
  | .help => return .help command.helpPage
  | .given g => make g

def Given.render? (g : Given) : Option Command :=
  match g.operands with
  | [template] =>
    some (.render {
      template
      valuesFile := g.value? "vars"
      assignments := g.values "var"
      examples := g.has "examples"
      preserve := g.has "preserve"
      preview := g.has "preview"
      fragment := g.has "fragment"
      config := g.value? "config"
      output := g.value? "output" })
  | _ => none

def Given.importModule? (g : Given) : Option Command :=
  match g.operands with
  | [input] => some (.importModule input (g.value? "output") (g.has "json"))
  | _ => none

def Given.generate? (g : Given) : Option Command :=
  match g.operands with
  | [template] => some (.generate template (g.value? "output"))
  | _ => none

def Given.newBlock? (g : Given) : Option Command :=
  match g.operands with
  | [kind, id] => some (.newBlock kind id)
  | _ => none

def parse? : List String → Option Command
  | "render" :: rest => CommandSpec.render.parse? Given.render? rest
  | "import" :: rest => CommandSpec.importModule.parse? Given.importModule? rest
  | "generate" :: rest => CommandSpec.generate.parse? Given.generate? rest
  | "variables" :: rest =>
    CommandSpec.listVariables.parse? (fun g =>
      some (.listVariables (g.value? "context") (g.has "json"))) rest
  | "catalog" :: rest =>
    CommandSpec.catalog.parse? (fun g =>
      some (.catalog (g.value? "category") (g.value? "starter") (g.has "json"))) rest
  | "new-block" :: rest => CommandSpec.newBlock.parse? Given.newBlock? rest
  | "help" :: names => (helpOn names).map .help
  | s :: _ =>
    match argument s with
    | .long "version" none | .short 'V' _ => some .version
    | .long "help" none | .short 'h' _ => some (.help programPage)
    | _ => none
  | [] => none

end EmailTemplates.CommandLine
