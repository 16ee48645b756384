import EmailTemplates.CommandLine.Run

namespace EmailTemplates.CommandLine

structure Directory where
  files : List (List String × String)
deriving DecidableEq, Repr

namespace Directory

def steps? (path : String) : Option (List String) :=
  let parts := split path.toList
  if path.toList.head? = some '/' ∨ parts.getLast? ∈ [some [], some ['.'], some ['.', '.']] then
    none
  else some ((parts.filter fun p => !p.isEmpty && p != ['.']).map String.ofList)
where
  split : List Char → List (List Char)
    | [] => [[]]
    | '/' :: cs => [] :: split cs
    | c :: cs =>
      match split cs with
      | [] => [[c]]
      | part :: rest => (c :: part) :: rest

def ofList (files : List (String × String)) : Directory :=
  ⟨files.filterMap fun (path, text) => (steps? path).map fun steps => (steps, text)⟩

def read? (d : Directory) (path : String) : Option String := do
  d.files.lookup (← steps? path)

def hasFolder (d : Directory) (steps : List String) : Bool :=
  steps.isEmpty || d.files.any fun (file, _) => steps.isPrefixOf file && file != steps

def write? (d : Directory) (path text : String) : Option Directory := do
  let steps ← steps? path
  if d.hasFolder steps.dropLast && !d.hasFolder steps then
    return ⟨(steps, text) :: d.files.filter (·.1 != steps)⟩
  none

def path (steps : List String) : String :=
  "/".intercalate steps

def changes (d before : Directory) : List (String × String) :=
  (d.files.filter fun (steps, text) => before.files.lookup steps != some text).map
    fun (steps, text) => (path steps, text)

end Directory

structure RunResult where
  exitCode : Nat
  stdout : String
  failure : Option String
  directory : Directory

/-- A wrong usage ends with 2, a failure with 1. -/
def runIn (d : Directory) (arguments : List String) : RunResult :=
  match parse? arguments with
  | none => ⟨2, "", none, d⟩
  | some command =>
    let outcome := command.run d.read?
    let ended (stdout : String) (d : Directory) : RunResult :=
      ⟨if outcome.failure.isSome then 1 else 0, stdout, outcome.failure, d⟩
    match outcome.output with
    | none => ended "" d
    | some ⟨none, text⟩ => ended text d
    | some ⟨some path, text⟩ =>
      match d.write? path text with
      | some d => ended "" d
      | none => ⟨1, "", some (writeFailure path), d⟩

end EmailTemplates.CommandLine
