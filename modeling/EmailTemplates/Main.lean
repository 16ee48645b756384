import EmailTemplates.CommandLine.Run

namespace EmailTemplates.CommandLine

def readIfThere (path : String) : IO (Option String) := do
  try
    return some (← IO.FS.readFile path)
  catch _ => return none

def give (output : Output) : IO (Option String) := do
  match output.path with
  | none =>
    IO.print output.text
    return none
  | some path =>
    try
      IO.FS.writeFile path output.text
      return none
    catch _ => return some (writeFailure path)

def perform (command : Command) : IO UInt32 := do
  let inputs ← command.inputs.mapM fun path => return (path, ← readIfThere path)
  let outcome := command.run fun path => (inputs.lookup path).join
  for note in outcome.notes do
    IO.eprintln note.text
  let writeError ← match outcome.output with
    | some output => give output
    | none => pure none
  match writeError.or outcome.failure with
  | some message =>
    IO.eprintln ("Error: " ++ message)
    return 1
  | none => return 0

end EmailTemplates.CommandLine

open EmailTemplates.CommandLine in
def main (arguments : List String) : IO UInt32 := do
  match parse? arguments with
  | some command => perform command
  | none =>
    IO.eprintln usage
    return 2
