import EmailTemplates.Diagnostic.Basic

namespace EmailTemplates

inductive Excerpt where
  | plain (text : String)
  | drawn (header : String) (line column : Nat) (after : String)
deriving DecidableEq, Repr

namespace Excerpt

def label : Severity → String
  | .error => "Error"
  | .warning => "Warning"
  | .info => "Advice"

def header (d : Diagnostic) : String :=
  label d.severity ++ ": " ++
    match d.code with
    | some code => "[" ++ code ++ "] " ++ d.title
    | none => d.title

def after (d : Diagnostic) : String :=
  Diagnostic.unlines
    (Diagnostic.detailLines (d.details.filter (·.location.isNone)) ++ d.hintLines)

def lineAndColumn (text : List Char) (index : Nat) : Nat × Nat :=
  let passed := text.take (min index (text.length - 1))
  let inLine := passed.reverse.takeWhile (· != '\n')
  (passed.count '\n' + 1, index - (passed.length - inLine.length) + 1)

end Excerpt

def Diagnostic.excerpt (d : Diagnostic) (source : String) : Excerpt :=
  let text := source.toList
  match d.location with
  | none => .plain d.text
  | some location =>
    if Text.byteLength text < location.start then .plain d.text
    else if text.isEmpty then .plain (Excerpt.header d ++ "\n" ++ Excerpt.after d)
    else
      let (line, column) := Excerpt.lineAndColumn text (location.toChars text).start
      .drawn (Excerpt.header d) line column (Excerpt.after d)

end EmailTemplates
