import EmailTemplates.Text.Span

namespace EmailTemplates

inductive Severity where
  | error
  | warning
  | info
deriving DecidableEq, Repr

def Severity.label : Severity → String
  | error => "Error"
  | warning => "Warning"
  | info => "Info"

inductive DetailKind where
  | error
  | info
  | note
deriving DecidableEq, Repr

def DetailKind.bullet : DetailKind → String
  | error => "✖"
  | info => "ℹ"
  | note => "•"

structure Detail where
  kind : DetailKind
  content : String
  location : Option Span
deriving DecidableEq, Repr

structure Diagnostic where
  code : Option String
  title : String
  severity : Severity
  problem : Option String
  details : List Detail
  hints : List String
  location : Option Span
deriving DecidableEq, Repr

namespace Diagnostic

def ofSeverity (severity : Severity) (title : String) : Diagnostic :=
  ⟨none, title, severity, none, [], [], none⟩

def error (title : String) : Diagnostic :=
  ofSeverity .error title

def warning (title : String) : Diagnostic :=
  ofSeverity .warning title

def withCode (d : Diagnostic) (code : String) : Diagnostic :=
  { d with code := some code }

def withProblem (d : Diagnostic) (problem : String) : Diagnostic :=
  { d with problem := some problem }

def withLocation (d : Diagnostic) (location : Span) : Diagnostic :=
  { d with location := some location }

def withDetail (d : Diagnostic) (kind : DetailKind) (content : String)
    (location : Option Span) : Diagnostic :=
  { d with details := d.details ++ [⟨kind, content, location⟩] }

def withInfo (d : Diagnostic) (content : String) : Diagnostic :=
  d.withDetail .info content none

def withNote (d : Diagnostic) (content : String) : Diagnostic :=
  d.withDetail .note content none

def withHint (d : Diagnostic) (hint : String) : Diagnostic :=
  { d with hints := d.hints ++ [hint] }

def isError (d : Diagnostic) : Bool :=
  d.severity == .error

def unlines (lines : List String) : String :=
  .join (lines.map (· ++ "\n"))

def headline (d : Diagnostic) : String :=
  match d.code with
  | some code => d.severity.label ++ " [" ++ code ++ "]: " ++ d.title
  | none => d.severity.label ++ ": " ++ d.title

def detailLines (details : List Detail) : List String :=
  details.map fun detail => detail.kind.bullet ++ " " ++ detail.content

def hintLines (d : Diagnostic) : List String :=
  d.hints.map ("? " ++ ·)

def text (d : Diagnostic) : String :=
  unlines ([d.headline] ++ d.problem.toList ++ detailLines d.details ++ d.hintLines)

end Diagnostic

end EmailTemplates
