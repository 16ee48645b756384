import EmailTemplates.Text.Slice

namespace EmailTemplates.Source.Quoted

def escapeChar : Char → List Char
  | '\\' => ['\\', '\\']
  | '\'' => ['\\', '\'']
  | '\n' => ['\\', 'n']
  | '\t' => ['\\', 't']
  | c => [c]

def escape (cs : List Char) : List Char :=
  cs.flatMap escapeChar

def encode (cs : List Char) : List Char :=
  '\'' :: escape cs ++ ['\'']

def unescape : List Char → List Char
  | '\\' :: 'n' :: cs => '\n' :: unescape cs
  | '\\' :: 't' :: cs => '\t' :: unescape cs
  | '\\' :: c :: cs => c :: unescape cs
  | c :: cs => c :: unescape cs
  | [] => []

def bodyLength (quote : Char) : List Char → Option Nat
  | [] => none
  | '\\' :: c :: cs => if c = '\n' then none else (bodyLength quote cs).map (· + 2)
  | c :: cs =>
    if c = quote then some 0
    else if c = '\n' ∨ c = '\\' then none
    else (bodyLength quote cs).map (· + 1)

def read : Text.Slice.Reader Text.Slice := fun s =>
  match s.chars with
  | [] => none
  | quote :: cs =>
    if quote = '\'' ∨ quote = '"' then
      (bodyLength quote cs).map fun n => ((s.drop 1).take n, s.drop (n + 2))
    else none

end EmailTemplates.Source.Quoted
