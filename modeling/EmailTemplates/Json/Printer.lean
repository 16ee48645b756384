import EmailTemplates.Json.Basic
import EmailTemplates.Text.Hex

namespace EmailTemplates.Json

open EmailTemplates.Text (hexDigit)

def escapeChar (c : Char) : List Char :=
  match c with
  | '"' => ['\\', '"']
  | '\\' => ['\\', '\\']
  | '\x08' => ['\\', 'b']
  | '\x0c' => ['\\', 'f']
  | '\n' => ['\\', 'n']
  | '\r' => ['\\', 'r']
  | '\t' => ['\\', 't']
  | c =>
    if c.toNat < 0x20 then ['\\', 'u', '0', '0', hexDigit (c.toNat / 16), hexDigit (c.toNat % 16)]
    else [c]

def quoted (s : String) : String :=
  "\"" ++ .ofList (s.toList.flatMap escapeChar) ++ "\""

mutual

def compact : Json → String
  | null | unreadable => "null"
  | bool b => if b then "true" else "false"
  | nat n => n.repr
  | number literal => literal
  | string s => quoted s
  | array items => "[" ++ compactItems items ++ "]"
  | object members => "\x7b" ++ compactMembers members ++ "\x7d"

def compactItems : List Json → String
  | [] => ""
  | [item] => item.compact
  | item :: items => item.compact ++ "," ++ compactItems items

def compactMembers : List (String × Json) → String
  | [] => ""
  | [(name, value)] => quoted name ++ ":" ++ value.compact
  | (name, value) :: members =>
    quoted name ++ ":" ++ value.compact ++ "," ++ compactMembers members

end

def indentation (level : Nat) : String :=
  .ofList (List.replicate (2 * level) ' ')

mutual

def pretty (level : Nat) : Json → String
  | array [] => "[]"
  | array items => "[\n" ++ prettyItems (level + 1) items ++ "\n" ++ indentation level ++ "]"
  | object [] => "\x7b\x7d"
  | object members =>
    "\x7b\n" ++ prettyMembers (level + 1) members ++ "\n" ++ indentation level ++ "\x7d"
  | null | unreadable => "null"
  | bool b => if b then "true" else "false"
  | nat n => n.repr
  | number literal => literal
  | string s => quoted s

def prettyItems (level : Nat) : List Json → String
  | [] => ""
  | [item] => indentation level ++ item.pretty level
  | item :: items => indentation level ++ item.pretty level ++ ",\n" ++ prettyItems level items

def prettyMembers (level : Nat) : List (String × Json) → String
  | [] => ""
  | [(name, value)] => indentation level ++ quoted name ++ ": " ++ value.pretty level
  | (name, value) :: members =>
    indentation level ++ quoted name ++ ": " ++ value.pretty level ++ ",\n" ++
      prettyMembers level members

end

end EmailTemplates.Json
