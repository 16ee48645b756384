import EmailTemplates.Json.Basic
import EmailTemplates.Text.Hex

namespace EmailTemplates.Json

namespace Parser

open EmailTemplates.Text (hexDigit?)

def skipSpace (cs : List Char) : List Char :=
  cs.dropWhile fun c => c == ' ' || c == '\t' || c == '\n' || c == '\r'

def escaped? : Char → Option Char
  | '"' => some '"'
  | '\\' => some '\\'
  | '/' => some '/'
  | 'b' => some '\x08'
  | 'f' => some '\x0c'
  | 'n' => some '\n'
  | 'r' => some '\r'
  | 't' => some '\t'
  | _ => none

def stringBody : List Char → Option (List Nat × List Char)
  | [] => none
  | '"' :: cs => some ([], cs)
  | '\\' :: 'u' :: a :: b :: c :: d :: cs => do
    let unit := 4096 * (← hexDigit? a) + 256 * (← hexDigit? b) + 16 * (← hexDigit? c) +
      (← hexDigit? d)
    let (points, rest) ← stringBody cs
    return (unit :: points, rest)
  | '\\' :: e :: cs => do
    let c ← escaped? e
    let (points, rest) ← stringBody cs
    return (c.toNat :: points, rest)
  | c :: cs =>
    if c == '\\' || c.toNat < 0x20 then none
    else do
      let (points, rest) ← stringBody cs
      return (c.toNat :: points, rest)

def joinSurrogates : List Nat → Option (List Char)
  | [] => some []
  | high :: low :: points =>
    if 0xD800 ≤ high ∧ high < 0xDC00 then
      if 0xDC00 ≤ low ∧ low < 0xE000 then do
        let cs ← joinSurrogates points
        return Char.ofNat (0x10000 + (high - 0xD800) * 0x400 + (low - 0xDC00)) :: cs
      else none
    else if 0xDC00 ≤ high ∧ high < 0xE000 then none
    else (joinSurrogates (low :: points)).map (Char.ofNat high :: ·)
  | [point] => if 0xD800 ≤ point ∧ point < 0xE000 then none else some [Char.ofNat point]

def digits (cs : List Char) : Option (List Char × List Char) :=
  match cs.takeWhile Char.isDigit with
  | [] => none
  | ds => some (ds, cs.dropWhile Char.isDigit)

def natOf (ds : List Char) : Nat :=
  ds.foldl (fun n d => 10 * n + (d.toNat - '0'.toNat)) 0

/-- The least magnitude that rounds to no finite double. -/
def doubleBound : Nat :=
  Nat.pow 2 1024 - Nat.pow 2 970

def isBeyondDoubles (significand : Nat) (exponent : Int) : Bool :=
  if significand = 0 then false
  else if 400 < exponent then true
  else if 0 ≤ exponent then doubleBound ≤ significand * Nat.pow 10 exponent.toNat
  else if significand < Nat.pow 10 (min 400 (-exponent).toNat) then false
  else doubleBound * Nat.pow 10 (-exponent).toNat ≤ significand

def number (cs : List Char) : Option (Json × List Char) := do
  let negative := cs.head? == some '-'
  let unsigned := if negative then cs.drop 1 else cs
  let (whole, rest) ← digits unsigned
  if whole.head? == some '0' && whole.length != 1 then none
  let (fraction, rest) ← match rest with
    | '.' :: rest => digits rest
    | _ => some ([], rest)
  let (exponent, hasExponent, rest) ← match rest with
    | e :: rest =>
      if e == 'e' || e == 'E' then
        match rest with
        | '-' :: rest => (digits rest).map fun (ds, rest) => (-(natOf ds : Int), true, rest)
        | '+' :: rest => (digits rest).map fun (ds, rest) => ((natOf ds : Int), true, rest)
        | _ => (digits rest).map fun (ds, rest) => ((natOf ds : Int), true, rest)
      else some (0, false, e :: rest)
    | [] => some (0, false, [])
  if isBeyondDoubles (natOf (whole ++ fraction)) (exponent - fraction.length) then
    return (.unreadable, rest)
  if !negative && fraction.isEmpty && !hasExponent then
    return (.nat (natOf whole), rest)
  return (.number (.ofList (cs.take (cs.length - rest.length))), rest)

def objectOf (members : List (Option String × Json)) : Json :=
  match members.mapM fun (name, value) => name.map fun name => (name, value) with
  | some members => .object members
  | none => .unreadable

mutual

def value : (fuel : Nat) → List Char → Option (Json × List Char)
  | 0, _ => none
  | fuel + 1, cs =>
    match skipSpace cs with
    | 'n' :: 'u' :: 'l' :: 'l' :: rest => some (.null, rest)
    | 't' :: 'r' :: 'u' :: 'e' :: rest => some (.bool true, rest)
    | 'f' :: 'a' :: 'l' :: 's' :: 'e' :: rest => some (.bool false, rest)
    | '"' :: rest => do
      let (points, rest) ← stringBody rest
      match joinSurrogates points with
      | some cs => return (.string (.ofList cs), rest)
      | none => return (.unreadable, rest)
    | '[' :: rest =>
      match skipSpace rest with
      | ']' :: rest => some (.array [], rest)
      | rest => (items fuel rest).map fun (items, rest) => (.array items, rest)
    | '{' :: rest =>
      match skipSpace rest with
      | '}' :: rest => some (.object [], rest)
      | rest => (members fuel rest).map fun (members, rest) => (objectOf members, rest)
    | cs => number cs

def items : (fuel : Nat) → List Char → Option (List Json × List Char)
  | 0, _ => none
  | fuel + 1, cs => do
    let (item, rest) ← value fuel cs
    match skipSpace rest with
    | ',' :: rest =>
      let (more, rest) ← items fuel rest
      return (item :: more, rest)
    | ']' :: rest => return ([item], rest)
    | _ => none

def members : (fuel : Nat) → List Char → Option (List (Option String × Json) × List Char)
  | 0, _ => none
  | fuel + 1, cs =>
    match skipSpace cs with
    | '"' :: rest => do
      let (points, rest) ← stringBody rest
      let name := (joinSurrogates points).map String.ofList
      match skipSpace rest with
      | ':' :: rest =>
        let (v, rest) ← value fuel rest
        match skipSpace rest with
        | ',' :: rest =>
          let (more, rest) ← members fuel rest
          return ((name, v) :: more, rest)
        | '}' :: rest => return ([(name, v)], rest)
        | _ => none
      | _ => none
    | _ => none

end

end Parser

def parse? (text : String) : Option Json :=
  let cs := text.toList
  match Parser.value (2 * cs.length + 2) cs with
  | some (v, rest) => if (Parser.skipSpace rest).isEmpty then some v else none
  | none => none

end EmailTemplates.Json
