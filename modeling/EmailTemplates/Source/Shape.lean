import EmailTemplates.Block.Basic
import EmailTemplates.Source.Tag
import EmailTemplates.Style
import EmailTemplates.Text.Blank
import EmailTemplates.Text.Entity
import EmailTemplates.Variable.Token

namespace EmailTemplates.Source

open EmailTemplates.Text (Slice trim isBlank)

namespace Shape

def beforeLastClosing : List Char → Option (List Char)
  | [] => none
  | c :: cs =>
    match beforeLastClosing cs with
    | some inner => some (c :: inner)
    | none => if c = '<' ∧ cs.head? = some '/' then some [] else none

def inner? (markup : List Char) : Option (List Char) :=
  match markup.dropWhile (· != '>') with
  | [] => none
  | _ :: rest => beforeLastClosing rest

def openingTag (markup : List Char) : List Char :=
  markup.takeWhile (· != '>') ++ (markup.dropWhile (· != '>')).take 1

def dropPrefix? (text : String) (cs : List Char) : Option (List Char) :=
  if text.toList.isPrefixOf cs then some (cs.drop text.toList.length) else none

def dropSuffix? (text : String) (cs : List Char) : Option (List Char) :=
  if text.toList.isSuffixOf cs then some (cs.take (cs.length - text.toList.length)) else none

def tokenOnly? (cs : List Char) : Option (List Char) :=
  match Token.read? cs with
  | some (name, []) => some name
  | _ => none

def greeting? (inner : List Char) : Option (List Char) := do
  let rest ← ["Hi", "Hello", "Hey", "Dear"].findSome? fun word => dropPrefix? word inner
  if !rest.head?.any isBlank then none
  let (name, rest) ← Token.read? (rest.dropWhile isBlank)
  if rest.all isBlank || rest.dropWhile isBlank == [','] || rest.dropWhile isBlank == ['!'] then
    return name
  none

def openingOf (tag : String) : Slice.Reader Slice := fun s => do
  let s ← s.expectText ("<" ++ tag)
  if !Tag.endsName s then none
  Tag.upToAngle s

def elementOf (tag : String) : Slice.Reader (Slice × Slice) := fun s => do
  let (attributes, s) ← openingOf tag s
  let (content, rest) ← s.splitAt? ("</" ++ tag ++ ">")
  return ((attributes, content), rest)

def urlVariable? (attributes : List Char) : Option (List Char) := do
  tokenOnly? (trim (← Attribute.value? "href" attributes))

def isHexDigit (c : Char) : Bool :=
  c.isDigit || ('a' ≤ c && c ≤ 'f') || ('A' ≤ c && c ≤ 'F')

def hexColor? (cs : List Char) : Option (List Char) := do
  let rest := (← dropPrefix? "color:" cs).dropWhile isBlank
  match rest with
  | '#' :: digits =>
    if 6 ≤ (digits.takeWhile isHexDigit).length then some ('#' :: digits.take 6) else none
  | _ => none

def styleColor? (style : List Char) : Option (List Char) :=
  hexColor? style <|> go style
where
  go : List Char → Option (List Char)
    | [] => none
    | c :: cs => (if c == ';' || isBlank c then hexColor? cs else none) <|> go cs

def schemeOfColor? (color : List Char) : Option ColorScheme :=
  ColorScheme.all.find? fun scheme =>
    scheme.palette.primary.toList.map Char.toLower == color.map Char.toLower

def natOfDigits? (cs : List Char) : Option UInt32 :=
  if !cs.isEmpty && cs.all Char.isDigit then
    let n := cs.foldl (fun n d => 10 * n + (d.toNat - '0'.toNat)) 0
    if n < UInt32.size then some (.ofNat n) else none
  else none

def pixels? (cs : List Char) : Option (List Char) := do
  let rest := (← dropPrefix? "height:" cs).dropWhile isBlank
  match rest.takeWhile Text.isDigit with
  | [] => none
  | digits => (dropPrefix? "px" (rest.dropWhile Text.isDigit)).map fun _ => digits

def heightDigits? : List Char → Option (List Char)
  | [] => none
  | c :: cs => pixels? (c :: cs) <|> heightDigits? cs

def anchorOnly? (inner : List Char) : Option (List Char × List Char) := do
  let (attributes, rest) ← openingOf "a" ⟨0, inner⟩
  return (attributes.chars, ← dropSuffix? "</a>" rest.chars)

def own (scheme : ColorScheme) (color : Option (List Char)) : Option ColorScheme :=
  (color.bind schemeOfColor?).filter (· ≠ scheme)

def link? (scheme : ColorScheme) (inner : List Char) : Option Block.Content := do
  let (attributes, content) ← anchorOnly? inner
  let url ← urlVariable? attributes
  let text := trim content
  if text.isEmpty then none
  return .link (.ofList text) (.ofList url)
    (own scheme ((Attribute.value? "style" attributes).bind styleColor?))

def paragraph? (scheme : ColorScheme) (markup : List Char) : Option Block.Content := do
  let inner := trim (← inner? markup)
  match greeting? inner with
  | some name => return .greeting (.ofList (Token.chars name))
  | none =>
    match link? scheme inner with
    | some content => return content
    | none => if inner.isEmpty then none else return .paragraph (.ofList inner)

def heading? (level : UInt8) (markup : List Char) : Option Block.Content := do
  let text := trim (← inner? markup)
  if text.isEmpty then none
  return .heading (.ofList text) level

def spacer? (markup : List Char) : Option Block.Content := do
  let inner := trim (← inner? markup)
  if inner ≠ "&nbsp;".toList ∧ inner ≠ [] then none
  let style ← Attribute.value? "style" (openingTag markup)
  let height ← natOfDigits? (← heightDigits? style)
  if height = 0 then none
  return .spacer height

/-- A width may carry a plus sign; one that no image can have is passed over. -/
def width? (cs : List Char) : Option UInt32 :=
  (natOfDigits? (match cs with
    | '+' :: digits => digits
    | digits => digits)).filter fun w => 0 < w.toNat && w.toNat ≤ Design.contentWidth

def image? (markup : List Char) : Option Block.Content := do
  let tag := openingTag markup
  let contentId ← dropPrefix? "cid:" (← Attribute.value? "src" tag)
  if !Block.isContentId (.ofList contentId) then none
  return .image (.ofList contentId)
    (.ofList (Text.unescape ((Attribute.value? "alt" tag).getD [])))
    ((Attribute.value? "width" tag).bind width?)

def list? (ordered : Bool) (markup : List Char) : Option Block.Content :=
  let items := (Slice.findAll (elementOf "li") ⟨0, markup⟩).map fun (_, item) => trim item.chars
  match items.filter (!·.isEmpty) with
  | [] => none
  | items => some (.list (items.map String.ofList) ordered)

def withoutTags (cs : List Char) : List Char :=
  match cs with
  | [] => []
  | c :: cs =>
    let inside := cs.takeWhile (· != '>')
    let rest := cs.dropWhile (· != '>')
    if c = '<' ∧ inside ≠ [] ∧ rest ≠ [] then withoutTags (rest.drop 1)
    else c :: withoutTags cs
termination_by cs.length
decreasing_by
  · have := (List.dropWhile_suffix (· != '>') (l := cs)).length_le
    simp; omega
  · simp

def withoutSpaces : List Char → List Char
  | '&' :: 'n' :: 'b' :: 's' :: 'p' :: ';' :: cs => withoutSpaces cs
  | c :: cs => c :: withoutSpaces cs
  | [] => []

def button? (scheme : ColorScheme) (markup : List Char) : Option Block.Content := do
  let whole : Slice := ⟨0, markup⟩
  let (start, (attributes, content), rest) ← whole.find (elementOf "a")
  if (rest.find (elementOf "a")).isSome then none
  let others := (whole.before start).chars ++ rest.chars
  if !(withoutSpaces (withoutTags others)).all isBlank then none
  let url ← urlVariable? attributes.chars
  let label := trim content.chars
  if label.isEmpty then none
  return .button (.ofList label) (.ofList url) (own scheme (Attribute.value? "bgcolor" markup))

end Shape

def recognize (scheme : ColorScheme) (tag : String) (markup : List Char) : Option Block.Content :=
  match tag with
  | "p" => Shape.paragraph? scheme markup
  | "h1" => Shape.heading? 1 markup
  | "h2" => Shape.heading? 2 markup
  | "h3" => Shape.heading? 3 markup
  | "hr" => some .divider
  | "div" => Shape.spacer? markup
  | "img" => Shape.image? markup
  | "ul" => Shape.list? false markup
  | "ol" => Shape.list? true markup
  | "table" => Shape.button? scheme markup
  | _ => none

end EmailTemplates.Source
