import EmailTemplates.Block.Basic
import EmailTemplates.Markup.Element
import EmailTemplates.Text.Blank

namespace EmailTemplates

namespace Fragment

open Design
open Markup (line element container opening fixed authored reference)
open Attribute (style presentation)

def malformed (id field : String) (defect : Defect) : Except MalformedBlock α :=
  .error ⟨id, field, defect⟩

def requireText (id field value : String) : Except MalformedBlock Unit :=
  if Text.isBlankText value then malformed id field .blank else .ok ()

def requireVariable (id field value : String) : Except MalformedBlock String :=
  match Variable.nameOf? value with
  | some name => .ok name
  | none => malformed id field (.notAVariable value)

def greetingMarkup (name : String) : Markup :=
  line (element "p" [style .bodyText] (fixed "Hi " ++ reference name ++ fixed ","))

def greeting (id nameVariable : String) : Except MalformedBlock Markup := do
  let name ← requireVariable id "nameVariable" nameVariable
  return greetingMarkup name

def paragraphMarkup (text : String) : Markup :=
  line (element "p" [style .bodyText] (authored text))

def paragraph (id text : String) : Except MalformedBlock Markup := do
  requireText id "text" text
  return paragraphMarkup text

def infoPanel (palette : Palette) : Style :=
  Style.empty.prop "margin" ("0 0 " ++ spaceLg)
    |>.prop "background-color" palette.light
    |>.prop "border" ("1px solid " ++ palette.border)
    |>.prop "border-left" ("4px solid " ++ palette.primary)
    |>.prop "border-radius" radius

def infoTitle (palette : Palette) : Style :=
  Style.empty.prop "margin" ("0 0 " ++ spaceSm)
    |>.prop "font-family" fontFamily
    |>.prop "font-size" fontSizeBase
    |>.prop "font-weight" "600"
    |>.prop "color" palette.text

def infoCell : Style :=
  Style.empty.prop "padding" (spaceXs ++ " 0")
    |>.prop "font-family" fontFamily
    |>.prop "font-size" fontSizeSmall

def infoLabel : Style :=
  infoCell.prop "color" mutedColor

def infoValue : Style :=
  infoCell.prop "color" textColor
    |>.prop "font-weight" "600"
    |>.prop "text-align" "right"

def infoRow (item : InfoItem) : Markup :=
  container "tr" []
    (line (element "td" [style infoLabel] (authored item.label)) ++
      line (element "td" [style infoValue] (authored item.value)))

def infoBoxMarkup (palette : Palette) (title : Option String) (items : List InfoItem) : Markup :=
  container "table" (presentation ++ [.fixed "width" "100%", style (infoPanel palette)])
    (container "tr" []
      (container "td" [.fixed "style" ("padding: " ++ spaceMd ++ ";")]
        (title.toList.flatMap (fun title =>
            line (element "p" [style (infoTitle palette)] (authored title))) ++
          container "table" (presentation ++ [.fixed "width" "100%"]) (items.flatMap infoRow))))

def infoBox (palette : Palette) (id : String) (title : Option String) (items : List InfoItem) :
    Except MalformedBlock Markup := do
  if items.isEmpty then malformed id "items" .noItems
  items.forM fun item => requireText id "items.label" item.label
  return infoBoxMarkup palette title items

def buttonAnchor (palette : Palette) : Style :=
  Style.empty.prop "display" "inline-block"
    |>.prop "padding" ("14px " ++ spaceXl)
    |>.prop "font-family" fontFamily
    |>.prop "font-size" fontSizeBase
    |>.prop "font-weight" "600"
    |>.prop "color" onPrimary
    |>.prop "text-decoration" "none"
    |>.prop "border" ("1px solid " ++ palette.primaryDark)
    |>.prop "border-radius" radius

def anchor (url : String) (anchorStyle : Style) (text : String) : Markup :=
  element "a" [⟨"href", reference url⟩, .fixed "target" "_blank", style anchorStyle]
    (authored text)

def buttonMarkup (palette : Palette) (label url : String) : Markup :=
  container "table"
    (presentation ++ [.fixed "style" ("margin: " ++ spaceLg ++ " auto;")])
    (container "tr" []
      (container "td"
        [.fixed "align" "center", .fixed "bgcolor" palette.primary,
         .fixed "style" ("border-radius: " ++ radius ++ ";")]
        (line (anchor url (buttonAnchor palette) label))))

def button (palette : Palette) (id label urlVariable : String) :
    Except MalformedBlock Markup := do
  requireText id "label" label
  let url ← requireVariable id "urlVariable" urlVariable
  return buttonMarkup palette label url

def stepListTitle : Style :=
  Style.empty.prop "margin" ("0 0 " ++ spaceMd)
    |>.prop "font-family" fontFamily
    |>.prop "font-size" fontSizeH3
    |>.prop "font-weight" "600"
    |>.prop "color" textColor

def stepBadge (palette : Palette) : Style :=
  Style.empty.prop "width" "28px"
    |>.prop "height" "28px"
    |>.prop "border-radius" "14px"
    |>.prop "background-color" palette.primary
    |>.prop "color" onPrimary
    |>.prop "font-family" fontFamily
    |>.prop "font-size" fontSizeSmall
    |>.prop "font-weight" "700"
    |>.prop "text-align" "center"
    |>.prop "line-height" "28px"

def stepTitle : Style :=
  Style.empty.prop "margin" "0"
    |>.prop "font-family" fontFamily
    |>.prop "font-size" fontSizeBase
    |>.prop "font-weight" "600"
    |>.prop "color" textColor

def stepDescription : Style :=
  Style.mutedText.prop "margin" (spaceXs ++ " 0 0")

def stepRow (palette : Palette) (number : Nat) (step : Step) : Markup :=
  container "tr" []
    (container "td"
        [.fixed "valign" "top", .fixed "width" "40",
         .fixed "style" ("padding: 0 0 " ++ spaceMd ++ ";")]
        (line (element "div" [style (stepBadge palette)] (fixed number.repr))) ++
      container "td" [.fixed "valign" "top", .fixed "style" ("padding: 0 0 " ++ spaceMd ++ ";")]
        (line (element "p" [style stepTitle] (authored step.title)) ++
          if step.description = "" then []
          else line (element "p" [style stepDescription] (authored step.description))))

def stepRows (palette : Palette) (number : Nat) : List Step → Markup
  | [] => []
  | step :: steps => stepRow palette number step ++ stepRows palette (number + 1) steps

def stepListMarkup (palette : Palette) (title : Option String) (steps : List Step) : Markup :=
  title.toList.flatMap (fun title =>
      line (element "p" [style stepListTitle] (authored title))) ++
    container "table"
      (presentation ++ [.fixed "width" "100%", .fixed "style" ("margin: 0 0 " ++ spaceLg ++ ";")])
      (stepRows palette 1 steps)

def stepList (palette : Palette) (id : String) (title : Option String) (steps : List Step) :
    Except MalformedBlock Markup := do
  if steps.isEmpty then malformed id "steps" .noSteps
  steps.forM fun step => requireText id "steps.title" step.title
  return stepListMarkup palette title steps

def codePanel (palette : Palette) : Style :=
  Style.empty.prop "margin" ("0 0 " ++ spaceLg)
    |>.prop "background-color" palette.light
    |>.prop "border" ("1px dashed " ++ palette.border)
    |>.prop "border-radius" radius

def codeText (palette : Palette) : Style :=
  Style.empty.prop "margin" "0"
    |>.prop "font-family" monoFontFamily
    |>.prop "font-size" fontSizeCode
    |>.prop "font-weight" "700"
    |>.prop "letter-spacing" "4px"
    |>.prop "color" palette.text

def codeLabel : Style :=
  Style.mutedText.prop "margin" ("0 0 " ++ spaceSm)

def codeMarkup (palette : Palette) (value : String) (label : Option String) : Markup :=
  container "table" (presentation ++ [.fixed "width" "100%", style (codePanel palette)])
    (container "tr" []
      (container "td"
        [.fixed "align" "center", .fixed "style" ("padding: " ++ spaceLg ++ ";")]
        (label.toList.flatMap (fun label =>
            line (element "p" [style codeLabel] (authored label))) ++
          line (element "p" [style (codeText palette)] (authored value)))))

def code (palette : Palette) (id value : String) (label : Option String) :
    Except MalformedBlock Markup := do
  requireText id "code" value
  return codeMarkup palette value label

def imageStyle : Style :=
  Style.empty.prop "display" "block"
    |>.prop "max-width" "100%"
    |>.prop "height" "auto"
    |>.prop "border" "0"
    |>.prop "margin" ("0 auto " ++ spaceMd)

def isWidth (width : UInt32) : Bool :=
  0 < width.toNat && width.toNat ≤ contentWidth

def imageMarkup (contentId alt : String) (width : Option UInt32) : Markup :=
  line (opening "img"
    ([.fixed "src" ("cid:" ++ Text.escaped contentId), ⟨"alt", .escaped alt⟩] ++
      width.toList.map (fun width => .fixed "width" width.toNat.repr) ++
      [style imageStyle]))

def image (id contentId alt : String) (width : Option UInt32) : Except MalformedBlock Markup := do
  requireText id "contentId" contentId
  if !Block.isContentId contentId then malformed id "contentId" .notAContentId
  if !width.all isWidth then malformed id "width" (.widthOutOfRange contentWidth)
  return imageMarkup contentId alt width

def dividerStyle : Style :=
  Style.empty.prop "border" "none"
    |>.prop "border-top" ("1px solid " ++ Design.divider)
    |>.prop "margin" (spaceLg ++ " 0")

def divider : Markup :=
  line (opening "hr" [style dividerStyle])

def spacerStyle (height : UInt32) : Style :=
  Style.empty.prop "height" (height.toNat.repr ++ "px")
    |>.prop "line-height" (height.toNat.repr ++ "px")
    |>.prop "font-size" "1px"

def spacerMarkup (height : UInt32) : Markup :=
  line (element "div" [style (spacerStyle height)] (fixed "&nbsp;"))

def spacer (id : String) (height : UInt32) : Except MalformedBlock Markup := do
  if height = 0 then malformed id "height" .noHeight
  return spacerMarkup height

def headingSize? (level : UInt8) : Option String :=
  match level.toNat with
  | 1 => some fontSizeH1
  | 2 => some fontSizeH2
  | 3 => some fontSizeH3
  | _ => none

def headingStyle (size : String) : Style :=
  Style.empty.prop "margin" ("0 0 " ++ spaceMd)
    |>.prop "font-family" fontFamily
    |>.prop "font-size" size
    |>.prop "font-weight" "600"
    |>.prop "line-height" "1.3"
    |>.prop "color" textColor

def headingMarkup (text : String) (level : UInt8) (size : String) : Markup :=
  line (element ("h" ++ level.toNat.repr) [style (headingStyle size)] (authored text))

def heading (id text : String) (level : UInt8) : Except MalformedBlock Markup := do
  requireText id "text" text
  match headingSize? level with
  | some size => return headingMarkup text level size
  | none => malformed id "level" .levelOutOfRange

def listStyle : Style :=
  Style.empty.prop "margin" ("0 0 " ++ spaceMd)
    |>.prop "padding-left" spaceLg
    |>.prop "font-family" fontFamily
    |>.prop "font-size" fontSizeBase
    |>.prop "line-height" lineHeight
    |>.prop "color" textColor

def listItemStyle : Style :=
  Style.empty.prop "margin" ("0 0 " ++ spaceXs)

def listMarkup (items : List String) (ordered : Bool) : Markup :=
  container (if ordered then "ol" else "ul") [style listStyle]
    (items.flatMap fun item => line (element "li" [style listItemStyle] (authored item)))

def list (id : String) (items : List String) (ordered : Bool) : Except MalformedBlock Markup := do
  if items.isEmpty then malformed id "items" .noItems
  return listMarkup items ordered

def linkStyle (palette : Palette) : Style :=
  Style.empty.prop "color" palette.primary
    |>.prop "text-decoration" "underline"

def linkMarkup (palette : Palette) (text url : String) : Markup :=
  line (element "p" [style .bodyText] (anchor url (linkStyle palette) text))

def link (palette : Palette) (id text urlVariable : String) : Except MalformedBlock Markup := do
  requireText id "text" text
  let url ← requireVariable id "urlVariable" urlVariable
  return linkMarkup palette text url

def customHtml (html : String) : Markup :=
  authored html ++ if html.toList.getLast? = some '\n' then [] else fixed "\n"

end Fragment

def Block.fragment (scheme : ColorScheme) (b : Block) : Except MalformedBlock Markup :=
  match b.content with
  | .greeting nameVariable => Fragment.greeting b.id nameVariable
  | .paragraph text => Fragment.paragraph b.id text
  | .infoBox title items own => Fragment.infoBox (own.getD scheme).palette b.id title items
  | .button label urlVariable own =>
    Fragment.button (own.getD scheme).palette b.id label urlVariable
  | .stepList title steps => Fragment.stepList scheme.palette b.id title steps
  | .code value label => Fragment.code scheme.palette b.id value label
  | .image contentId alt width => Fragment.image b.id contentId alt width
  | .divider => .ok Fragment.divider
  | .spacer height => Fragment.spacer b.id height
  | .heading text level => Fragment.heading b.id text level
  | .list items ordered => Fragment.list b.id items ordered
  | .link text urlVariable own => Fragment.link (own.getD scheme).palette b.id text urlVariable
  | .customHtml html => .ok (Fragment.customHtml html)

end EmailTemplates
