import EmailTemplates.Markup.Element
import EmailTemplates.Template.Basic

namespace EmailTemplates

structure Company where
  name : String
  address : Option String
  supportEmail : Option String
  footerNote : Option String
deriving DecidableEq, Repr

def Company.unnamed : Company :=
  ⟨"Your Company", none, none, none⟩

inductive Envelope where
  | full
  | bare
deriving DecidableEq, Repr

namespace Envelope

open Design
open Markup (line element container opening fixed)
open Attribute (style presentation)

structure Parts where
  subject : Markup
  preheader : Option Markup
  emoji : Option Markup
  title : Markup
  subtitle : Option Markup
  content : Markup
  footer : FooterKind
  note : Option Markup
  palette : Palette
  preview : Bool
  company : Company

def head (p : Parts) : Markup :=
  container "head" []
    (line (opening "meta" [.fixed "charset" "utf-8"]) ++
      line (opening "meta" [.fixed "name" "viewport",
        .fixed "content" "width=device-width, initial-scale=1.0"]) ++
      line (opening "meta" [.fixed "name" "x-apple-disable-message-reformatting"]) ++
      line (element "title" [] p.subject))

def bodyStyle : Style :=
  Style.empty.prop "margin" "0"
    |>.prop "padding" "0"
    |>.prop "background-color" pageBackground

def preheaderStyle : Style :=
  Style.empty.prop "display" "none"
    |>.prop "max-height" "0"
    |>.prop "overflow" "hidden"
    |>.prop "mso-hide" "all"

def cardStyle : Style :=
  Style.empty.prop "width" "100%"
    |>.prop "max-width" (contentWidth.repr ++ "px")
    |>.prop "background-color" surface
    |>.prop "border-radius" radiusLg

def bannerStyle : Style :=
  Style.empty.prop "background-color" "#fef3c7"
    |>.prop "color" "#92400e"
    |>.prop "padding" spaceSm
    |>.prop "text-align" "center"
    |>.prop "font-family" fontFamily
    |>.prop "font-size" "12px"
    |>.prop "font-weight" "600"
    |>.prop "letter-spacing" "0.05em"
    |>.prop "text-transform" "uppercase"

def banner (p : Parts) : Markup :=
  if p.preview then
    container "tr" [] (line (element "td" [style bannerStyle] (fixed "Preview")))
  else []

def bandStyle (p : Parts) : Style :=
  Style.empty.prop "background-color" p.palette.primary
    |>.prop "padding" spaceXl
    |>.prop "text-align" "center"
    |>.prop "border-radius"
      (if p.preview then "0" else radiusLg ++ " " ++ radiusLg ++ " 0 0")

def emojiStyle : Style :=
  Style.empty.prop "margin" ("0 0 " ++ spaceSm)
    |>.prop "font-size" fontSizeEmoji
    |>.prop "line-height" "1"

def titleStyle : Style :=
  Style.empty.prop "margin" "0"
    |>.prop "font-family" fontFamily
    |>.prop "font-size" fontSizeH1
    |>.prop "font-weight" "700"
    |>.prop "line-height" "1.3"
    |>.prop "color" onPrimary

def subtitleStyle : Style :=
  Style.empty.prop "margin" (spaceSm ++ " 0 0")
    |>.prop "font-family" fontFamily
    |>.prop "font-size" fontSizeBase
    |>.prop "line-height" lineHeight
    |>.prop "color" onPrimary
    |>.prop "opacity" "0.9"

def header (p : Parts) : Markup :=
  container "tr" []
    (container "td" [style (bandStyle p)]
      (p.emoji.toList.flatMap (fun emoji => line (element "div" [style emojiStyle] emoji)) ++
        line (element "h1" [style titleStyle] p.title) ++
        p.subtitle.toList.flatMap fun subtitle =>
          line (element "p" [style subtitleStyle] subtitle)))

def content (p : Parts) : Markup :=
  container "tr" []
    (container "td" [.fixed "style" ("padding: " ++ spaceXl ++ ";")] p.content)

def footerStyle : Style :=
  Style.empty.prop "padding" (spaceLg ++ " " ++ spaceXl)
    |>.prop "border-top" ("1px solid " ++ divider)
    |>.prop "text-align" "center"

def noteStyle : Style :=
  Style.mutedText.prop "margin" ("0 0 " ++ spaceSm)

def footerLine (s : Style) (content : Markup) : Markup :=
  line (element "p" [style s] content)

def supportLine (palette : Palette) (address : String) : Markup :=
  footerLine .mutedText
    (fixed "Questions? Contact " ++
      element "a" [.fixed "href" ("mailto:" ++ address),
        .fixed "style" ("color: " ++ palette.primary ++ ";")] (fixed address))

def footer (p : Parts) : Markup :=
  let name := footerLine .mutedText (fixed (Text.escaped p.company.name))
  let cell (lines : Markup) : Markup :=
    container "tr" [] (container "td" [style footerStyle] lines)
  match p.footer with
  | .none => []
  | .minimal => cell name
  | .standard =>
    cell (p.note.toList.flatMap (footerLine noteStyle) ++ name ++
      p.company.address.toList.flatMap (fun address =>
        footerLine .mutedText (fixed (Text.escaped address))) ++
      p.company.supportEmail.toList.flatMap fun address =>
        supportLine p.palette (Text.escaped address))

def document (p : Parts) : Markup :=
  line (fixed "<!DOCTYPE html>") ++
    container "html" [.fixed "lang" "en"]
      (head p ++
        container "body" [style bodyStyle]
          (p.preheader.toList.flatMap (fun preheader =>
              line (element "div" [style preheaderStyle] preheader)) ++
            container "table"
              (presentation ++ [.fixed "width" "100%",
                .fixed "style" ("background-color: " ++ pageBackground ++ ";")])
              (container "tr" []
                (container "td"
                  [.fixed "align" "center",
                   .fixed "style" ("padding: " ++ spaceLg ++ " " ++ spaceSm ++ ";")]
                  (container "table"
                    (presentation ++ [.fixed "width" contentWidth.repr, style cardStyle])
                    (banner p ++ header p ++ content p ++ footer p))))))

def wrap : Envelope → Parts → Markup
  | .full, p => document p
  | .bare, p => p.content

end Envelope

end EmailTemplates
