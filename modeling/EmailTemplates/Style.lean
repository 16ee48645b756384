namespace EmailTemplates

structure Style where
  declarations : List (String × String)
deriving DecidableEq, Repr

namespace Style

def empty : Style :=
  ⟨[]⟩

def prop (s : Style) (name value : String) : Style :=
  ⟨s.declarations ++ [(name, value)]⟩

def text (s : Style) : String :=
  " ".intercalate (s.declarations.map fun (name, value) => name ++ ": " ++ value ++ ";")

end Style

namespace Design

def fontFamily : String :=
  "-apple-system, BlinkMacSystemFont, 'Segoe UI', Roboto, Helvetica, Arial, sans-serif"

def monoFontFamily : String := "'SFMono-Regular', Menlo, Consolas, monospace"

def fontSizeSmall : String := "14px"
def fontSizeBase : String := "16px"
def fontSizeH3 : String := "18px"
def fontSizeH2 : String := "20px"
def fontSizeH1 : String := "24px"
def fontSizeCode : String := "28px"
def fontSizeEmoji : String := "40px"
def lineHeight : String := "1.6"

def spaceXs : String := "4px"
def spaceSm : String := "8px"
def spaceMd : String := "16px"
def spaceLg : String := "24px"
def spaceXl : String := "32px"

def radius : String := "6px"
def radiusLg : String := "8px"

def textColor : String := "#1f2937"
def mutedColor : String := "#6b7280"
def pageBackground : String := "#f3f4f6"
def surface : String := "#ffffff"
def divider : String := "#e5e7eb"
def onPrimary : String := "#ffffff"

def contentWidth : Nat := 600

end Design

namespace Style

open Design

def bodyText : Style :=
  empty.prop "margin" ("0 0 " ++ spaceMd)
    |>.prop "font-family" fontFamily
    |>.prop "font-size" fontSizeBase
    |>.prop "line-height" lineHeight
    |>.prop "color" textColor

def mutedText : Style :=
  empty.prop "margin" "0"
    |>.prop "font-family" fontFamily
    |>.prop "font-size" fontSizeSmall
    |>.prop "line-height" lineHeight
    |>.prop "color" mutedColor

end Style

end EmailTemplates
