import EmailTemplates.Markup.Basic
import EmailTemplates.Style

namespace EmailTemplates

structure Attribute where
  name : String
  value : Markup
deriving DecidableEq, Repr

namespace Attribute

def fixed (name value : String) : Attribute :=
  ⟨name, .fixed value⟩

def style (s : Style) : Attribute :=
  fixed "style" s.text

def presentation : List Attribute :=
  [fixed "role" "presentation", fixed "cellpadding" "0", fixed "cellspacing" "0",
   fixed "border" "0"]

def markup (a : Attribute) : Markup :=
  .fixed (" " ++ a.name ++ "=\"") ++ a.value ++ .fixed "\""

end Attribute

namespace Markup

def line (m : Markup) : Markup :=
  m ++ fixed "\n"

def opening (tag : String) (attributes : List Attribute) : Markup :=
  fixed ("<" ++ tag) ++ attributes.flatMap Attribute.markup ++ fixed ">"

def closing (tag : String) : Markup :=
  fixed ("</" ++ tag ++ ">")

def element (tag : String) (attributes : List Attribute) (content : Markup) : Markup :=
  opening tag attributes ++ content ++ closing tag

def container (tag : String) (attributes : List Attribute) (lines : Markup) : Markup :=
  line (opening tag attributes) ++ lines ++ line (closing tag)

end Markup

end EmailTemplates
