import EmailTemplates.Proofs.Source.Shape

namespace EmailTemplates.Source.Shape

open EmailTemplates.Text (Slice byteLength trim isBlank)
open Segment (IsTag)
open Markup (text element opening fixed reference authored tagOf)

theorem isTag_a : IsTag "a" := ⟨by decide, by decide⟩

def anchorAttributes (url : String) (s : Style) : List Attribute :=
  [⟨"href", .reference url⟩, .fixed "target" "_blank", .style s]

theorem writable_anchorAttributes {url : String} {s : Style}
    (hu : Variable.isValidName url = true) (hs : s.Plain) :
    ∀ a ∈ anchorAttributes url s, a.Writable := by
  simp only [anchorAttributes, List.forall_mem_cons, List.not_mem_nil, IsEmpty.forall_iff,
    implies_true, and_true]
  refine ⟨Attribute.writable_href hu, ?_, Attribute.writable_style hs⟩
  exact Attribute.writable_fixed (by decide) (by decide) (Text.plain_ofList _ (by decide))

theorem value?_tagOf {name : String} {attributes : List Attribute} {a : Attribute}
    (ha : ∀ a ∈ attributes, a.Writable) (hf : attributes.find? (isNamed name) = some a) :
    Source.Attribute.value? name (tagOf attributes) = some a.value.text := by
  obtain ⟨m, hm⟩ := Attribute.pairs_written (Attribute.isWritable_pairs ha) 0 []
  have hpair : (attributes.map Attribute.pair).find? (fun p => p.1.map Char.toLower == name.toList) =
      some a.pair := by
    rw [List.find?_map]
    exact congrArg (Option.map _) hf
  rw [List.append_nil] at hm
  exact Attribute.value?_of_pairs hm hpair

theorem trim_chars {name : List Char} (h : Token.isName name = true) :
    trim (Token.chars name) = Token.chars name := by
  refine Text.trim_of_not_blank fun c hc => ?_
  by_contra hb
  refine Token.not_mem_chars_of_breaks h ?_ hc
  have hname : Text.isNameChar c = false := by
    by_contra hn
    exact hb (Text.isBlank_of_isNameChar (by simpa using hn))
  have hopen : c ≠ '{' := by
    rintro rfl
    exact hb (by decide)
  have hclose : c ≠ '}' := by
    rintro rfl
    exact hb (by decide)
  simp [Token.breaks, hname, hopen, hclose]

theorem urlVariable?_anchor {url : String} {s : Style} (hu : Variable.isValidName url = true)
    (hs : s.Plain) : urlVariable? (tagOf (anchorAttributes url s)) = some url.toList := by
  have hhref := @value?_tagOf "href" _ ⟨"href", .reference url⟩
    (writable_anchorAttributes hu hs) (by simp [anchorAttributes, isNamed])
  have htext : text (reference url) = Token.chars url.toList := by
    rw [reference, Markup.text_reference, Markup.text_nil, List.append_nil]
  have hread := Token.read?_chars hu []
  rw [List.append_nil] at hread
  rw [urlVariable?, hhref]
  simp only [Option.bind_eq_bind, Option.bind_some, htext, trim_chars hu]
  rw [tokenOnly?, hread]

theorem hexColor?_append {digits : List Char} (hl : digits.length = 6)
    (hd : ∀ c ∈ digits, isHexDigit c = true) (rest : List Char) :
    hexColor? ("color:".toList ++ ' ' :: '#' :: (digits ++ rest)) = some ('#' :: digits) := by
  have hb : isBlank ' ' = true := by decide
  have hh : isBlank '#' = false := by decide
  have htake : (digits ++ rest).take 6 = digits := by rw [← hl, List.take_left]
  have hlen : 6 ≤ ((digits ++ rest).takeWhile isHexDigit).length := by
    rw [List.takeWhile_append_of_pos hd, List.length_append]
    omega
  rw [hexColor?, dropPrefix?_append]
  simp only [Option.bind_eq_bind, Option.bind_some, List.dropWhile_cons, hb, hh, if_true,
    Bool.false_eq_true, if_false, htake, hlen]

theorem primary_eq (scheme : ColorScheme) :
    ∃ digits, scheme.palette.primary.toList = '#' :: digits ∧ digits.length = 6 ∧
      ∀ c ∈ digits, isHexDigit c = true := by
  cases scheme
  · exact ⟨['2', '5', '6', '3', 'e', 'b'], rfl, rfl, by decide⟩
  · exact ⟨['1', '6', 'a', '3', '4', 'a'], rfl, rfl, by decide⟩
  · exact ⟨['e', 'a', '5', '8', '0', 'c'], rfl, rfl, by decide⟩
  · exact ⟨['d', 'c', '2', '6', '2', '6'], rfl, rfl, by decide⟩
  · exact ⟨['9', '3', '3', '3', 'e', 'a'], rfl, rfl, by decide⟩
  · exact ⟨['4', 'b', '5', '5', '6', '3'], rfl, rfl, by decide⟩

theorem styleColor?_linkStyle (scheme : ColorScheme) :
    styleColor? (Fragment.linkStyle scheme.palette).text.toList =
      some scheme.palette.primary.toList := by
  obtain ⟨digits, hprimary, hl, hd⟩ := primary_eq scheme
  obtain ⟨rest, hrest⟩ := toList_text_cons "color" scheme.palette.primary
    [("text-decoration", "underline")]
  have hcolon : ("color:" : String).toList = ("color" : String).toList ++ [':'] := rfl
  have hstyle : (Fragment.linkStyle scheme.palette).text.toList =
      "color:".toList ++ ' ' :: '#' :: (digits ++ ';' :: rest) := by
    refine hrest.trans ?_
    simp [hprimary, hcolon]
  rw [styleColor?, hstyle, hexColor?_append hl hd, hprimary]
  rfl

theorem schemeOfColor?_primary (scheme : ColorScheme) :
    schemeOfColor? scheme.palette.primary.toList = some scheme := by
  cases scheme <;> decide

theorem own_primary (scheme drawn : ColorScheme) :
    own scheme (some drawn.palette.primary.toList) = (some drawn).filter (· ≠ scheme) := by
  rw [own, Option.bind_some, schemeOfColor?_primary]

theorem text_anchor (url s : String) (anchorStyle : Style) :
    text (Fragment.anchor url anchorStyle s) =
      Tag.written false "a".toList (tagOf (anchorAttributes url anchorStyle)) ++
        (s.toList ++ "</a>".toList) := by
  have hclose : ("</a>" : String).toList = Tag.written true "a".toList [] := rfl
  rw [Fragment.anchor, Markup.text_element, text_authored, hclose]
  rfl

theorem anchorOnly?_anchor {url : String} {anchorStyle : Style}
    (hu : Variable.isValidName url = true) (hs : anchorStyle.Plain) (s : String) :
    anchorOnly? (text (Fragment.anchor url anchorStyle s)) =
      some (tagOf (anchorAttributes url anchorStyle), s.toList) := by
  have hin := Attribute.isInside_tagOf (writable_anchorAttributes hu hs)
  obtain ⟨k, m, hopening⟩ := @openingOf_written "a" _ hin 0 (s.toList ++ "</a>".toList)
  rw [anchorOnly?, text_anchor, hopening]
  simp only [Option.bind_eq_bind, Option.bind_some, dropSuffix?_append]
  rfl

theorem link?_anchor {s url : String} (h : Text.isBlankText s = false)
    (hu : Variable.isValidName url = true) (scheme drawn : ColorScheme) :
    link? scheme (text (Fragment.anchor url (Fragment.linkStyle drawn.palette) s)) =
      some (.link (Text.trimmed s) url ((some drawn).filter (· ≠ scheme))) := by
  have hs := Fragment.plain_linkStyle drawn.plain_palette
  have hne : (trim s.toList).isEmpty = false := by rwa [← Text.isBlankText_eq_isEmpty_trim]
  have hstyle := @value?_tagOf "style" _ (.style (Fragment.linkStyle drawn.palette))
    (writable_anchorAttributes hu hs)
    (by simp [anchorAttributes, isNamed, Attribute.style, Attribute.fixed])
  have hvalue : (Attribute.style (Fragment.linkStyle drawn.palette)).value.text =
      (Fragment.linkStyle drawn.palette).text.toList := Markup.text_fixed _
  rw [link?, anchorOnly?_anchor hu hs]
  simp only [Option.bind_eq_bind, Option.bind_some, urlVariable?_anchor hu hs,
    hne, Bool.false_eq_true, if_false, hstyle, hvalue, styleColor?_linkStyle, own_primary,
    String.ofList_toList]
  rfl

theorem trim_anchor (url s : String) (anchorStyle : Style) :
    trim (text (Fragment.anchor url anchorStyle s)) = text (Fragment.anchor url anchorStyle s) := by
  have hclose : ("</a>" : String).toList = ['<', '/', 'a'] ++ ['>'] := rfl
  have hchars : text (Fragment.anchor url anchorStyle s) =
      '<' :: ("a".toList ++ (tagOf (anchorAttributes url anchorStyle) ++
        '>' :: (s.toList ++ ['<', '/', 'a'])) ++ ['>']) := by
    rw [text_anchor, hclose]
    simp [Tag.written]
  rw [hchars]
  exact Text.trim_of_ends (by decide) (by decide) _

theorem greeting?_eq_none_of_head {c : Char} (hc : c ≠ 'H' ∧ c ≠ 'D') (cs : List Char) :
    greeting? (c :: cs) = none := by
  have hword : ∀ word ∈ ["Hi", "Hello", "Hey", "Dear"], dropPrefix? word (c :: cs) = none := by
    intro word hword
    rw [dropPrefix?, if_neg]
    rw [List.isPrefixOf_iff_prefix]
    rintro ⟨tail, htail⟩
    have hhead := congrArg List.head? htail
    simp only [List.mem_cons, List.not_mem_nil, or_false] at hword
    rcases hword with rfl | rfl | rfl | rfl
    · exact hc.1 (Option.some.inj hhead).symm
    · exact hc.1 (Option.some.inj hhead).symm
    · exact hc.1 (Option.some.inj hhead).symm
    · exact hc.2 (Option.some.inj hhead).symm
  rw [greeting?, List.findSome?_eq_none_iff.mpr hword]
  rfl

theorem recognize_link {s url : String} (h : Text.isBlankText s = false)
    (hu : Variable.isValidName url = true) (scheme drawn : ColorScheme) :
    recognize scheme "p" (text (element "p" [Attribute.style .bodyText]
      (Fragment.anchor url (Fragment.linkStyle drawn.palette) s))) =
      some (.link (Text.trimmed s) url ((some drawn).filter (· ≠ scheme))) := by
  have ha : ∀ a ∈ [Attribute.style .bodyText], a.Writable :=
    List.forall_mem_singleton.mpr (Attribute.writable_style Style.plain_bodyText)
  have hgreeting : greeting? (text (Fragment.anchor url (Fragment.linkStyle drawn.palette) s)) =
      none := by
    rw [text_anchor]
    exact greeting?_eq_none_of_head (by decide) _
  change paragraph? scheme _ = _
  rw [paragraph?, inner?_element isTag_p ha]
  simp only [Option.bind_eq_bind, Option.bind_some, trim_anchor, hgreeting, link?_anchor h hu]
  rfl

end EmailTemplates.Source.Shape
