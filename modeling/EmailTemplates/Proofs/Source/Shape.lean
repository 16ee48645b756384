import EmailTemplates.Proofs.Source.Encoded

namespace EmailTemplates.Source.Shape

open EmailTemplates.Text (Slice trim isBlank)
open Segment (IsTag)
open Markup (text element opening fixed reference authored)

theorem dropPrefix?_append (w : String) (rest : List Char) :
    dropPrefix? w (w.toList ++ rest) = some rest := by
  rw [dropPrefix?, if_pos (by simp), List.drop_left]

theorem dropSuffix?_append (w : String) (cs : List Char) :
    dropSuffix? w (cs ++ w.toList) = some cs := by
  have htake : (cs ++ w.toList).take ((cs ++ w.toList).length - w.toList.length) = cs := by
    rw [List.length_append, Nat.add_sub_cancel, List.take_left]
  rw [dropSuffix?, if_pos (by simp), htake]

theorem isTag_p : IsTag "p" := ⟨by decide, by decide⟩
theorem isTag_h (level : UInt8) (size : String) (h : Fragment.headingSize? level = some size) :
    IsTag ("h" ++ level.toNat.repr) := by
  unfold Fragment.headingSize? at h
  split at h
  · rename_i hl
    rw [hl]
    exact ⟨by decide, by decide⟩
  · rename_i hl
    rw [hl]
    exact ⟨by decide, by decide⟩
  · rename_i hl
    rw [hl]
    exact ⟨by decide, by decide⟩
  · cases h

theorem inner?_element {tag : String} {attributes : List Attribute} (ht : IsTag tag)
    (ha : ∀ a ∈ attributes, a.Writable) (content : Markup) :
    inner? (text (element tag attributes content)) = some content.text := by
  rw [Markup.text_element]
  exact inner?_written ht.isAlphanum (Attribute.isInside_tagOf ha).noAngle _

theorem openingTag_element {tag : String} {attributes : List Attribute} (ht : IsTag tag)
    (ha : ∀ a ∈ attributes, a.Writable) (content : Markup) :
    openingTag (text (element tag attributes content)) = text (opening tag attributes) := by
  rw [Markup.text_element, Markup.text_opening]
  exact openingTag_written ht.isAlphanum (Attribute.isInside_tagOf ha).noAngle _

def isNamed (name : String) (a : Attribute) : Bool :=
  a.name.toList.map Char.toLower == name.toList

theorem value?_opening {name tag : String} {attributes : List Attribute} {a : Attribute}
    (ht : IsTag tag) (ha : ∀ a ∈ attributes, a.Writable)
    (hf : attributes.find? (isNamed name) = some a) (rest : List Char) :
    Source.Attribute.value? name (text (opening tag attributes) ++ rest) = some a.value.text := by
  have hpair : (attributes.map Attribute.pair).find? (fun p => p.1.map Char.toLower == name.toList) =
      some a.pair := by
    rw [List.find?_map]
    exact congrArg (Option.map _) hf
  rw [Markup.text_opening]
  exact Attribute.value?_tag ht.isAlphanum (Attribute.isWritable_pairs ha) hpair rest

theorem value?_opening_eq_none {name tag : String} {attributes : List Attribute} (ht : IsTag tag)
    (ha : ∀ a ∈ attributes, a.Writable) (hf : attributes.find? (isNamed name) = none) :
    Source.Attribute.value? name (text (opening tag attributes)) = none := by
  obtain ⟨m, hm⟩ := Attribute.pairs_tag ht.isAlphanum (Attribute.isWritable_pairs ha) 0 []
  have hnil : Attribute.pairs ⟨m, []⟩ = [] :=
    congrArg (List.map _)
      (@Slice.findAll_eq_nil _ Attribute.read [] trivial m fun _ => rfl)
  rw [List.append_nil, hnil, List.append_nil] at hm
  have hpair : (attributes.map Attribute.pair).find? (fun p => p.1.map Char.toLower == name.toList) =
      none := by
    rw [List.find?_map]
    exact congrArg (Option.map _) hf
  rw [Markup.text_opening, Attribute.value?_eq, Markup.tagOf, hm, hpair]
  rfl

theorem text_greeting (name : String) :
    text (fixed "Hi " ++ reference name ++ fixed ",") =
      "Hi".toList ++ ' ' :: (Token.chars name.toList ++ [',']) := by
  have hhi : "Hi ".toList = "Hi".toList ++ [' '] := rfl
  have hcomma : ",".toList = [','] := rfl
  simp [reference, hhi, hcomma]

theorem trim_greeting (name : String) :
    trim (text (fixed "Hi " ++ reference name ++ fixed ",")) =
      text (fixed "Hi " ++ reference name ++ fixed ",") := by
  have hhi : "Hi".toList = ['H', 'i'] := rfl
  have hchars : text (fixed "Hi " ++ reference name ++ fixed ",") =
      'H' :: ('i' :: ' ' :: Token.chars name.toList ++ [',']) := by
    rw [text_greeting, hhi]
    simp
  rw [hchars]
  exact Text.trim_of_ends (by decide) (by decide) _

theorem greeting?_greeting {name : String} (h : Variable.isValidName name = true) :
    greeting? (text (fixed "Hi " ++ reference name ++ fixed ",")) = some name.toList := by
  have hread := Token.read?_chars h [',']
  have hdrop : (' ' :: (Token.chars name.toList ++ [','])).dropWhile isBlank =
      Token.chars name.toList ++ [','] := by
    have hb : isBlank ' ' = true := by decide
    have ho : isBlank '{' = false := by decide
    simp [hb, Token.chars, ho]
  have hb : isBlank ' ' = true := by decide
  have hc : isBlank ',' = false := by decide
  rw [text_greeting, greeting?, List.findSome?_cons, dropPrefix?_append]
  simp only [Option.bind_eq_bind, Option.bind_some, List.head?_cons, Option.any_some, hb,
    Bool.not_true, Bool.false_eq_true, if_false, hdrop, hread]
  simp [hc]

theorem recognize_greeting {name : String} (h : Variable.isValidName name = true)
    (scheme : ColorScheme) :
    recognize scheme "p" (text (element "p" [Attribute.style .bodyText]
      (fixed "Hi " ++ reference name ++ fixed ","))) = some (.greeting (Variable.token name)) := by
  have ha : ∀ a ∈ [Attribute.style .bodyText], a.Writable :=
    List.forall_mem_singleton.mpr (Attribute.writable_style Style.plain_bodyText)
  change paragraph? scheme _ = _
  rw [paragraph?, inner?_element isTag_p ha]
  simp only [Option.bind_eq_bind, Option.bind_some, trim_greeting, greeting?_greeting h]
  rfl

theorem text_authored (s : String) : text (authored s) = s.toList :=
  Markup.text_pieces s.toList

theorem openingOf_anchor_eq_none {cs : List Char} (h : OnlyInlineTags cs) (n : Nat) :
    openingOf "a" ⟨n, cs⟩ = none := by
  have hopen : ("<" ++ "a" : String).toList = ['<', 'a'] := rfl
  have hnot : ("<" ++ "a" : String).toList.isPrefixOf cs = false := by
    rw [← Bool.not_eq_true, List.isPrefixOf_iff_prefix, hopen]
    intro hp
    cases hcs : cs with
    | nil => simp [hcs] at hp
    | cons c ds =>
      have hno := h.not_prefix (w := ['<', 'a']) rfl (by decide) (u := []) (v := cs) rfl
        (by simp [hcs]) []
      rw [List.append_nil] at hno
      exact hno hp
  rw [openingOf, Slice.expectText, hnot]
  rfl

theorem link?_eq_none {cs : List Char} (h : OnlyInlineTags cs) (scheme : ColorScheme) :
    link? scheme cs = none := by
  rw [link?, anchorOnly?, openingOf_anchor_eq_none h]
  rfl

theorem paragraph?_authored {s : String} {scheme : ColorScheme} {attributes : List Attribute}
    (ha : ∀ a ∈ attributes, a.Writable) :
    paragraph? scheme (text (element "p" attributes (authored s))) =
      match greeting? (trim s.toList) with
      | some name => some (.greeting (Variable.token (.ofList name)))
      | none =>
        match link? scheme (trim s.toList) with
        | some content => some content
        | none => if Text.isBlankText s then none else some (.paragraph (Text.trimmed s)) := by
  rw [paragraph?, inner?_element isTag_p ha]
  simp only [Option.bind_eq_bind, Option.bind_some, text_authored,
    Text.isBlankText_eq_isEmpty_trim, Variable.token, String.toList_ofList]
  rfl

theorem recognize_paragraph {s : String} {scheme : ColorScheme} (h : Trimmed s)
    (hg : greeting? s.toList = none) (hl : link? scheme s.toList = none) :
    recognize scheme "p" (text (element "p" [Attribute.style .bodyText] (authored s))) =
      some (.paragraph s) := by
  have ha : ∀ a ∈ [Attribute.style .bodyText], a.Writable :=
    List.forall_mem_singleton.mpr (Attribute.writable_style Style.plain_bodyText)
  change paragraph? scheme _ = _
  rw [paragraph?_authored ha, trim_of_trimmed h, hg, hl, isBlankText_of_trimmed h, h.trimmed]
  rfl

theorem heading?_element {s : String} {tag : String} {attributes : List Attribute}
    (h : Trimmed s) (ht : IsTag tag) (ha : ∀ a ∈ attributes, a.Writable) (level : UInt8) :
    heading? level (text (element tag attributes (authored s))) = some (.heading s level) := by
  have hne : s.toList.isEmpty = false := by simpa using toList_ne_nil h
  rw [heading?, inner?_element ht ha]
  simp only [Option.bind_eq_bind, Option.bind_some, text_authored, trim_of_trimmed h, hne,
    Bool.false_eq_true, if_false, String.ofList_toList]
  rfl

theorem recognize_heading_tag {size : String} {level : UInt8}
    (hs : Fragment.headingSize? level = some size) (scheme : ColorScheme) (markup : List Char) :
    recognize scheme ("h" ++ level.toNat.repr) markup = heading? level markup := by
  unfold Fragment.headingSize? at hs
  split at hs
  · rename_i hl
    have hlevel : level = 1 := UInt8.toNat_inj.mp hl
    subst hlevel
    rfl
  · rename_i hl
    have hlevel : level = 2 := UInt8.toNat_inj.mp hl
    subst hlevel
    rfl
  · rename_i hl
    have hlevel : level = 3 := UInt8.toNat_inj.mp hl
    subst hlevel
    rfl
  · cases hs

theorem recognize_heading {s size : String} {level : UInt8} (h : Trimmed s)
    (hs : Fragment.headingSize? level = some size) (scheme : ColorScheme) :
    recognize scheme ("h" ++ level.toNat.repr) (text (element ("h" ++ level.toNat.repr)
      [Attribute.style (Fragment.headingStyle size)] (authored s))) = some (.heading s level) := by
  have ha : ∀ a ∈ [Attribute.style (Fragment.headingStyle size)], a.Writable :=
    List.forall_mem_singleton.mpr (Attribute.writable_style
      (Fragment.plain_headingStyle (Fragment.plain_of_headingSize? hs)))
  rw [recognize_heading_tag hs]
  exact heading?_element h (isTag_h level size hs) ha level

theorem natOfDigits?_repr (n : UInt32) : natOfDigits? n.toNat.repr.toList = some n := by
  have hne : (Nat.toDigits 10 n.toNat).isEmpty = false := by
    rw [List.isEmpty_eq_false_iff]
    exact Nat.toDigits_ne_nil
  have hall : (Nat.toDigits 10 n.toNat).all Char.isDigit = true :=
    List.all_eq_true.mpr fun c hc => Nat.isDigit_of_mem_toDigits (by decide) (by decide) hc
  have hfold : (Nat.toDigits 10 n.toNat).foldl (fun n d => 10 * n + (d.toNat - '0'.toNat)) 0 =
      n.toNat := Nat.ofDigitChars_ten_toDigits
  have hlt : n.toNat < UInt32.size := n.toNat_lt
  rw [Nat.toList_repr, natOfDigits?]
  simp only [hne, hall, hfold, hlt, Bool.not_false, Bool.and_self, if_true]
  simp

theorem toList_text_cons (name value : String) (declarations : List (String × String)) :
    ∃ rest, (Style.mk ((name, value) :: declarations)).text.toList =
      name.toList ++ ':' :: ' ' :: (value.toList ++ ';' :: rest) := by
  have hcolon : (": " : String).toList = [':', ' '] := rfl
  have hsemi : (";" : String).toList = [';'] := rfl
  cases declarations with
  | nil => exact ⟨[], by simp [Style.text, hcolon, hsemi]⟩
  | cons d declarations =>
    refine ⟨' ' :: (Style.mk (d :: declarations)).text.toList, ?_⟩
    have hblank : (" " : String).toList = [' '] := rfl
    rw [Style.text, List.map_cons, List.map_cons, String.intercalate_cons_cons]
    simp [Style.text, hcolon, hsemi, hblank]

theorem digit_of_mem_repr {n : Nat} {c : Char} (hc : c ∈ n.repr.toList) : c.isDigit = true := by
  rw [Nat.toList_repr] at hc
  exact Nat.isDigit_of_mem_toDigits (by decide) (by decide) hc

theorem pixels?_append {gap digits : List Char} (hgap : ∀ c ∈ gap, isBlank c = true)
    (hne : digits ≠ []) (hdigits : ∀ c ∈ digits, Text.isDigit c = true) (rest : List Char) :
    pixels? ("height:".toList ++ (gap ++ (digits ++ ("px".toList ++ rest)))) = some digits := by
  obtain ⟨d, ds, rfl⟩ := List.exists_cons_of_ne_nil hne
  have hblank : isBlank d = false := by
    by_contra hblank
    have hno := Text.isDigit_of_isBlank (Bool.not_eq_false _ ▸ hblank)
    rw [hdigits d List.mem_cons_self] at hno
    cases hno
  have hunit : ∀ c ∈ ("px".toList ++ rest).head?, Text.isDigit c = false :=
    Slice.head_append (by decide) (by decide) rest
  have hskip : (gap ++ (d :: ds ++ ("px".toList ++ rest))).dropWhile isBlank =
      d :: ds ++ ("px".toList ++ rest) :=
    Slice.dropWhile_append hgap (Slice.head_cons hblank _)
  rw [pixels?, dropPrefix?_append]
  simp only [Option.bind_eq_bind, Option.bind_some, hskip, Slice.takeWhile_append hdigits hunit,
    Slice.dropWhile_append hdigits hunit, dropPrefix?_append, Option.map_some]

theorem pixels?_repr {gap : List Char} (hgap : ∀ c ∈ gap, isBlank c = true) (n : Nat)
    (rest : List Char) :
    pixels? ("height:".toList ++ (gap ++ (n.repr.toList ++ ("px".toList ++ rest)))) =
      some n.repr.toList := by
  refine pixels?_append hgap ?_ (fun c hc => ?_) rest
  · simp [Nat.toList_repr, Nat.toDigits_ne_nil]
  · simp [Text.isDigit, digit_of_mem_repr hc]

theorem heightDigits?_spacerStyle (height : UInt32) :
    heightDigits? (Fragment.spacerStyle height).text.toList = some height.toNat.repr.toList := by
  obtain ⟨rest, hrest⟩ := toList_text_cons "height" (height.toNat.repr ++ "px")
    [("line-height", height.toNat.repr ++ "px"), ("font-size", "1px")]
  have hstyle : (Fragment.spacerStyle height).text.toList =
      "height:".toList ++ ([' '] ++ (height.toNat.repr.toList ++ ("px".toList ++ ';' :: rest))) := by
    have hcolon : ("height:" : String).toList = ("height" : String).toList ++ [':'] := rfl
    refine hrest.trans ?_
    simp only [String.toList_append, hcolon, List.append_assoc, List.cons_append, List.nil_append]
  have hpixels := @pixels?_repr [' '] (by decide) height.toNat (';' :: rest)
  rw [hstyle]
  cases hcs : "height:".toList ++
      ([' '] ++ (height.toNat.repr.toList ++ ("px".toList ++ ';' :: rest))) with
  | nil => simp at hcs
  | cons c cs =>
    rw [heightDigits?, ← hcs, hpixels]
    rfl

theorem recognize_spacer {height : UInt32} (hh : height ≠ 0) (scheme : ColorScheme) :
    recognize scheme "div" (text (element "div" [Attribute.style (Fragment.spacerStyle height)]
      (fixed "&nbsp;"))) = some (.spacer height) := by
  have ht : IsTag "div" := ⟨by decide, by decide⟩
  have ha : ∀ a ∈ [Attribute.style (Fragment.spacerStyle height)], a.Writable :=
    List.forall_mem_singleton.mpr (Attribute.writable_style (Fragment.plain_spacerStyle height))
  have htrim : trim "&nbsp;".toList = "&nbsp;".toList := by decide
  have hstyle : Attribute.value? "style"
      (openingTag (text (element "div" [Attribute.style (Fragment.spacerStyle height)]
        (fixed "&nbsp;")))) = some (Fragment.spacerStyle height).text.toList := by
    have hf : [Attribute.style (Fragment.spacerStyle height)].find? (isNamed "style") =
        some (Attribute.style (Fragment.spacerStyle height)) := by
      simp [isNamed, Attribute.style, Attribute.fixed]
    rw [openingTag_element ht ha, ← List.append_nil (text (opening _ _)), value?_opening ht ha hf]
    exact congrArg some (Markup.text_fixed _)
  change spacer? _ = _
  rw [spacer?, inner?_element ht ha]
  simp only [Option.bind_eq_bind, Option.bind_some, Markup.text_fixed, htrim, ne_eq,
    not_true_eq_false, false_and, if_false, hstyle, heightDigits?_spacerStyle, natOfDigits?_repr, hh]
  rfl

theorem recognize_divider (scheme : ColorScheme) (markup : List Char) :
    recognize scheme "hr" markup = some .divider := rfl

theorem openingTag_opening {tag : String} {attributes : List Attribute} (ht : IsTag tag)
    (ha : ∀ a ∈ attributes, a.Writable) :
    openingTag (text (opening tag attributes)) = text (opening tag attributes) := by
  have h := openingTag_written ht.isAlphanum (Attribute.isInside_tagOf ha).noAngle []
  rwa [List.append_nil, ← Markup.text_opening] at h

def imageAttributes (contentId alt : String) (width : Option UInt32) : List Attribute :=
  [.fixed "src" ("cid:" ++ Text.escaped contentId), ⟨"alt", .escaped alt⟩] ++
    width.toList.map (fun width => .fixed "width" width.toNat.repr) ++ [.style Fragment.imageStyle]

theorem writable_imageAttributes {contentId : String} (hc : Block.isContentId contentId = true)
    (alt : String) (width : Option UInt32) :
    ∀ a ∈ imageAttributes contentId alt width, a.Writable := by
  simp only [imageAttributes, List.forall_mem_append, List.forall_mem_cons, List.not_mem_nil,
    IsEmpty.forall_iff, implies_true, and_true, List.forall_mem_map]
  refine ⟨⟨⟨?_, Attribute.writable_alt alt⟩, ?_⟩, Attribute.writable_style Fragment.plain_imageStyle⟩
  · refine Attribute.writable_fixed (by decide) (by decide) ?_
    rw [Text.plain_append]
    exact ⟨Text.plain_ofList _ (by decide), (Text.plain_contentId hc).escaped⟩
  · intro w _
    exact Attribute.writable_fixed (by decide) (by decide) (Text.plain_repr _)

theorem escaped_contentId {contentId : String} (hc : Block.isContentId contentId = true) :
    (Text.escaped contentId).toList = contentId.toList := by
  have hall := List.all_eq_true.mp (Bool.and_eq_true_iff.mp hc).2
  have hone : ∀ c ∈ contentId.toList, Text.escapeChar c = [c] := by
    intro c hmem
    have h := hall c hmem
    simp only [Bool.or_eq_true, beq_iff_eq] at h
    rcases h with ((h | rfl) | rfl) | rfl
    · exact Text.escapeChar_of_not_breaks (by simp [Token.breaks, h])
    · rfl
    · rfl
    · rfl
  rw [Text.toList_escaped, Text.escape, List.flatMap_congr hone,
    List.flatMap_singleton']

theorem width?_repr {width : UInt32} (h : Fragment.isWidth width = true) :
    width? width.toNat.repr.toList = some width := by
  have hsign (digits : List Char) : width.toNat.repr.toList ≠ '+' :: digits := by
    intro hplus
    have hdigit := digit_of_mem_repr (n := width.toNat) (c := '+')
    rw [hplus] at hdigit
    exact absurd (hdigit List.mem_cons_self) (by decide)
  rw [width?, natOfDigits?_repr, Option.filter_some]
  · exact if_pos h
  · exact hsign

theorem recognize_image {contentId : String} (hc : Block.isContentId contentId = true)
    (alt : String) {width : Option UInt32} (hw : width.all Fragment.isWidth = true)
    (scheme : ColorScheme) :
    recognize scheme "img" (text (opening "img" (imageAttributes contentId alt width))) =
      some (.image contentId alt width) := by
  have ht : IsTag "img" := ⟨by decide, by decide⟩
  have ha := writable_imageAttributes hc alt width
  have hsrc := @value?_opening "src" _ _ (.fixed "src" ("cid:" ++ Text.escaped contentId))
    ht ha (by simp [imageAttributes, isNamed, Attribute.fixed]) []
  have halt := @value?_opening "alt" _ _ ⟨"alt", .escaped alt⟩
    ht ha (by simp [imageAttributes, isNamed, Attribute.fixed]) []
  have hwidth : (Source.Attribute.value? "width" (text (opening "img"
      (imageAttributes contentId alt width)))).bind width? = width := by
    cases width with
    | none =>
      rw [value?_opening_eq_none ht ha (by
        simp [imageAttributes, isNamed, Attribute.style, Attribute.fixed])]
      rfl
    | some w =>
      have hval := @value?_opening "width" _ _ (.fixed "width" w.toNat.repr) ht ha
        (by simp [imageAttributes, isNamed, Attribute.fixed]) []
      rw [List.append_nil] at hval
      rw [hval, Attribute.fixed, Markup.text_fixed]
      exact width?_repr hw
  have hsrc' : (Attribute.fixed "src" ("cid:" ++ Text.escaped contentId)).value.text =
      "cid:".toList ++ contentId.toList := by
    rw [Attribute.fixed, Markup.text_fixed, String.toList_append, escaped_contentId hc]
  have halt' : (⟨"alt", .escaped alt⟩ : Attribute).value.text = Text.escape alt.toList :=
    Markup.text_escaped alt
  rw [List.append_nil, hsrc'] at hsrc
  rw [List.append_nil, halt'] at halt
  change image? _ = _
  rw [image?, openingTag_opening ht ha]
  simp only [hsrc, halt, hwidth, Option.bind_eq_bind, Option.bind_some, dropPrefix?_append,
    String.ofList_toList, hc, Bool.not_true, Bool.false_eq_true, if_false, Option.getD_some,
    Text.unescape_escape]
  rfl

end EmailTemplates.Source.Shape
