import EmailTemplates.Proofs.Markup.Draws
import EmailTemplates.Proofs.Source.Segments
import EmailTemplates.Proofs.Text.Blank
import EmailTemplates.Proofs.Text.Plain
import EmailTemplates.Proofs.Variable.Pieces
import EmailTemplates.Source.Import

namespace EmailTemplates

namespace Variable

theorem unbraced_chars (name : List Char) : unbraced (Token.chars name) = name := by
  have hc : Token.chars name = '{' :: '{' :: (name ++ ['}', '}']) := rfl
  have hr : (name ++ ['}', '}']).reverse = '}' :: '}' :: name.reverse := by simp
  rw [hc, unbraced]
  simp only [hr, List.reverse_reverse]

theorem unbraced_of_isName {name : List Char} (h : Token.isName name = true) :
    unbraced name = name := by
  cases name with
  | nil => rfl
  | cons c name =>
    have hc : c ≠ '{' := by
      rintro rfl
      simp [Token.isName, show Text.isNameChar '{' = false by decide] at h
    unfold unbraced
    split
    · rename_i heq
      exact absurd (List.cons.inj heq).1 hc
    · rfl

theorem nameOf?_token {name : String} (h : isValidName name = true) :
    nameOf? (token name) = some name := by
  have hchars : (token name).toList = Token.chars name.toList := String.toList_ofList
  have hname : Token.isName name.toList = true := h
  simp [nameOf?, hchars, unbraced_chars, hname]

theorem nameOf?_bare {name : String} (h : isValidName name = true) : nameOf? name = some name := by
  have hname : Token.isName name.toList = true := h
  simp [nameOf?, unbraced_of_isName hname, hname]

end Variable

namespace Token

open Text (isBlank trim)

theorem breaks_of_isBlank {c : Char} (h : isBlank c = true) : breaks c = true := by
  have hname : Text.isNameChar c = false := by
    by_contra hname
    rw [Text.isBlank_of_isNameChar (by simpa using hname)] at h
    cases h
  have hopen : c ≠ '{' := by
    rintro rfl
    exact absurd h (by decide)
  have hclose : c ≠ '}' := by
    rintro rfl
    exact absurd h (by decide)
  simp [breaks, hname, hopen, hclose]

theorem names_trim (cs : List Char) : names (trim cs) = names cs := by
  obtain ⟨before, after, hcs, hbefore, hafter⟩ := Text.exists_blanks cs
  conv_rhs => rw [hcs, names_append_of_not_mem (Text.not_mem_of_blank (by decide) hbefore)]
  cases after with
  | nil => rw [List.append_nil]
  | cons c after =>
    rw [names_append_of_breaks (breaks_of_isBlank (hafter c List.mem_cons_self)),
      names_of_not_mem (Text.not_mem_of_blank (by decide) hafter), List.append_nil]

end Token

namespace Block.Content

def Drawable (content : Content) : Prop :=
  ∀ scheme, ∃ m, Draws scheme content m

end Block.Content

namespace Source

open EmailTemplates.Text (Slice trim)
open Outcome

structure Trimmed (text : String) : Prop where
  nonempty : text ≠ ""
  trimmed : Text.trimmed text = text

structure Whole (tag text : String) : Prop extends Trimmed text where
  unclosed : ¬ Tag.written true tag.toList [] <:+: text.toList

theorem trim_of_trimmed {s : String} (h : Trimmed s) : trim s.toList = s.toList := by
  have ht := congrArg String.toList h.trimmed
  rwa [Text.trimmed, String.toList_ofList] at ht

theorem toList_ne_nil {s : String} (h : Trimmed s) : s.toList ≠ [] := by
  intro hnil
  refine h.nonempty (String.toList_inj.mp ?_)
  rw [hnil]
  rfl

theorem isBlankText_of_trimmed {s : String} (h : Trimmed s) : Text.isBlankText s = false := by
  rw [Text.isBlankText_eq_isEmpty_trim, trim_of_trimmed h]
  simpa using toList_ne_nil h

theorem trimmed_ofList_trim {cs : List Char} (h : trim cs ≠ []) : Trimmed (.ofList (trim cs)) where
  nonempty := fun hnil => h (by simpa using congrArg String.toList hnil)
  trimmed := by rw [Text.trimmed, String.toList_ofList, Text.trim_trim]

namespace Shape

def listTag (ordered : Bool) : String :=
  if ordered then "ol" else "ul"

end Shape

inductive Recognized (scheme : ColorScheme) : String → Block.Content → Prop
  | greeting {name : String} : Variable.isValidName name = true →
      Recognized scheme "p" (.greeting (Variable.token name))
  | paragraph {text : String} : Trimmed text → Shape.greeting? text.toList = none →
      Shape.link? scheme text.toList = none → Recognized scheme "p" (.paragraph text)
  | button {label url : String} {own : Option ColorScheme} : Whole "a" label →
      Variable.isValidName url = true → Recognized scheme "table" (.button label url own)
  | image {contentId alt : String} {width : Option UInt32} :
      Block.isContentId contentId = true → width.all Fragment.isWidth = true →
      Recognized scheme "img" (.image contentId alt width)
  | divider : Recognized scheme "hr" .divider
  | spacer {height : UInt32} : height ≠ 0 → Recognized scheme "div" (.spacer height)
  | heading {text size : String} {level : UInt8} : Trimmed text →
      Fragment.headingSize? level = some size →
      Recognized scheme ("h" ++ level.toNat.repr) (.heading text level)
  | list {items : List String} {ordered : Bool} : items ≠ [] → (∀ item ∈ items, Whole "li" item) →
      Recognized scheme (Shape.listTag ordered) (.list items ordered)
  | link {text url : String} {own : Option ColorScheme} : Trimmed text →
      Variable.isValidName url = true → Recognized scheme "p" (.link text url own)

namespace Shape

variable {scheme : ColorScheme} {markup : List Char} {content : Block.Content}

theorem isName_of_tokenOnly? {cs name : List Char} (h : tokenOnly? cs = some name) :
    Token.isName name = true := by
  unfold tokenOnly? at h
  split at h
  · rename_i hr
    cases h
    exact (Token.eq_of_read? hr).1
  · cases h

theorem isValidName_ofList {name : List Char} (h : Token.isName name = true) :
    Variable.isValidName (.ofList name) = true := by
  rwa [Variable.isValidName, String.toList_ofList]

theorem isValidName_of_urlVariable? {attributes url : List Char}
    (h : urlVariable? attributes = some url) : Variable.isValidName (.ofList url) = true := by
  obtain ⟨value, -, hv⟩ := Option.bind_eq_some_iff.mp h
  exact isValidName_ofList (isName_of_tokenOnly? hv)

theorem eq_of_dropPrefix? {text : String} {cs rest : List Char}
    (h : dropPrefix? text cs = some rest) : cs = text.toList ++ rest := by
  unfold dropPrefix? at h
  split at h
  · rename_i hp
    cases h
    exact (List.prefix_iff_eq_append.mp (List.isPrefixOf_iff_prefix.mp hp)).symm
  · cases h

theorem eq_of_dropSuffix? {text : String} {cs rest : List Char}
    (h : dropSuffix? text cs = some rest) : cs = rest ++ text.toList := by
  unfold dropSuffix? at h
  split at h
  · rename_i hp
    cases h
    obtain ⟨front, hfront⟩ := List.isSuffixOf_iff_suffix.mp hp
    rw [← hfront, List.length_append, Nat.add_sub_cancel, List.take_left]
  · cases h

theorem isValidName_of_greeting? {inner name : List Char} (h : greeting? inner = some name) :
    Variable.isValidName (.ofList name) = true := by
  obtain ⟨rest, -, h⟩ := Option.bind_eq_some_iff.mp h
  obtain ⟨-, h⟩ := unless_none_eq_some.mp h
  obtain ⟨⟨name', rest'⟩, hr, h⟩ := Option.bind_eq_some_iff.mp h
  dsimp only at h
  split at h
  · cases h
    exact isValidName_ofList (Token.eq_of_read? hr).1
  · cases h

theorem mem_names_of_greeting? {inner name : List Char} (h : greeting? inner = some name) :
    name ∈ Token.names inner := by
  obtain ⟨rest, hword, h⟩ := Option.bind_eq_some_iff.mp h
  obtain ⟨-, h⟩ := unless_none_eq_some.mp h
  obtain ⟨⟨name', rest'⟩, hr, h⟩ := Option.bind_eq_some_iff.mp h
  obtain ⟨word, hmem, hword⟩ := List.exists_of_findSome?_eq_some hword
  obtain ⟨hname, heq⟩ := Token.eq_of_read? hr
  have hwords : ∀ word ∈ ["Hi", "Hello", "Hey", "Dear"], '{' ∉ word.toList := by decide
  have hblanks : '{' ∉ rest.takeWhile Text.isBlank :=
    Text.not_mem_of_blank (by decide) fun c hc => List.mem_takeWhile_imp hc
  have hinner : inner = word.toList ++ (rest.takeWhile Text.isBlank ++
      (Token.chars name' ++ rest')) := by
    rw [← heq, List.takeWhile_append_dropWhile]
    exact eq_of_dropPrefix? hword
  rw [hinner, Token.names_append_of_not_mem (hwords word hmem),
    Token.names_append_of_not_mem hblanks, Token.names_chars hname]
  dsimp only at h
  split at h
  · cases h
    exact List.mem_cons_self
  · cases h

theorem isBlankText_of_isContentId {contentId : String}
    (h : Block.isContentId contentId = true) : Text.isBlankText contentId = false := by
  obtain ⟨hne, hall⟩ := Bool.and_eq_true_iff.mp h
  cases hcs : contentId.toList with
  | nil => simp [hcs] at hne
  | cons c cs =>
    have hc := List.all_eq_true.mp hall c (by simp [hcs])
    simp only [Bool.or_eq_true, beq_iff_eq] at hc
    have hblank : Text.isBlank c = false := by
      rcases hc with ((h | rfl) | rfl) | rfl
      · exact Text.isBlank_of_isNameChar h
      · decide
      · decide
      · decide
    simp [Text.isBlankText, hcs, hblank]

theorem parts_of_openingOf {tag : String} {s attributes rest : Slice}
    (h : openingOf tag s = some (attributes, rest)) :
    rest.IsEndOf s ∧ attributes.chars <:+: s.chars := by
  obtain ⟨s1, h1, h⟩ := Option.bind_eq_some_iff.mp h
  obtain ⟨-, h⟩ := unless_none_eq_some.mp h
  have hend : s1.IsEndOf s := Slice.isEndOf_expectText h1
  exact ⟨(Tag.leavesEnd_upToAngle h).trans hend,
    (Tag.prefix_of_upToAngle h).isInfix.trans hend.suffix.isInfix⟩

theorem parts_of_elementOf {tag : String} {s attributes inner rest : Slice}
    (h : elementOf tag s = some ((attributes, inner), rest)) :
    rest.IsEndOf s ∧ attributes.chars <:+: s.chars ∧ inner.chars <:+: s.chars := by
  obtain ⟨⟨attributes', s1⟩, h1, h⟩ := Option.bind_eq_some_iff.mp h
  obtain ⟨⟨inner', s2⟩, h2, h⟩ := Option.bind_eq_some_iff.mp h
  cases h
  obtain ⟨hend, hattributes⟩ := parts_of_openingOf h1
  refine ⟨(Slice.isEndOf_splitAt? h2).trans hend, hattributes, ?_⟩
  have hinner : inner.chars <+: s1.chars := ⟨_, (Slice.chars_of_splitAt? h2).symm⟩
  exact hinner.isInfix.trans hend.suffix.isInfix

theorem leavesEnd_elementOf (tag : String) : Slice.LeavesEnd (elementOf tag) :=
  fun _ _ _ h => (parts_of_elementOf h).1

theorem whole_of_elementOf {tag : String} {s attributes inner rest : Slice}
    (h : elementOf tag s = some ((attributes, inner), rest)) (hne : trim inner.chars ≠ []) :
    Whole tag (.ofList (trim inner.chars)) where
  toTrimmed := trimmed_ofList_trim hne
  unclosed := by
    obtain ⟨⟨attributes', s1⟩, -, h⟩ := Option.bind_eq_some_iff.mp h
    obtain ⟨⟨inner', s2⟩, hsplit, h⟩ := Option.bind_eq_some_iff.mp h
    cases h
    have hclosing : ("</" ++ tag ++ ">").toList = Tag.written true tag.toList [] := by
      simp [Tag.written]
    have hunclosed := Slice.not_infix_of_splitAt? (by simp) hsplit
    rw [hclosing] at hunclosed
    rw [String.toList_ofList]
    exact fun hin => hunclosed (hin.trans (Text.infix_trim _))

theorem recognized_of_link? {inner : List Char} (h : link? scheme inner = some content) :
    Recognized scheme "p" content := by
  obtain ⟨⟨attributes, text⟩, -, h⟩ := Option.bind_eq_some_iff.mp h
  obtain ⟨url, hurl, h⟩ := Option.bind_eq_some_iff.mp h
  obtain ⟨hne, h⟩ := unless_none_eq_some.mp h
  cases h
  exact .link (trimmed_ofList_trim (by simpa using hne)) (isValidName_of_urlVariable? hurl)

theorem recognized_of_paragraph? (h : paragraph? scheme markup = some content) :
    Recognized scheme "p" content := by
  obtain ⟨inner, -, h⟩ := Option.bind_eq_some_iff.mp h
  dsimp only at h
  split at h
  · rename_i name hgreeting
    cases h
    have htoken : Variable.token (.ofList name) = .ofList (Token.chars name) := by
      rw [Variable.token, String.toList_ofList]
    exact htoken ▸ .greeting (isValidName_of_greeting? hgreeting)
  · rename_i hgreeting
    split at h
    · rename_i hlink
      cases h
      exact recognized_of_link? hlink
    · rename_i hlink
      split at h
      · cases h
      · rename_i hne
        cases h
        refine .paragraph (trimmed_ofList_trim (by simpa using hne)) ?_ ?_
        · rwa [String.toList_ofList]
        · rwa [String.toList_ofList]

theorem recognized_of_heading? {level : UInt8} {size : String}
    (hs : Fragment.headingSize? level = some size) (h : heading? level markup = some content) :
    Recognized scheme ("h" ++ level.toNat.repr) content := by
  obtain ⟨inner, -, h⟩ := Option.bind_eq_some_iff.mp h
  obtain ⟨hne, h⟩ := unless_none_eq_some.mp h
  cases h
  exact .heading (trimmed_ofList_trim (by simpa using hne)) hs

theorem recognized_of_spacer? (h : spacer? markup = some content) :
    Recognized scheme "div" content := by
  obtain ⟨inner, -, h⟩ := Option.bind_eq_some_iff.mp h
  obtain ⟨-, h⟩ := unless_none_eq_some.mp h
  obtain ⟨style, -, h⟩ := Option.bind_eq_some_iff.mp h
  obtain ⟨digits, -, h⟩ := Option.bind_eq_some_iff.mp h
  obtain ⟨height, -, h⟩ := Option.bind_eq_some_iff.mp h
  obtain ⟨hh, h⟩ := unless_none_eq_some.mp h
  cases h
  exact .spacer hh

theorem recognized_of_image? (h : image? markup = some content) :
    Recognized scheme "img" content := by
  obtain ⟨src, -, h⟩ := Option.bind_eq_some_iff.mp h
  obtain ⟨contentId, -, h⟩ := Option.bind_eq_some_iff.mp h
  obtain ⟨hc, h⟩ := unless_none_eq_some.mp h
  cases h
  refine .image (by simpa using hc) ?_
  cases hw : (Attribute.value? "width" (openingTag markup)).bind width? with
  | none => rfl
  | some w =>
    obtain ⟨digits, -, hw⟩ := Option.bind_eq_some_iff.mp hw
    exact (Option.filter_eq_some_iff.mp hw).2

theorem recognized_of_list? {ordered : Bool} (h : list? ordered markup = some content) :
    Recognized scheme (listTag ordered) content := by
  unfold list? at h
  dsimp only at h
  split at h
  · cases h
  · rename_i hne
    cases h
    refine .list (by simpa using hne) (List.forall_mem_map.mpr fun item hitem => ?_)
    obtain ⟨hitem, hnonempty⟩ := List.mem_filter.mp hitem
    obtain ⟨⟨attributes, inner⟩, hfound, rfl⟩ := List.mem_map.mp hitem
    obtain ⟨s, rest, -, hread⟩ := (leavesEnd_elementOf "li").of_mem_findAll hfound
    exact whole_of_elementOf hread (by simpa using hnonempty)

theorem recognized_of_button? (h : button? scheme markup = some content) :
    Recognized scheme "table" content := by
  obtain ⟨⟨start, ⟨attributes, label⟩, rest⟩, hfind, h⟩ := Option.bind_eq_some_iff.mp h
  obtain ⟨-, h⟩ := unless_none_eq_some.mp h
  obtain ⟨-, h⟩ := unless_none_eq_some.mp h
  obtain ⟨url, hurl, h⟩ := Option.bind_eq_some_iff.mp h
  obtain ⟨hne, h⟩ := unless_none_eq_some.mp h
  cases h
  exact .button (whole_of_elementOf (Slice.read_of_find hfind) (by simpa using hne))
    (isValidName_of_urlVariable? hurl)

end Shape

theorem recognized_of_recognize {scheme : ColorScheme} {tag : String} {markup : List Char}
    {content : Block.Content} (h : recognize scheme tag markup = some content) :
    Recognized scheme tag content := by
  unfold recognize at h
  split at h
  · exact Shape.recognized_of_paragraph? h
  · exact Shape.recognized_of_heading? rfl h
  · exact Shape.recognized_of_heading? rfl h
  · exact Shape.recognized_of_heading? rfl h
  · cases h
    exact .divider
  · exact Shape.recognized_of_spacer? h
  · exact Shape.recognized_of_image? h
  · exact @Shape.recognized_of_list? _ _ _ false h
  · exact @Shape.recognized_of_list? _ _ _ true h
  · exact Shape.recognized_of_button? h
  · cases h

namespace Recognized

variable {scheme : ColorScheme} {tag : String} {content : Block.Content}

theorem withMarkedScheme (h : Recognized scheme tag content) (own : Option ColorScheme) :
    Recognized scheme tag (Content.withMarkedScheme own content) := by
  cases h with
  | button hlabel hurl => exact .button hlabel hurl
  | link htext hurl => exact .link htext hurl
  | greeting hname => exact .greeting hname
  | paragraph htext hgreeting hlink => exact .paragraph htext hgreeting hlink
  | image hid hwidth => exact .image hid hwidth
  | divider => exact .divider
  | spacer hheight => exact .spacer hheight
  | heading htext hsize => exact .heading htext hsize
  | list hne hitems => exact .list hne hitems

theorem drawable (h : Recognized scheme tag content) : content.Drawable := by
  intro s
  cases h with
  | greeting hname => exact ⟨_, .greeting (Variable.nameOf?_token hname)⟩
  | paragraph htext => exact ⟨_, .paragraph (isBlankText_of_trimmed htext)⟩
  | button hlabel hurl =>
    exact ⟨_, .button (isBlankText_of_trimmed hlabel.toTrimmed) (Variable.nameOf?_bare hurl)⟩
  | image hid hwidth => exact ⟨_, .image (Shape.isBlankText_of_isContentId hid) hid hwidth⟩
  | divider => exact ⟨_, .divider⟩
  | spacer hheight => exact ⟨_, .spacer hheight⟩
  | heading htext hsize => exact ⟨_, .heading (isBlankText_of_trimmed htext) hsize⟩
  | list hne => exact ⟨_, .list hne⟩
  | link htext hurl =>
    exact ⟨_, .link (isBlankText_of_trimmed htext) (Variable.nameOf?_bare hurl)⟩

end Recognized

end Source

end EmailTemplates
