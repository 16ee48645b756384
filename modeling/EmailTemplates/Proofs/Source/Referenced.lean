import EmailTemplates.Proofs.Source.Cut
import EmailTemplates.Proofs.Source.Named
import EmailTemplates.Proofs.Text.Entity

namespace EmailTemplates.Source

open EmailTemplates.Text (Slice trim)
open Outcome

namespace Attribute

theorem parts_of_read {s name value rest : Slice} (h : read s = some ((name, value), rest)) :
    rest.IsEndOf s ∧ value.chars <:+: s.chars := by
  obtain ⟨⟨name', s1⟩, h1, h⟩ := Option.bind_eq_some_iff.mp h
  obtain ⟨s2, h2, h⟩ := Option.bind_eq_some_iff.mp h
  obtain ⟨s3, h3, h⟩ := Option.bind_eq_some_iff.mp h
  obtain ⟨s4, h4, h⟩ := Option.bind_eq_some_iff.mp h
  cases h
  have e2 : s2.IsEndOf s := (Slice.isEndOf_expect h2).trans
    ((Slice.isEndOf_skipBlanks s1).trans (Slice.isEndOf_run h1))
  have e3 : s3.IsEndOf s := (Slice.isEndOf_expect h3).trans
    ((Slice.isEndOf_skipBlanks s2).trans e2)
  exact ⟨(Slice.isEndOf_expect h4).trans ((Slice.isEndOf_dropWhile _ s3).trans e3),
    (List.takeWhile_prefix _).isInfix.trans e3.suffix.isInfix⟩

theorem infix_of_value? {name : String} {markup value : List Char}
    (h : value? name markup = some value) : value <:+: markup := by
  obtain ⟨⟨found, slice⟩, hfind, rfl⟩ := Option.map_eq_some_iff.mp h
  have hread : Slice.LeavesEnd read := fun _ _ _ h => (parts_of_read h).1
  obtain ⟨s, rest, hend, hs⟩ := hread.of_mem_findAll (List.mem_of_find?_eq_some hfind)
  exact (parts_of_read hs).2.trans hend.suffix.isInfix

end Attribute

def RefersWithin (markup : List Char) (content : Block.Content) : Prop :=
  ∀ n ∈ content.fields.flatMap Field.occurrences, n.toList ∈ Token.names markup

section

variable {markup cs : List Char} {content : Block.Content}

theorem RefersWithin.mono (h : RefersWithin markup content) (hin : markup <:+: cs) :
    RefersWithin cs content :=
  fun n hn => Token.names_subset_of_infix hin (h n hn)

theorem forall_mem_occurrences (h : Token.names cs ⊆ Token.names markup) :
    ∀ n ∈ Variable.occurrences (.ofList cs), n.toList ∈ Token.names markup := by
  intro n hn
  obtain ⟨name, hname, rfl⟩ := List.mem_map.mp hn
  rw [String.toList_ofList] at hname ⊢
  exact h hname

end

namespace Shape

variable {scheme : ColorScheme} {markup inner cs : List Char} {content : Block.Content}

theorem prefix_of_beforeLastClosing (h : beforeLastClosing cs = some inner) : inner <+: cs := by
  induction cs generalizing inner with
  | nil => cases h
  | cons c cs ih =>
    rw [beforeLastClosing] at h
    split at h
    · rename_i tail htail
      cases h
      exact List.cons_prefix_cons.mpr ⟨rfl, ih htail⟩
    · split at h
      · cases h
        exact List.nil_prefix
      · cases h

theorem infix_of_inner? (h : inner? markup = some inner) : inner <:+: markup := by
  unfold inner? at h
  split at h
  · cases h
  · rename_i c rest hdrop
    have hrest : c :: rest <:+ markup := hdrop ▸ List.dropWhile_suffix _
    exact (prefix_of_beforeLastClosing h).isInfix.trans ((List.suffix_cons c rest).trans hrest).isInfix

theorem prefix_of_dropSuffix? {text : String} (h : dropSuffix? text cs = some inner) :
    inner <+: cs :=
  ⟨text.toList, (eq_of_dropSuffix? h).symm⟩

theorem infix_openingTag (markup : List Char) : openingTag markup <:+: markup := by
  have htake : openingTag markup <+: markup.takeWhile (· != '>') ++ markup.dropWhile (· != '>') :=
    (List.prefix_append_right_inj _).mpr (List.take_prefix 1 _)
  rw [List.takeWhile_append_dropWhile] at htake
  exact htake.isInfix

theorem mem_names_of_urlVariable? {attributes url : List Char}
    (h : urlVariable? attributes = some url) : url ∈ Token.names attributes := by
  obtain ⟨value, hvalue, hurl⟩ := Option.bind_eq_some_iff.mp h
  refine Token.names_subset_of_infix
    ((Text.infix_trim value).trans (Attribute.infix_of_value? hvalue)) ?_
  unfold tokenOnly? at hurl
  split at hurl
  · rename_i hread
    cases hurl
    obtain ⟨hname, heq⟩ := Token.eq_of_read? hread
    rw [heq, Token.names_chars hname]
    exact List.mem_cons_self
  · cases hurl

theorem forall_mem_anchor {text url : List Char} (ht : text <:+: markup)
    (hu : url ∈ Token.names markup) :
    ∀ n ∈ Variable.occurrences (.ofList text) ++ (Variable.nameOf? (.ofList url)).toList,
      n.toList ∈ Token.names markup := by
  have hvalid := isValidName_ofList (Token.infix_of_mem_names hu).1
  rw [Variable.nameOf?_bare hvalid, List.forall_mem_append]
  refine ⟨forall_mem_occurrences (Token.names_subset_of_infix ht), ?_⟩
  exact List.forall_mem_singleton.mpr (by rwa [String.toList_ofList])

theorem refersWithin_of_link? (h : link? scheme inner = some content) :
    RefersWithin inner content := by
  obtain ⟨⟨attributes, text⟩, hanchor, h⟩ := Option.bind_eq_some_iff.mp h
  obtain ⟨url, hurl, h⟩ := Option.bind_eq_some_iff.mp h
  obtain ⟨-, h⟩ := unless_none_eq_some.mp h
  obtain ⟨⟨opened, rest⟩, hopen, hanchor⟩ := Option.bind_eq_some_iff.mp hanchor
  obtain ⟨text', htext, hanchor⟩ := Option.bind_eq_some_iff.mp hanchor
  cases hanchor
  cases h
  obtain ⟨hend, hattributes⟩ := parts_of_openingOf hopen
  have hin : text <:+: inner := (prefix_of_dropSuffix? htext).isInfix.trans hend.suffix.isInfix
  have hfields := forall_mem_anchor ((Text.infix_trim text).trans hin)
    (Token.names_subset_of_infix hattributes (mem_names_of_urlVariable? hurl))
  simpa [RefersWithin, Block.Content.fields] using hfields

theorem refersWithin_of_paragraph? (h : paragraph? scheme markup = some content) :
    RefersWithin markup content := by
  obtain ⟨inner, hinner, h⟩ := Option.bind_eq_some_iff.mp h
  have hin : trim inner <:+: markup := (Text.infix_trim inner).trans (infix_of_inner? hinner)
  dsimp only at h
  split at h
  · rename_i name hgreeting
    cases h
    have hname := mem_names_of_greeting? hgreeting
    have hvalid := isValidName_ofList (Token.infix_of_mem_names hname).1
    have htoken := Variable.nameOf?_token hvalid
    rw [Variable.token, String.toList_ofList] at htoken
    have hmem := Token.names_subset_of_infix hin hname
    simpa [RefersWithin, Block.Content.fields, htoken] using hmem
  · split at h
    · rename_i hlink
      cases h
      exact (refersWithin_of_link? hlink).mono hin
    · split at h
      · cases h
      · cases h
        have htext := forall_mem_occurrences (Token.names_subset_of_infix hin)
        simpa [RefersWithin, Block.Content.fields] using htext

theorem refersWithin_of_heading? {level : UInt8} (h : heading? level markup = some content) :
    RefersWithin markup content := by
  obtain ⟨inner, hinner, h⟩ := Option.bind_eq_some_iff.mp h
  obtain ⟨-, h⟩ := unless_none_eq_some.mp h
  cases h
  have htext := forall_mem_occurrences
    (Token.names_subset_of_infix ((Text.infix_trim inner).trans (infix_of_inner? hinner)))
  simpa [RefersWithin, Block.Content.fields] using htext

theorem refersWithin_of_spacer? (h : spacer? markup = some content) :
    RefersWithin markup content := by
  obtain ⟨inner, -, h⟩ := Option.bind_eq_some_iff.mp h
  obtain ⟨-, h⟩ := unless_none_eq_some.mp h
  obtain ⟨style, -, h⟩ := Option.bind_eq_some_iff.mp h
  obtain ⟨digits, -, h⟩ := Option.bind_eq_some_iff.mp h
  obtain ⟨height, -, h⟩ := Option.bind_eq_some_iff.mp h
  obtain ⟨-, h⟩ := unless_none_eq_some.mp h
  cases h
  simp [RefersWithin, Block.Content.fields]

theorem names_alt_subset (markup : List Char) :
    Token.names (Text.unescape ((Attribute.value? "alt" (openingTag markup)).getD [])) ⊆
      Token.names markup := by
  refine List.Subset.trans (Text.names_unescape_subset _) ?_
  cases halt : Attribute.value? "alt" (openingTag markup) with
  | none => simp
  | some alt =>
    exact Token.names_subset_of_infix
      ((Attribute.infix_of_value? halt).trans (infix_openingTag markup))

theorem refersWithin_of_image? (h : image? markup = some content) :
    RefersWithin markup content := by
  obtain ⟨src, -, h⟩ := Option.bind_eq_some_iff.mp h
  obtain ⟨contentId, -, h⟩ := Option.bind_eq_some_iff.mp h
  obtain ⟨-, h⟩ := unless_none_eq_some.mp h
  cases h
  have halt := forall_mem_occurrences (names_alt_subset markup)
  simpa [RefersWithin, Block.Content.fields] using halt

theorem refersWithin_of_list? {ordered : Bool} (h : list? ordered markup = some content) :
    RefersWithin markup content := by
  unfold list? at h
  dsimp only at h
  split at h
  · cases h
  · cases h
    have hitems : ∀ item ∈ ((Slice.findAll (elementOf "li") ⟨0, markup⟩).map
        fun x => trim x.2.chars).filter (!·.isEmpty), item <:+: markup := by
      intro item hitem
      obtain ⟨⟨attributes, inner⟩, hfound, rfl⟩ := List.mem_map.mp (List.mem_filter.mp hitem).1
      obtain ⟨s, rest, hend, hread⟩ := (leavesEnd_elementOf "li").of_mem_findAll hfound
      exact (Text.infix_trim _).trans ((parts_of_elementOf hread).2.2.trans hend.suffix.isInfix)
    intro n hn
    simp only [Block.Content.fields, List.flatMap_map] at hn
    obtain ⟨item, hitem, hn⟩ := List.mem_flatMap.mp hn
    exact forall_mem_occurrences (Token.names_subset_of_infix (hitems item hitem)) n hn

theorem refersWithin_of_button? (h : button? scheme markup = some content) :
    RefersWithin markup content := by
  obtain ⟨⟨start, ⟨attributes, label⟩, rest⟩, hfind, h⟩ := Option.bind_eq_some_iff.mp h
  obtain ⟨-, h⟩ := unless_none_eq_some.mp h
  obtain ⟨-, h⟩ := unless_none_eq_some.mp h
  obtain ⟨url, hurl, h⟩ := Option.bind_eq_some_iff.mp h
  obtain ⟨-, h⟩ := unless_none_eq_some.mp h
  cases h
  have hstart := ((leavesEnd_elementOf "a").find hfind).1.suffix.isInfix
  obtain ⟨-, hattributes, hlabel⟩ := parts_of_elementOf (Slice.read_of_find hfind)
  have hfields := forall_mem_anchor ((Text.infix_trim label.chars).trans (hlabel.trans hstart))
    (Token.names_subset_of_infix (hattributes.trans hstart) (mem_names_of_urlVariable? hurl))
  simpa [RefersWithin, Block.Content.fields] using hfields

end Shape

theorem refersWithin_of_recognize {scheme : ColorScheme} {tag : String} {markup : List Char}
    {content : Block.Content} (h : recognize scheme tag markup = some content) :
    RefersWithin markup content := by
  unfold recognize at h
  split at h
  · exact Shape.refersWithin_of_paragraph? h
  · exact Shape.refersWithin_of_heading? h
  · exact Shape.refersWithin_of_heading? h
  · exact Shape.refersWithin_of_heading? h
  · cases h
    simp [RefersWithin, Block.Content.fields]
  · exact Shape.refersWithin_of_spacer? h
  · exact Shape.refersWithin_of_image? h
  · exact Shape.refersWithin_of_list? h
  · exact Shape.refersWithin_of_list? h
  · exact Shape.refersWithin_of_button? h
  · cases h

namespace Content

theorem fields_withMarkedScheme (scheme : Option ColorScheme) (content : Block.Content) :
    (withMarkedScheme scheme content).fields = content.fields := by
  cases content <;> rfl

def AllWithin (cs : List Char) (c : Content) : Prop :=
  ∀ b ∈ c.blocks, RefersWithin cs b.content

variable {cs : List Char} {c : Content} {segment : Segment}

theorem AllWithin.add (h : c.AllWithin cs) {content : Block.Content}
    (hc : RefersWithin cs content) : (c.add content).AllWithin cs := by
  refine List.forall_mem_append.mpr ⟨h, List.forall_mem_singleton.mpr ?_⟩
  rwa [RefersWithin, fields_withMarkedScheme]

theorem AllWithin.addSegment (h : c.AllWithin cs)
    (hs : Literal.text (Literal.pieces segment.slice) <:+: cs) (scheme : ColorScheme) :
    (c.addSegment scheme segment).AllWithin cs := by
  unfold Content.addSegment
  dsimp only
  split
  · split <;> exact h
  · exact h
  · split
    · rename_i hr
      exact AllWithin.add (c := c.warn _) h ((refersWithin_of_recognize hr).mono hs)
    · exact h
  · exact h

end Content

theorem allWithin_foldl {cs : List Char} {segments : List Segment} {c : Content}
    (h : c.AllWithin cs)
    (hs : ∀ segment ∈ segments, Literal.text (Literal.pieces segment.slice) <:+: cs)
    (scheme : ColorScheme) : (segments.foldl (Content.addSegment scheme) c).AllWithin cs := by
  induction segments generalizing c with
  | nil => exact h
  | cons segment segments ih =>
    obtain ⟨hsegment, hsegments⟩ := List.forall_mem_cons.mp hs
    exact ih (h.addSegment hsegment scheme) hsegments

theorem refersWithin_readSegments {s : Slice} {cs : List Char} (h : s.chars = Literal.encode cs)
    (scheme : ColorScheme) :
    ∀ b ∈ (readSegments scheme (segments s)).blocks, RefersWithin cs b.content :=
  allWithin_foldl (c := ⟨[], [], none, []⟩) (by simp [Content.AllWithin])
    (fun _ hmem => infix_text_of_mem_segments h hmem) scheme

end EmailTemplates.Source
