import EmailTemplates.Proofs.Source.Anchor
import EmailTemplates.Proofs.Source.Cut
import EmailTemplates.Proofs.Source.Keyword

namespace EmailTemplates.Source

open EmailTemplates.Text (Slice trim isBlank)
open Outcome

variable {cs ds attributes body : List Char}

theorem Tag.written_append_inj {t t' inside inside' rest rest' : List Char} {closing : Bool}
    (ht : ∀ c ∈ t, c.isAlphanum = true) (ht' : ∀ c ∈ t', c.isAlphanum = true)
    (hi : IsInside inside) (hi' : IsInside inside')
    (h : written closing t inside ++ rest = written closing t' inside' ++ rest') :
    t = t' ∧ inside = inside' ∧ rest = rest' := by
  have hend (cs : List Char) : ∀ c ∈ ('>' :: cs).head?, (c != '>') = false := by simp
  rw [written_append, written_append] at h
  have hbehind := List.append_cancel_left (List.cons.inj h).2
  have hname := congrArg (List.takeWhile Char.isAlphanum) hbehind
  rw [Slice.takeWhile_append ht (not_isAlphanum_head hi rest),
    Slice.takeWhile_append ht' (not_isAlphanum_head hi' rest')] at hname
  subst hname
  have hinside := List.append_cancel_left hbehind
  have hattributes := congrArg (List.takeWhile (· != '>')) hinside
  rw [Slice.takeWhile_append (forall_ne_angle hi.noAngle) (hend rest),
    Slice.takeWhile_append (forall_ne_angle hi'.noAngle) (hend rest')] at hattributes
  subst hattributes
  exact ⟨rfl, rfl, (List.cons.inj (List.append_cancel_left hinside)).2⟩

structure StartTag where
  name : List Char
  attributes : List Char
  isName : Tag.isTagName name = true
  isInside : Tag.IsInside attributes
  unclosed : ¬ "</a>".toList <:+: Tag.written false name attributes

namespace StartTag

def chars (t : StartTag) : List Char :=
  Tag.written false t.name t.attributes

def lowercased (t : StartTag) : List Char :=
  t.name.map Char.toLower

def isAlone (t : StartTag) : Bool :=
  Tag.isVoid ⟨false, t.lowercased, false⟩ || t.attributes.getLast? == some '/'

def isAnchor (t : StartTag) : Bool :=
  t.lowercased == "a".toList

end StartTag

structure EndTag where
  name : List Char
  gap : List Char
  isName : Tag.isTagName name = true
  isGap : gap.all isBlank = true

namespace EndTag

def chars (t : EndTag) : List Char :=
  Tag.written true t.name t.gap

def lowercased (t : EndTag) : List Char :=
  t.name.map Char.toLower

theorem isInside (t : EndTag) : Tag.IsInside t.gap where
  head c hc := Text.isWord_of_isBlank (List.all_eq_true.mp t.isGap c (List.mem_of_mem_head? hc))
  noAngle hmem := absurd (List.all_eq_true.mp t.isGap _ hmem) (by decide)

theorem not_mem_gap (t : EndTag) : '<' ∉ t.gap :=
  fun hmem => absurd (List.all_eq_true.mp t.isGap _ hmem) (by decide)

theorem chars_eq (t : EndTag) : ∃ tail, t.chars = '<' :: tail ∧ '<' ∉ tail := by
  refine ⟨'/' :: (t.name ++ (t.gap ++ ['>'])), rfl, ?_⟩
  simp only [List.mem_cons, List.mem_append, not_or]
  exact ⟨by decide, Tag.not_mem_of_alphanum (by decide) (Tag.isAlphanum_of_isTagName t.isName),
    t.not_mem_gap, by decide, List.not_mem_nil⟩

end EndTag

/-- Texts, comments and elements one after another, each element closed within what holds it. In a
comment, `</a>` would be no tag, but it is read as one. -/
inductive Contents where
  | nil
  | text (cs : List Char) (noAngle : '<' ∉ cs) (rest : Contents)
  | comment (cs : List Char) (unclosed : ¬ "</a>".toList <:+: cs) (rest : Contents)
  | alone (tag : StartTag) (isAlone : tag.isAlone = true) (rest : Contents)
  | element (tag : StartTag) (notAlone : tag.isAlone = false) (children : Contents)
      (closing : EndTag) (closes : closing.lowercased = tag.lowercased) (rest : Contents)

namespace Contents

def chars : Contents → List Char
  | nil => []
  | text cs _ rest => cs ++ rest.chars
  | comment cs _ rest => "<!--".toList ++ (cs ++ "-->".toList) ++ rest.chars
  | alone tag _ rest => tag.chars ++ rest.chars
  | element tag _ children closing _ rest =>
    tag.chars ++ (children.chars ++ (closing.chars ++ rest.chars))

def anchors : Contents → Nat
  | nil => 0
  | text _ _ rest => rest.anchors
  | comment _ _ rest => rest.anchors
  | alone tag _ rest => tag.isAnchor.toNat + rest.anchors
  | element tag _ children _ _ rest => tag.isAnchor.toNat + children.anchors + rest.anchors

end Contents

def KeepsOpen (cs : List Char) : Prop :=
  ∀ u v rest, cs = u ++ '<' :: v → ¬ "/a>".toList <+: v ++ rest

namespace KeepsOpen

theorem append (hcs : KeepsOpen cs) (hds : KeepsOpen ds) : KeepsOpen (cs ++ ds) := by
  intro u v rest huv
  rcases Slice.mem_parts huv with ⟨v', hcs', rfl⟩ | ⟨u', -, hds'⟩
  · rw [List.append_assoc]
    exact hcs u v' (ds ++ rest) hcs'
  · exact hds u' v rest hds'

theorem unclosed (h : KeepsOpen cs) : ¬ "</a>".toList <:+: cs := by
  rintro ⟨u, rest, huv⟩
  refine h u ("/a>".toList ++ rest) [] (by rw [← huv]; simp) ?_
  rw [List.append_nil]
  exact List.prefix_append _ rest

theorem before {u after : List Char} (h : KeepsOpen cs)
    (heq : cs ++ ds = u ++ ("</a>".toList ++ after)) :
    ∃ u', u = cs ++ u' ∧ ds = u' ++ ("</a>".toList ++ after) := by
  have hclose : "</a>".toList ++ after = '<' :: ("/a>".toList ++ after) := rfl
  rw [hclose] at heq ⊢
  rcases Slice.mem_parts heq with ⟨v, hcs, hv⟩ | hbehind
  · exact absurd (hv ▸ List.prefix_append _ after) (h u v ds hcs)
  · exact hbehind

end KeepsOpen

theorem keepsOpen_of_not_mem (h : '<' ∉ cs) : KeepsOpen cs :=
  fun u v _ huv => absurd (by rw [huv]; exact List.mem_append_right u List.mem_cons_self) h

theorem keepsOpen_concat (h : ¬ "</a>".toList <:+: cs ++ ['>']) : KeepsOpen (cs ++ ['>']) := by
  intro u v rest huv hprefix
  rcases Slice.mem_parts huv with ⟨v', rfl, rfl⟩ | ⟨u', -, hlast⟩
  · have hwhole : "/a>".toList <+: v' ++ ['>'] := by
      have hword : "/a>".toList = "/a".toList ++ ['>'] := rfl
      rcases List.prefix_or_prefix_of_prefix hprefix (List.prefix_append (v' ++ ['>']) rest) with
        hpart | hpart
      · exact hpart
      · rw [hword, List.prefix_concat_iff] at hpart
        rcases hpart with heq | hshort
        · rw [hword, ← heq]
        · exact absurd (hshort.subset (List.mem_append_right v' List.mem_cons_self)) (by decide)
    obtain ⟨tail, htail⟩ := hwhole
    exact h ⟨u, tail, by simp [← htail]⟩
  · have hmem : '<' ∈ ['>'] := by
      rw [hlast]
      exact List.mem_append_right u' List.mem_cons_self
    exact absurd hmem (by decide)

theorem keepsOpen_comment (h : ¬ "</a>".toList <:+: cs) :
    KeepsOpen ("<!--".toList ++ (cs ++ "-->".toList)) := by
  have hdash : '-' ∉ "</a>".toList := by decide
  have hchars : "<!--".toList ++ (cs ++ "-->".toList) =
      "<!-".toList ++ '-' :: (cs ++ '-' :: "-".toList) ++ ['>'] := by simp
  rw [hchars]
  refine keepsOpen_concat fun hwithin => ?_
  rw [← hchars] at hwithin
  rcases @infix_append_cons _ "<!-".toList (cs ++ "-->".toList) _ hdash hwithin with hopen | hwithin
  · exact absurd hopen (by decide)
  · rcases @infix_append_cons _ cs "->".toList _ hdash hwithin with hcs | hclose
    · exact h hcs
    · exact absurd hclose (by decide)

theorem StartTag.keepsOpen (t : StartTag) : KeepsOpen t.chars := by
  have hchars : t.chars = '<' :: (t.name ++ t.attributes) ++ ['>'] := by
    simp [chars, Tag.written]
  rw [hchars]
  exact keepsOpen_concat (hchars ▸ t.unclosed)

theorem EndTag.keepsOpen (t : EndTag) (h : t.lowercased ≠ "a".toList) : KeepsOpen t.chars := by
  obtain ⟨tail, htail, hangle⟩ := t.chars_eq
  have hchars : t.chars = '<' :: '/' :: (t.name ++ t.gap) ++ ['>'] := by
    simp [chars, Tag.written]
  rw [hchars]
  refine keepsOpen_concat fun hwithin => ?_
  rw [← hchars, htail] at hwithin
  rcases List.infix_cons_iff.mp hwithin with ⟨after, hafter⟩ | hwithin
  · have hwritten : Tag.written true "a".toList [] ++ after =
        Tag.written true t.name t.gap ++ [] := by
      rw [List.append_nil]
      exact hafter.trans htail.symm
    obtain ⟨hname, -⟩ := Tag.written_append_inj (by decide) (Tag.isAlphanum_of_isTagName t.isName)
      Tag.isInside_nil t.isInside hwritten
    exact h (by rw [lowercased, ← hname]; rfl)
  · exact hangle (hwithin.subset List.mem_cons_self)

theorem Contents.keepsOpen (c : Contents) (h : c.anchors = 0) : KeepsOpen c.chars := by
  induction c with
  | nil => exact keepsOpen_of_not_mem List.not_mem_nil
  | text cs noAngle rest ih => exact (keepsOpen_of_not_mem noAngle).append (ih h)
  | comment cs unclosed rest ih => exact (keepsOpen_comment unclosed).append (ih h)
  | alone tag _ rest ih =>
    exact tag.keepsOpen.append (ih (Nat.add_eq_zero_iff.mp h).2)
  | element tag _ children closing closes rest ihchildren ih =>
    simp only [anchors, Nat.add_eq_zero_iff] at h
    obtain ⟨⟨htag, hchildren⟩, hrest⟩ := h
    have hname : closing.lowercased ≠ "a".toList := by
      rw [closes]
      intro hname
      simp [StartTag.isAnchor, hname] at htag
    exact tag.keepsOpen.append ((ihchildren hchildren).append
      ((closing.keepsOpen hname).append (ih hrest)))

theorem eq_nil_of_append_cons {before tail after : List Char} (hbefore : '<' ∉ before)
    (h : '<' :: tail = before ++ after) : before = [] := by
  cases before with
  | nil => rfl
  | cons c before =>
    cases h
    exact absurd List.mem_cons_self hbefore

theorem Contents.lone (ha : Tag.IsInside attributes) (c : Contents) (hc : c.anchors ≤ 1)
    {before after : List Char} (hbefore : '<' ∉ before)
    (h : c.chars = before ++
      (Tag.written false "a".toList attributes ++ (body ++ ("</a>".toList ++ after)))) :
    ∃ (tag : StartTag) (children : Contents), tag.name = "a".toList ∧
      tag.attributes = attributes ∧ children.chars = body ∧ children.anchors = 0 := by
  have hname : ∀ c ∈ "a".toList, c.isAlphanum = true := by decide
  have hend {rest : Contents} (hrest : rest.anchors = 0) {u : List Char} :
      rest.chars ≠ u ++ ("</a>".toList ++ after) := by
    intro heq
    rw [← List.append_nil rest.chars] at heq
    obtain ⟨u', -, hnil⟩ := (rest.keepsOpen hrest).before heq
    simp at hnil
  induction c generalizing before with
  | nil => simp [chars, Tag.written] at h
  | text cs noAngle rest ih =>
    rcases Slice.mem_parts h with ⟨after', hin, -⟩ | ⟨before', hbefore', hrest⟩
    · exact absurd (by rw [hin]; exact List.mem_append_right before List.mem_cons_self) noAngle
    · refine ih hc (fun hmem => hbefore ?_) hrest
      rw [hbefore']
      exact List.mem_append_right cs hmem
  | comment cs unclosed rest ih =>
    obtain rfl := eq_nil_of_append_cons hbefore h
    cases (List.cons.inj (List.cons.inj h).2).1
  | alone tag isAlone rest ih =>
    obtain rfl := eq_nil_of_append_cons hbefore h
    obtain ⟨hanchor, -, hrest⟩ := Tag.written_append_inj (Tag.isAlphanum_of_isTagName tag.isName)
      hname tag.isInside ha h
    have htag : tag.isAnchor = true := by simp [StartTag.isAnchor, StartTag.lowercased, hanchor]
    have hzero : rest.anchors = 0 := by simpa [anchors, htag] using hc
    exact absurd hrest (hend hzero)
  | element tag notAlone children closing closes rest _ _ =>
    obtain rfl := eq_nil_of_append_cons hbefore h
    obtain ⟨hanchor, hattributes, hbehind⟩ := Tag.written_append_inj
      (Tag.isAlphanum_of_isTagName tag.isName) hname tag.isInside ha h
    have htag : tag.isAnchor = true := by simp [StartTag.isAnchor, StartTag.lowercased, hanchor]
    have hzero : children.anchors = 0 ∧ rest.anchors = 0 := by
      simp only [anchors, htag, Bool.toNat_true] at hc
      omega
    -- the `</a>` is neither in what the anchor holds nor behind it
    obtain ⟨u, rfl, hclosing⟩ := (children.keepsOpen hzero.1).before hbehind
    rcases Slice.mem_parts hclosing with ⟨v, hv, -⟩ | ⟨u', -, hrest⟩
    · obtain ⟨tail, htail, hangle⟩ := closing.chars_eq
      have hu : u = [] := by
        cases u with
        | nil => rfl
        | cons c u =>
          rw [htail] at hv
          refine absurd ?_ hangle
          rw [(List.cons.inj hv).2]
          exact List.mem_append_right u List.mem_cons_self
      exact ⟨tag, children, hanchor, hattributes, by rw [hu, List.append_nil], hzero.1⟩
    · exact absurd hrest (hend hzero.2)

namespace Shape

theorem written_of_openingOf {tag : String} {s attributes rest : Slice}
    (h : openingOf tag s = some (attributes, rest)) :
    s.chars = Tag.written false tag.toList attributes.chars ++ rest.chars ∧
      Tag.IsInside attributes.chars := by
  obtain ⟨s₁, h₁, h⟩ := Option.bind_eq_some_iff.mp h
  obtain ⟨hends, h⟩ := unless_none_eq_some.mp h
  obtain ⟨hchars, hangle⟩ := Tag.chars_of_upToAngle h
  refine ⟨?_, fun c hc => ?_, hangle⟩
  · have hopen : ("<" : String).toList = ['<'] := rfl
    rw [Slice.expectText_eq_some h₁, hchars]
    simp [Tag.written, hopen]
  · obtain ⟨cs, hcs⟩ := List.head?_eq_some_iff.mp hc
    rw [hcs] at hchars
    simpa [Tag.endsName, hchars] using hends

variable {scheme : ColorScheme} {inner : List Char} {text url : String}
  {color : Option ColorScheme}

/-- What a link is read from: the tag of an anchor that leads to a variable, a text that is not
blank, and `</a>`. -/
structure ReadsLink (scheme : ColorScheme) (inner attributes body : List Char)
    (text url : String) (color : Option ColorScheme) : Prop where
  markup : inner = Tag.written false "a".toList attributes ++ (body ++ "</a>".toList)
  isInside : Tag.IsInside attributes
  leads : urlVariable? attributes = some url.toList
  isText : text.toList = trim body
  notBlank : trim body ≠ []
  isColor : color = own scheme ((Attribute.value? "style" attributes).bind styleColor?)

theorem link?_eq_some_iff : link? scheme inner = some (.link text url color) ↔
    ∃ attributes body, ReadsLink scheme inner attributes body text url color := by
  constructor
  · intro h
    obtain ⟨⟨attributes, body⟩, hanchor, h⟩ := Option.bind_eq_some_iff.mp h
    obtain ⟨url', hurl, h⟩ := Option.bind_eq_some_iff.mp h
    obtain ⟨hne, h⟩ := unless_none_eq_some.mp h
    obtain ⟨⟨inside, rest⟩, hopen, hanchor⟩ := Option.bind_eq_some_iff.mp hanchor
    obtain ⟨body', hclose, hparts⟩ := Option.bind_eq_some_iff.mp hanchor
    obtain ⟨hmarkup, hinside⟩ := written_of_openingOf hopen
    cases hparts
    cases h
    rw [eq_of_dropSuffix? hclose] at hmarkup
    exact ⟨inside.chars, body, hmarkup, hinside, by rw [hurl, String.toList_ofList],
      String.toList_ofList, by simpa using hne, rfl⟩
  · rintro ⟨attributes, body, rfl, hinside, hurl, htext, hne, rfl⟩
    obtain ⟨k, m, hopen⟩ := @openingOf_written "a" _ hinside 0 (body ++ "</a>".toList)
    have hanchor : anchorOnly? (Tag.written false "a".toList attributes ++
        (body ++ "</a>".toList)) = some (attributes, body) := by
      rw [anchorOnly?, hopen]
      simp only [Option.bind_eq_bind, Option.bind_some, dropSuffix?_append]
      rfl
    have hblank : text.toList.isEmpty = false := by simpa [htext] using hne
    rw [link?, hanchor]
    simp only [Option.bind_eq_bind, Option.bind_some, hurl, hblank, Bool.false_eq_true, if_false,
      ← htext, String.ofList_toList]
    rfl

theorem paragraph?_eq_link_iff {markup : List Char} (h : inner? markup = some inner) :
    paragraph? scheme markup = some (.link text url color) ↔
      ∃ attributes body, ReadsLink scheme (trim inner) attributes body text url color := by
  rw [← link?_eq_some_iff, paragraph?, h]
  simp only [Option.bind_eq_bind, Option.bind_some]
  constructor
  · intro hlink
    split at hlink
    · cases hlink
    · split at hlink
      · rename_i content hcontent
        rw [hcontent]
        exact hlink
      · split at hlink <;> cases hlink
  · intro hlink
    obtain ⟨attributes, body, hreads⟩ := link?_eq_some_iff.mp hlink
    have hgreeting : greeting? (trim inner) = none := by
      rw [hreads.markup]
      exact greeting?_eq_none_of_head (by decide) _
    rw [hgreeting, hlink]
    rfl

end Shape

structure Paragraph where
  tag : StartTag
  contents : Contents
  closing : EndTag
  isParagraph : tag.lowercased = "p".toList
  closes : closing.lowercased = tag.lowercased

namespace Paragraph

def chars (p : Paragraph) : List Char :=
  p.tag.chars ++ (p.contents.chars ++ p.closing.chars)

theorem inner?_chars (p : Paragraph) : Shape.inner? p.chars = some p.contents.chars :=
  Shape.inner?_enclosed (Tag.isAlphanum_of_isTagName p.tag.isName) p.tag.isInside.noAngle
    (Tag.isAlphanum_of_isTagName p.closing.isName) p.closing.not_mem_gap p.contents.chars

theorem link_of_lone_anchor (p : Paragraph) (scheme : ColorScheme) (text url : String)
    (color : Option ColorScheme) :
    (recognize scheme "p" p.chars = some (.link text url color) ↔
      ∃ attributes body,
        Shape.ReadsLink scheme (trim p.contents.chars) attributes body text url color) ∧
    (p.contents.anchors ≤ 1 → recognize scheme "p" p.chars = some (.link text url color) →
      ∃ (tag : StartTag) (children : Contents), tag.name = "a".toList ∧ children.anchors = 0 ∧
        Shape.ReadsLink scheme (trim p.contents.chars) tag.attributes children.chars text url
          color ∧
        ¬ "</a>".toList <:+: text.toList) := by
  have hiff : recognize scheme "p" p.chars = some (.link text url color) ↔ _ :=
    Shape.paragraph?_eq_link_iff p.inner?_chars
  refine ⟨hiff, fun hone hlink => ?_⟩
  obtain ⟨attributes, body, hreads⟩ := hiff.mp hlink
  obtain ⟨before, after, hcontents, hbefore, -⟩ := Text.exists_blanks p.contents.chars
  have hangle : '<' ∉ before := fun hmem => absurd (hbefore _ hmem) (by decide)
  rw [hreads.markup, List.append_assoc, List.append_assoc] at hcontents
  obtain ⟨tag, children, hname, rfl, rfl, hnone⟩ :=
    p.contents.lone hreads.isInside hone hangle hcontents
  refine ⟨tag, children, hname, hnone, hreads, fun hclosed => ?_⟩
  rw [hreads.isText] at hclosed
  exact (children.keepsOpen hnone).unclosed (hclosed.trans (Text.infix_trim _))

def confirmation : Paragraph where
  tag := ⟨"p".toList, " class=\"note\"".toList, by decide, ⟨by decide, by decide⟩, by decide⟩
  contents :=
    .text "\n  ".toList (by decide)
      (.element ⟨"a".toList, " href=\"\x7b\x7burl\x7d\x7d\"".toList, by decide,
          ⟨by decide, by decide⟩, by decide⟩ (by decide)
        (.text " Read ".toList (by decide)
          (.element ⟨"b".toList, [], by decide, Tag.isInside_nil, by decide⟩ (by decide)
            (.text "now".toList (by decide) .nil)
            ⟨"B".toList, " ".toList, by decide, by decide⟩ (by decide) .nil))
        ⟨"a".toList, [], by decide, List.all_nil⟩ (by decide)
        (.text "\n".toList (by decide) .nil))
  closing := ⟨"p".toList, [], by decide, List.all_nil⟩
  isParagraph := by decide
  closes := by decide

theorem link_of_lone_anchor_confirmation :
    confirmation.contents.anchors ≤ 1 ∧
      confirmation.chars = ("<p class=\"note\">\n  <a href=\"\x7b\x7burl\x7d\x7d\"> Read " ++
        "<b>now</B ></a>\n</p>").toList ∧
      recognize .blue "p" confirmation.chars = some (.link "Read <b>now</B >" "url" none) ∧
      ¬ "</a>".toList <:+: "Read <b>now</B >".toList := by
  have hone : confirmation.contents.anchors ≤ 1 := by decide
  have hlink : recognize .blue "p" confirmation.chars =
      some (.link "Read <b>now</B >" "url" none) := by
    decide +kernel
  have h := link_of_lone_anchor confirmation .blue "Read <b>now</B >" "url" none
  obtain ⟨tag, children, -, -, -, hopen⟩ := h.2 hone hlink
  exact ⟨hone, by decide, hlink, hopen⟩

theorem link_spans_anchors :
    recognize .blue "p" ("<p><a href=\"\x7b\x7bx\x7d\x7d\">A</a> and " ++
      "<a href=\"\x7b\x7by\x7d\x7d\">B</a></p>").toList =
        some (.link "A</a> and <a href=\"\x7b\x7by\x7d\x7d\">B" "x" none) := by
  decide +kernel

end Paragraph

end EmailTemplates.Source
