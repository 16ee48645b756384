import EmailTemplates.Proofs.Source.Segments
import EmailTemplates.Proofs.Text.Blank

namespace EmailTemplates.Source

open EmailTemplates.Text (Slice byteLength isBlank)

structure OpeningTag where
  name : List Char
  attributes : List Char
  isName : Tag.isTagName name = true
  setOff : ∀ c ∈ attributes.head?, isBlank c = true
  noAngles : '<' ∉ attributes ∧ '>' ∉ attributes
  notClosed : attributes.getLast? ≠ some '/'

namespace OpeningTag

def chars (t : OpeningTag) : List Char :=
  Tag.written false t.name t.attributes

def closing (t : OpeningTag) : List Char :=
  Tag.written true t.name []

def lowercased (t : OpeningTag) : List Char :=
  t.name.map Char.toLower

def isVoid (t : OpeningTag) : Bool :=
  Tag.isVoid ⟨false, t.lowercased, false⟩

def kind (t : OpeningTag) : SegmentKind :=
  .element (.ofList t.lowercased) true

theorem isInside (t : OpeningTag) : Tag.IsInside t.attributes where
  head c hc := Text.isWord_of_isBlank (t.setOff c hc)
  noAngle := t.noAngles.2

end OpeningTag

inductive Forest where
  | nil
  | text (cs : List Char) (noAngle : '<' ∉ cs) (rest : Forest)
  | void (tag : OpeningTag) (isVoid : tag.isVoid = true) (rest : Forest)
  | element (tag : OpeningTag) (notVoid : tag.isVoid = false) (children rest : Forest)

namespace Forest

def chars : Forest → List Char
  | nil => []
  | text cs _ rest => cs ++ rest.chars
  | void tag _ rest => tag.chars ++ rest.chars
  | element tag _ children rest => tag.chars ++ (children.chars ++ tag.closing) ++ rest.chars

def IsSpaced : Forest → Prop
  | nil => True
  | text cs _ rest => cs.all isBlank = true ∧ rest.IsSpaced
  | void _ _ rest => rest.IsSpaced
  | element _ _ _ rest => rest.IsSpaced

def elements (n : Nat) : Forest → List Segment
  | nil => []
  | text cs _ rest => rest.elements (n + byteLength cs)
  | void tag _ rest => ⟨tag.kind, ⟨n, tag.chars⟩⟩ :: rest.elements (n + byteLength tag.chars)
  | element tag _ children rest =>
    let cs := tag.chars ++ (children.chars ++ tag.closing)
    ⟨tag.kind, ⟨n, cs⟩⟩ :: rest.elements (n + byteLength cs)

end Forest

namespace Segment

theorem skips_forest {name : List Char} (hname : Tag.isVoid ⟨false, name, false⟩ = false)
    (f : Forest) : Skips name f.chars := by
  induction f with
  | nil => exact skips_nil
  | text cs noAngle rest ih => exact (skips_of_not_mem noAngle).append ih
  | void tag isVoid rest ih =>
    -- a void tag is none of the tags that are counted
    refine (skips_written tag.isName tag.isInside false ?_).append ih
    rintro rfl
    exact Bool.false_ne_true (hname.symm.trans isVoid)
  | element tag notVoid children rest ihchildren ih =>
    exact (skips_balanced tag.isName tag.isInside tag.notClosed ihchildren.skipsTo).append ih

theorem next_tag_void {tag : OpeningTag} (h : tag.isVoid = true) (n : Nat) (rest : List Char) :
    ∃ m, next ⟨n, tag.chars ++ rest⟩ = (tag.kind, ⟨m, rest⟩) :=
  next_void tag.isName tag.isInside tag.notClosed h n rest

theorem next_tag_element {tag : OpeningTag} (h : tag.isVoid = false) (children : Forest) (n : Nat)
    (rest : List Char) :
    ∃ m, next ⟨n, tag.chars ++ (children.chars ++ tag.closing) ++ rest⟩ =
      (tag.kind, ⟨m, rest⟩) := by
  rw [List.append_assoc, List.append_assoc]
  exact next_element tag.isName tag.isInside tag.notClosed h (skips_forest h children).skipsTo n
    rest

end Segment

theorem segments_tag {cs rest : List Char} {kind : SegmentKind} {n m : Nat}
    (hopen : cs.head? = some '<') (h : Segment.next ⟨n, cs ++ rest⟩ = (kind, ⟨m, rest⟩)) :
    segments ⟨n, cs ++ rest⟩ = ⟨kind, ⟨n, cs⟩⟩ :: segments ⟨n + byteLength cs, rest⟩ := by
  obtain ⟨cs, rfl⟩ := List.head?_eq_some_iff.mp hopen
  rw [List.cons_append] at h ⊢
  obtain ⟨taken, rest', m', hchars, -, hnext, hsegments⟩ :=
    exists_segments_cons (by decide : isBlank '<' = false) n (cs ++ rest)
  rw [h] at hnext hsegments
  cases hnext
  obtain rfl : '<' :: cs = taken := List.append_cancel_right hchars
  exact hsegments

theorem segments_forest (f : Forest) (h : f.IsSpaced) (n : Nat) :
    segments ⟨n, f.chars⟩ = f.elements n := by
  induction f generalizing n with
  | nil => exact segments_of_blank rfl
  | text cs noAngle rest ih =>
    exact (segments_blanks h.1 n rest.chars).trans (ih h.2 _)
  | void tag isVoid rest ih =>
    obtain ⟨m, hm⟩ := Segment.next_tag_void isVoid n rest.chars
    exact (segments_tag rfl hm).trans (congrArg _ (ih h _))
  | element tag notVoid children rest _ ih =>
    obtain ⟨m, hm⟩ := Segment.next_tag_element notVoid children n rest.chars
    exact (segments_tag rfl hm).trans (congrArg _ (ih h _))

def OpeningTag.plain (name : String) (isName : Tag.isTagName name.toList = true) : OpeningTag where
  name := name.toList
  attributes := []
  isName := isName
  setOff := by simp
  noAngles := by simp
  notClosed := by simp

def Forest.nested : Forest :=
  .element ⟨"DIV".toList, " id=a".toList, by decide, by decide, by decide, by decide⟩ rfl
    (.element (.plain "div" (by decide)) rfl (.text "a > b".toList (by decide) .nil)
      (.void (.plain "br" (by decide)) rfl .nil))
    (.text "\n ".toList (by decide) (.void (.plain "hr" (by decide)) rfl .nil))

theorem segments_forest_nested : Forest.nested.IsSpaced ∧
    segments (.ofString "<DIV id=a><div>a > b</div><br></DIV>\n <hr>") =
      [⟨.element "div" true, ⟨0, "<DIV id=a><div>a > b</div><br></DIV>".toList⟩⟩,
        ⟨.element "hr" true, ⟨38, "<hr>".toList⟩⟩] := by
  have h : Forest.nested.IsSpaced := ⟨by decide, trivial⟩
  exact ⟨h, segments_forest Forest.nested h 0⟩

end EmailTemplates.Source
