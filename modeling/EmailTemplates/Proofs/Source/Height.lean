import EmailTemplates.Proofs.Source.Carried
import EmailTemplates.Proofs.Source.Keyword
import EmailTemplates.Proofs.Source.Shape

namespace EmailTemplates.Source.Shape

open EmailTemplates.Text (Slice byteLength trim isBlank)

variable {cs rest digits gap : List Char}

theorem dropPrefix?_append_cons {word : String} {c : Char} (h : c ∉ word.toList)
    (cs ds : List Char) :
    dropPrefix? word (cs ++ c :: ds) = (dropPrefix? word cs).map (· ++ c :: ds) := by
  by_cases hp : word.toList <+: cs
  · obtain ⟨tail, rfl⟩ := hp
    rw [List.append_assoc, dropPrefix?_append, dropPrefix?_append]
    rfl
  · have hno : ¬ word.toList <+: cs ++ c :: ds := mt (prefix_of_append_cons h) hp
    have hnone {es : List Char} (h : ¬ word.toList <+: es) : dropPrefix? word es = none := by
      rw [dropPrefix?, if_neg (mt List.isPrefixOf_iff_prefix.mp h)]
    rw [hnone hp, hnone hno]
    rfl

theorem pixels?_append_semicolon (cs rest : List Char) :
    pixels? (cs ++ ';' :: rest) = pixels? cs := by
  have hword : ';' ∉ ("height:" : String).toList := by decide
  have hunit : ';' ∉ ("px" : String).toList := by decide
  have hblank : isBlank ';' = false := by decide
  have hdigit : Text.isDigit ';' = false := by decide
  rw [pixels?, pixels?, dropPrefix?_append_cons hword]
  cases hbehind : dropPrefix? "height:" cs with
  | none => rfl
  | some behind =>
    simp only [Option.map_some, Option.bind_eq_bind, Option.bind_some,
      Slice.dropWhile_append_cons hblank, Slice.takeWhile_append_cons hdigit,
      Slice.dropWhile_append_cons hdigit, dropPrefix?_append_cons hunit, Option.map_map]
    rfl

theorem heightDigits?_cons (c : Char) (cs : List Char) :
    heightDigits? (c :: cs) = (pixels? (c :: cs)).or (heightDigits? cs) := by
  rw [heightDigits?]
  cases pixels? (c :: cs) <;> rfl

theorem heightDigits?_append_semicolon (cs rest : List Char) :
    heightDigits? (cs ++ ';' :: rest) = (heightDigits? cs).or (heightDigits? rest) := by
  induction cs with
  | nil =>
    have hnone : pixels? (';' :: rest) = none := pixels?_append_semicolon [] rest
    rw [List.nil_append, heightDigits?_cons, hnone]
    rfl
  | cons c cs ih =>
    have hpixels := pixels?_append_semicolon (c :: cs) rest
    rw [List.cons_append] at hpixels ⊢
    rw [heightDigits?_cons, hpixels, ih, heightDigits?_cons, Option.or_assoc]

theorem heightDigits?_intercalate (pieces : List (List Char)) :
    heightDigits? (List.intercalate [';'] pieces) = pieces.findSome? heightDigits? := by
  induction pieces with
  | nil => rfl
  | cons piece pieces ih =>
    cases pieces with
    | nil => cases h : heightDigits? piece <;> simp [h]
    | cons next pieces =>
      rw [List.intercalate_cons_cons, List.append_assoc, List.singleton_append,
        heightDigits?_append_semicolon, ih]
      cases h : heightDigits? piece <;> simp [List.findSome?_cons, h]

def GivesPixels (cs digits rest : List Char) : Prop :=
  ∃ gap, cs = "height:".toList ++ (gap ++ (digits ++ ("px".toList ++ rest))) ∧
    (∀ c ∈ gap, isBlank c = true) ∧ digits ≠ [] ∧ ∀ c ∈ digits, Text.isDigit c = true

theorem pixels?_of_givesPixels (h : GivesPixels cs digits rest) : pixels? cs = some digits := by
  obtain ⟨gap, rfl, hgap, hne, hdigits⟩ := h
  exact pixels?_append hgap hne hdigits rest

theorem givesPixels_of_pixels? (h : pixels? cs = some digits) :
    ∃ rest, GivesPixels cs digits rest := by
  obtain ⟨behind, hbehind, h⟩ := Option.bind_eq_some_iff.mp h
  dsimp only at h
  split at h
  · cases h
  · rename_i hne
    obtain ⟨rest, hrest, rfl⟩ := Option.map_eq_some_iff.mp h
    refine ⟨rest, behind.takeWhile isBlank, ?_, fun c hc => List.mem_takeWhile_imp hc, hne,
      fun c hc => List.mem_takeWhile_imp hc⟩
    rw [← eq_of_dropPrefix? hrest, List.takeWhile_append_dropWhile,
      List.takeWhile_append_dropWhile]
    exact eq_of_dropPrefix? hbehind

def GivesNone (cs : List Char) : Prop :=
  ∀ given, given <:+ cs → ∀ digits rest, ¬ GivesPixels given digits rest

theorem heightDigits?_eq_none_iff : heightDigits? cs = none ↔ GivesNone cs := by
  induction cs with
  | nil =>
    refine ⟨fun _ given hgiven digits rest => ?_, fun _ => rfl⟩
    rw [List.suffix_nil.mp hgiven]
    rintro ⟨gap, heq, -⟩
    cases heq
  | cons c cs ih =>
    rw [heightDigits?_cons, Option.or_eq_none_iff, ih]
    constructor
    · rintro ⟨hpixels, hcs⟩ given hgiven digits rest hgives
      rcases List.suffix_cons_iff.mp hgiven with rfl | hgiven
      · rw [pixels?_of_givesPixels hgives] at hpixels
        cases hpixels
      · exact hcs given hgiven digits rest hgives
    · intro h
      refine ⟨?_, fun given hgiven => h given (hgiven.trans (List.suffix_cons c cs))⟩
      cases hpixels : pixels? (c :: cs) with
      | none => rfl
      | some digits =>
        obtain ⟨rest, hgives⟩ := givesPixels_of_pixels? hpixels
        exact absurd hgives (h _ List.suffix_rfl digits rest)

def Declares (property value piece : List Char) : Prop :=
  ∃ indent given, piece = indent ++ (property ++ ':' :: given) ∧
    (∀ c ∈ indent, isBlank c = true) ∧ trim given = value

theorem heightDigits?_of_declares {n : Nat} {piece : List Char}
    (h : Declares "height".toList (n.repr.toList ++ "px".toList) piece) :
    heightDigits? piece = some n.repr.toList := by
  obtain ⟨indent, given, rfl, hindent, hgiven⟩ := h
  obtain ⟨gap, rest, hparts, hgap, -⟩ := Text.exists_blanks given
  have hword : "height:".toList = "height".toList ++ [':'] := rfl
  have hpixels : pixels? ("height".toList ++ ':' :: given) = some n.repr.toList := by
    have hchars : "height".toList ++ ':' :: given =
        "height:".toList ++ (gap ++ (n.repr.toList ++ ("px".toList ++ rest))) := by
      rw [hparts, hgiven, hword]
      simp
    rw [hchars, pixels?_repr hgap]
  induction indent with
  | nil =>
    obtain ⟨c, cs, hcs⟩ : ∃ c cs, "height".toList ++ ':' :: given = c :: cs := ⟨_, _, rfl⟩
    rw [hcs] at hpixels
    rw [List.nil_append, hcs, heightDigits?_cons, hpixels]
    rfl
  | cons b indent ih =>
    obtain ⟨hb, hindent⟩ := List.forall_mem_cons.mp hindent
    have hnone : pixels? (b :: (indent ++ ("height".toList ++ ':' :: given))) = none := by
      cases hp : pixels? (b :: (indent ++ ("height".toList ++ ':' :: given))) with
      | none => rfl
      | some digits =>
        obtain ⟨rest, gap, heq, -⟩ := givesPixels_of_pixels? hp
        obtain rfl : b = 'h' := Option.some.inj (congrArg List.head? heq)
        exact absurd hb (by decide)
    rw [List.cons_append, heightDigits?_cons, hnone, ih hindent]
    rfl

structure EmptyElement (style : List Char) where
  name : List Char
  inside : List Char
  content : List Char
  closing : List Char
  gap : List Char
  isName : Tag.isTagName name = true
  isDiv : name.map Char.toLower = "div".toList
  isInside : Tag.IsInside inside
  hasStyle : Attribute.Carries "style" style inside
  isEmpty : trim content = [] ∨ trim content = "&nbsp;".toList
  isClosing : Tag.isTagName closing = true
  isGap : gap.all isBlank = true

namespace EmptyElement

variable {style : List Char}

def chars (e : EmptyElement style) : List Char :=
  Tag.written false e.name e.inside ++ (e.content ++ Tag.written true e.closing e.gap)

theorem inner?_chars (e : EmptyElement style) : inner? e.chars = some e.content := by
  have hgap : '<' ∉ e.gap := fun hmem => absurd (List.all_eq_true.mp e.isGap _ hmem) (by decide)
  exact inner?_enclosed (Tag.isAlphanum_of_isTagName e.isName) e.isInside.noAngle
    (Tag.isAlphanum_of_isTagName e.isClosing) hgap e.content

theorem style_chars (e : EmptyElement style) :
    Attribute.value? "style" (openingTag e.chars) = some style := by
  have hname := Tag.isAlphanum_of_isTagName e.isName
  rw [chars, openingTag_written hname e.isInside.noAngle]
  exact e.hasStyle.value?_written hname

theorem recognize_chars (e : EmptyElement style) (scheme : ColorScheme) :
    recognize scheme "div" e.chars =
      (((heightDigits? style).bind natOfDigits?).filter (· ≠ 0)).map .spacer := by
  have hempty : ¬ (trim e.content ≠ "&nbsp;".toList ∧ trim e.content ≠ []) := by
    rintro ⟨hspace, hnil⟩
    exact e.isEmpty.elim hnil hspace
  change spacer? e.chars = _
  rw [spacer?, e.inner?_chars]
  simp only [Option.bind_eq_bind, Option.bind_some, hempty, if_false, e.style_chars]
  cases heightDigits? style with
  | none => rfl
  | some digits =>
    cases hn : natOfDigits? digits with
    | none => simp [hn]
    | some n => by_cases h0 : n = 0 <;> simp [hn, h0]

end EmptyElement

theorem spacer_keeps_height {before after : List (List Char)} {piece : List Char} {n : UInt32}
    (e : EmptyElement (List.intercalate [';'] (before ++ piece :: after))) (hn : n ≠ 0)
    (hpiece : Declares "height".toList (n.toNat.repr.toList ++ "px".toList) piece)
    (scheme : ColorScheme) :
    ((∀ earlier ∈ before, GivesNone earlier) →
      recognize scheme "div" e.chars = some (.spacer n)) ∧
    (recognize scheme "div" e.chars = some (.spacer n) ↔
      ∀ digits ∈ before.findSome? heightDigits?, natOfDigits? digits = some n) := by
  have hfound : heightDigits? (List.intercalate [';'] (before ++ piece :: after)) =
      (before.findSome? heightDigits?).or (some n.toNat.repr.toList) := by
    rw [heightDigits?_intercalate, List.findSome?_append, List.findSome?_cons,
      heightDigits?_of_declares hpiece]
  have hiff : recognize scheme "div" e.chars = some (.spacer n) ↔
      ∀ digits ∈ before.findSome? heightDigits?, natOfDigits? digits = some n := by
    rw [e.recognize_chars, hfound]
    cases hearlier : before.findSome? heightDigits? with
    | none =>
      rw [Option.none_or, Option.bind_some, natOfDigits?_repr]
      simp [hn]
    | some digits => simp [hn]
  refine ⟨fun hnone => hiff.mpr fun digits hdigits => ?_, hiff⟩
  obtain ⟨earlier, hmem, hgives⟩ := List.exists_of_findSome?_eq_some hdigits
  rw [heightDigits?_eq_none_iff.mpr (hnone earlier hmem)] at hgives
  cases hgives

def styleOfLines : List Char :=
  List.intercalate [';'] (["color: red".toList, " line-height: 1.5".toList] ++
    " height: 30px".toList :: [" line-height: 20px".toList, []])

def spacerWithLines : EmptyElement styleOfLines where
  name := "Div".toList
  inside := " hidden ".toList ++ ((Attribute.Assignment.mk "class".toList [] [] "gap".toList
    (by decide) (by decide) List.all_nil List.all_nil (by decide)).chars ++ (" ".toList ++
      ((Attribute.Assignment.mk "style".toList [] [] styleOfLines (by decide) (by decide)
        List.all_nil List.all_nil (by decide)).chars ++ [])))
  content := "&nbsp;".toList
  closing := "DiV".toList
  gap := []
  isName := by decide
  isDiv := by decide
  isInside := ⟨by decide, by decide⟩
  hasStyle := .later _ ⟨by decide, ' ', by decide, by decide⟩ (by decide)
    (.here _ [] ⟨by decide, ' ', by decide, by decide⟩ rfl rfl)
  isEmpty := .inr (by decide)
  isClosing := by decide
  isGap := List.all_nil

theorem spacer_keeps_height_with_lines :
    (∀ earlier ∈ ["color: red".toList, " line-height: 1.5".toList], GivesNone earlier) ∧
      Declares "height".toList ((30 : UInt32).toNat.repr.toList ++ "px".toList)
        " height: 30px".toList ∧
      recognize .blue "div" ("<Div hidden class=\"gap\" style=\"color: red; line-height: 1.5;" ++
        " height: 30px; line-height: 20px;\">&nbsp;</DiV>").toList = some (.spacer 30) := by
  have hbefore : ∀ earlier ∈ ["color: red".toList, " line-height: 1.5".toList],
      GivesNone earlier := by
    simp only [List.forall_mem_cons, ← heightDigits?_eq_none_iff]
    decide
  have hpiece : Declares "height".toList ((30 : UInt32).toNat.repr.toList ++ "px".toList)
      " height: 30px".toList := ⟨[' '], " 30px".toList, by decide, by decide, by decide⟩
  have h := spacer_keeps_height spacerWithLines (by decide) hpiece .blue
  exact ⟨hbefore, hpiece, h.1 hbefore⟩

theorem spacer_takes_line_height :
    recognize .blue "div" "<div style=\"line-height: 20px; height: 30px;\">&nbsp;</div>".toList =
      some (.spacer 20) := by
  decide +kernel

end EmailTemplates.Source.Shape
