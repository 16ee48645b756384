import EmailTemplates.Proofs.Source.Nested

namespace EmailTemplates.Source.Shape

open Design
open EmailTemplates.Text (Slice byteLength trim isBlank)
open Segment (IsTag)
open Markup (text element opening container line fixed reference authored tagOf)

variable {tag : String} {cs rest : List Char}

theorem withoutTags_cons {c : Char} (hc : c ≠ '<') (cs : List Char) :
    withoutTags (c :: cs) = c :: withoutTags cs := by
  rw [withoutTags]
  simp only [hc, false_and, if_false]

theorem withoutTags_written {t inside : List Char} (hne : t ≠ []) (ht : '>' ∉ t)
    (hi : '>' ∉ inside) (closing : Bool) (rest : List Char) :
    withoutTags (Tag.written closing t inside ++ rest) = withoutTags rest := by
  have hne' : (if closing then ['/'] else []) ++ (t ++ inside) ≠ [] := by simp [hne]
  have hin : ∀ c ∈ (if closing then ['/'] else []) ++ (t ++ inside), (c != '>') = true := by
    intro c hc
    rw [bne_iff_ne]
    rintro rfl
    simp only [List.mem_append] at hc
    rcases hc with hc | hc | hc
    · cases closing <;> simp at hc
    · exact ht hc
    · exact hi hc
  have hr : ∀ c ∈ ('>' :: rest).head?, (c != '>') = false := by simp
  have hchars : Tag.written closing t inside ++ rest =
      '<' :: ((if closing then ['/'] else []) ++ (t ++ inside) ++ '>' :: rest) := by
    simp [Tag.written]
  rw [hchars, withoutTags, Slice.takeWhile_append hin hr, Slice.dropWhile_append hin hr]
  simp [hne']

def tableAttributes : List Attribute :=
  Attribute.presentation ++ [.fixed "style" ("margin: " ++ spaceLg ++ " auto;")]

def cellAttributes (palette : Palette) : List Attribute :=
  [.fixed "align" "center", .fixed "bgcolor" palette.primary,
   .fixed "style" ("border-radius: " ++ radius ++ ";")]

theorem writable_tableAttributes : ∀ a ∈ tableAttributes, a.Writable := by
  refine List.forall_mem_append.mpr ⟨Attribute.writable_presentation, ?_⟩
  refine List.forall_mem_singleton.mpr (Attribute.writable_fixed (by decide) (by decide) ?_)
  simp only [Text.plain_append]
  and_intros <;> exact Text.plain_ofList _ (by decide)

theorem writable_cellAttributes {palette : Palette} (hp : palette.Plain) :
    ∀ a ∈ cellAttributes palette, a.Writable := by
  simp only [cellAttributes, List.forall_mem_cons, List.not_mem_nil, IsEmpty.forall_iff,
    implies_true, and_true]
  refine ⟨?_, Attribute.writable_fixed (by decide) (by decide) hp.primary, ?_⟩
  · exact Attribute.writable_fixed (by decide) (by decide) (Text.plain_ofList _ (by decide))
  · refine Attribute.writable_fixed (by decide) (by decide) ?_
    simp only [Text.plain_append]
    and_intros <;> exact Text.plain_ofList _ (by decide)

def beforeAnchor (palette : Palette) : List Char :=
  Tag.written false "table".toList (tagOf tableAttributes) ++ '\n' ::
    (Tag.written false "tr".toList [] ++ '\n' ::
      (Tag.written false "td".toList (tagOf (cellAttributes palette)) ++ ['\n']))

def afterAnchor : List Char :=
  '\n' :: (Tag.written true "td".toList [] ++ '\n' ::
    (Tag.written true "tr".toList [] ++ '\n' :: Tag.written true "table".toList []))

def buttonElement (palette : Palette) (label url : String) : Markup :=
  element "table" tableAttributes (fixed "\n" ++ container "tr" []
    (container "td" (cellAttributes palette)
      (line (Fragment.anchor url (Fragment.buttonAnchor palette) label))))

theorem text_container (tag : String) (attributes : List Attribute) (lines : Markup) :
    text (container tag attributes lines) =
      Tag.written false tag.toList (tagOf attributes) ++ '\n' ::
        (text lines ++ (Tag.written true tag.toList [] ++ ['\n'])) := by
  rw [container, Markup.text_append, Markup.text_append, Markup.text_line, Markup.text_line,
    Markup.text_opening, Markup.text_closing]
  simp

theorem text_buttonElement (palette : Palette) (label url : String) :
    text (buttonElement palette label url) = beforeAnchor palette ++
      (text (Fragment.anchor url (Fragment.buttonAnchor palette) label) ++ afterAnchor) := by
  have hbreak : ("\n" : String).toList = ['\n'] := rfl
  have hnil : tagOf [] = [] := rfl
  rw [buttonElement, Markup.text_element, Markup.text_append, Markup.text_fixed, hbreak,
    text_container, text_container, Markup.text_line, hnil]
  simp [beforeAnchor, afterAnchor]

theorem withoutTags_around {palette : Palette} (hp : palette.Plain) :
    withoutTags (beforeAnchor palette ++ afterAnchor) = ['\n', '\n', '\n', '\n', '\n', '\n'] := by
  have htable := (Attribute.isInside_tagOf writable_tableAttributes).noAngle
  have hcell := (Attribute.isInside_tagOf (writable_cellAttributes hp)).noAngle
  have hbreak (cs : List Char) : withoutTags ('\n' :: cs) = '\n' :: withoutTags cs :=
    withoutTags_cons (by decide) cs
  have hnil : withoutTags [] = [] := by rw [withoutTags]
  have hlast := withoutTags_written (t := "table".toList) (by decide) (by decide)
    List.not_mem_nil true []
  rw [List.append_nil] at hlast
  simp only [beforeAnchor, afterAnchor, List.append_assoc, List.cons_append, List.nil_append]
  rw [withoutTags_written (by decide) (by decide) htable, hbreak,
    withoutTags_written (by decide) (by decide) List.not_mem_nil, hbreak,
    withoutTags_written (by decide) (by decide) hcell, hbreak, hbreak,
    withoutTags_written (by decide) (by decide) List.not_mem_nil, hbreak,
    withoutTags_written (by decide) (by decide) List.not_mem_nil, hbreak, hlast, hnil]

theorem not_mem_fixed {name value : String} (h : Text.Plain value) :
    '<' ∉ (Attribute.fixed name value).value.text := by
  rw [Attribute.fixed, Markup.text_fixed]
  exact h.not_mem (by decide)

theorem not_mem_tableAttributes : '<' ∉ tagOf tableAttributes := by
  refine not_mem_tagOf writable_tableAttributes ?_
  simp only [tableAttributes, Attribute.presentation, List.forall_mem_append, List.forall_mem_cons,
    List.not_mem_nil, IsEmpty.forall_iff, implies_true, and_true]
  refine ⟨⟨?_, ?_, ?_, ?_⟩, ?_⟩
  iterate 4 exact not_mem_fixed (Text.plain_ofList _ (by decide))
  refine not_mem_fixed ?_
  simp only [Text.plain_append]
  and_intros <;> exact Text.plain_ofList _ (by decide)

theorem not_mem_cellAttributes {palette : Palette} (hp : palette.Plain) :
    '<' ∉ tagOf (cellAttributes palette) := by
  refine not_mem_tagOf (writable_cellAttributes hp) ?_
  simp only [cellAttributes, List.forall_mem_cons, List.not_mem_nil, IsEmpty.forall_iff,
    implies_true, and_true]
  refine ⟨not_mem_fixed (Text.plain_ofList _ (by decide)), not_mem_fixed hp.primary, ?_⟩
  refine not_mem_fixed ?_
  simp only [Text.plain_append]
  and_intros <;> exact Text.plain_ofList _ (by decide)

theorem passes_written {t inside : List Char} {closing : Bool}
    (h : ¬ '<' :: tag.toList <+: Tag.written closing t inside ++ rest) (ht : '<' ∉ t)
    (hi : '<' ∉ inside) : Slice.Passes (elementOf tag) (Tag.written closing t inside) rest := by
  refine passes_elementOf_cons h ?_
  cases closing <;> simp [ht, hi]

theorem passes_break (h : Slice.Passes (elementOf tag) cs rest) :
    Slice.Passes (elementOf tag) ('\n' :: cs) rest :=
  ⟨fun n => elementOf_eq_none (by simp) n, h⟩

theorem passes_beforeAnchor {palette : Palette} (hp : palette.Plain) (rest : List Char) :
    Slice.Passes (elementOf "a") (beforeAnchor palette) rest := by
  have hno (t inside more : List Char) (ht : t.head? = some 't') :
      ¬ '<' :: "a".toList <+: Tag.written false t inside ++ more := by
    obtain ⟨t', rfl⟩ := List.head?_eq_some_iff.mp ht
    simp [Tag.written]
  have hcell : Slice.Passes (elementOf "a")
      (Tag.written false "td".toList (tagOf (cellAttributes palette)) ++ ['\n']) rest :=
    Slice.passes_append.mpr ⟨passes_written (hno _ _ _ rfl) (by decide) (not_mem_cellAttributes hp),
      passes_break trivial⟩
  refine Slice.passes_append.mpr
    ⟨passes_written (hno _ _ _ rfl) (by decide) not_mem_tableAttributes, passes_break ?_⟩
  exact Slice.passes_append.mpr
    ⟨passes_written (hno _ _ _ rfl) (by decide) List.not_mem_nil, passes_break hcell⟩

theorem passes_afterAnchor : Slice.Passes (elementOf "a") afterAnchor [] := by
  have hwritten {t : List Char} (ht : '<' ∉ t) (more : List Char) :
      Slice.Passes (elementOf "a") (Tag.written true t []) more :=
    passes_written (by simp [Tag.written]) ht List.not_mem_nil
  refine passes_break (Slice.passes_append.mpr ⟨hwritten (by decide) _, passes_break ?_⟩)
  exact Slice.passes_append.mpr ⟨hwritten (by decide) _, passes_break (hwritten (by decide) [])⟩

theorem find_anchor {label url : String} (h : Whole "a" label)
    (hu : Variable.isValidName url = true) {palette : Palette} (hp : palette.Plain) :
    ∃ start k l m, Slice.find (elementOf "a") ⟨0, text (buttonElement palette label url)⟩ =
        some (start, (⟨k, tagOf (anchorAttributes url (Fragment.buttonAnchor palette))⟩,
          ⟨l, label.toList⟩), ⟨m, afterAnchor⟩) ∧
      ((⟨0, text (buttonElement palette label url)⟩ : Slice).before start).chars =
        beforeAnchor palette := by
  have hs := Fragment.plain_buttonAnchor hp
  have hclose : ("</a>" : String).toList = Tag.written true "a".toList [] := rfl
  have hchars : text (buttonElement palette label url) = beforeAnchor palette ++
      (Tag.written false "a".toList (tagOf (anchorAttributes url (Fragment.buttonAnchor palette))) ++
        (label.toList ++ (Tag.written true "a".toList [] ++ afterAnchor))) := by
    rw [text_buttonElement, text_anchor, hclose, List.append_assoc, List.append_assoc]
  obtain ⟨k, l, m, hread⟩ := @elementOf_written "a" afterAnchor _ _
    (Attribute.isInside_tagOf (writable_anchorAttributes hu hs))
    (by decide) h.unclosed (0 + byteLength (beforeAnchor palette))
  have hfind := (Slice.find_append (passes_beforeAnchor hp _) 0).trans (Slice.find_of_some hread)
  rw [hchars]
  exact ⟨_, k, l, m, hfind, congrArg Slice.chars (Slice.before_append _ _ _ _)⟩

theorem bgcolor_buttonElement (drawn : ColorScheme) (label url : String) :
    Source.Attribute.value? "bgcolor" (text (buttonElement drawn.palette label url)) =
      some drawn.palette.primary.toList := by
  have hp := drawn.plain_palette
  have htag {t : List Char} (ht : ∀ c ∈ t, c.isAlphanum = true) {attributes : List Attribute}
      (ha : ∀ a ∈ attributes, a.Writable) (n : Nat) (cs : List Char) :
      ∃ m, Source.Attribute.pairs ⟨n, Tag.written false t (tagOf attributes) ++ '\n' :: cs⟩ =
        attributes.map Attribute.pair ++ Source.Attribute.pairs ⟨m, cs⟩ := by
    obtain ⟨k, hk⟩ := Attribute.pairs_tag ht (Attribute.isWritable_pairs ha) n ('\n' :: cs)
    obtain ⟨m, hm⟩ := Attribute.pairs_of_none fun j => Attribute.read_eq_none_of_head
      (c := '\n') (by decide) j cs
    exact ⟨m, hk.trans (congrArg (_ ++ ·) hm)⟩
  generalize hrest : text (Fragment.anchor url (Fragment.buttonAnchor drawn.palette) label) ++
    afterAnchor = rest
  have hchars : text (buttonElement drawn.palette label url) =
      Tag.written false "table".toList (tagOf tableAttributes) ++ '\n' ::
        (Tag.written false "tr".toList (tagOf []) ++ '\n' ::
          (Tag.written false "td".toList (tagOf (cellAttributes drawn.palette)) ++ '\n' :: rest)) := by
    rw [text_buttonElement, hrest]
    simp [beforeAnchor, tagOf, Attribute.written]
  obtain ⟨k, hk⟩ := htag (t := "table".toList) (by decide) writable_tableAttributes 0
    (Tag.written false "tr".toList (tagOf []) ++ '\n' ::
      (Tag.written false "td".toList (tagOf (cellAttributes drawn.palette)) ++ '\n' :: rest))
  obtain ⟨l, hl⟩ := @htag "tr".toList (by decide) [] (by simp) k
    (Tag.written false "td".toList (tagOf (cellAttributes drawn.palette)) ++ '\n' :: rest)
  obtain ⟨m, hm⟩ := htag (t := "td".toList) (by decide) (writable_cellAttributes hp) l rest
  have hpairs : Source.Attribute.pairs ⟨0, text (buttonElement drawn.palette label url)⟩ =
      (tableAttributes ++ cellAttributes drawn.palette).map Attribute.pair ++
        Source.Attribute.pairs ⟨m, rest⟩ := by
    rw [hchars, hk, hl, hm, List.map_nil, List.nil_append, List.map_append, List.append_assoc]
  have hfind : (tableAttributes ++ cellAttributes drawn.palette).find? (isNamed "bgcolor") =
      some (.fixed "bgcolor" drawn.palette.primary) := by
    simp [tableAttributes, cellAttributes, Attribute.presentation, isNamed, Attribute.fixed]
  have hpair : ((tableAttributes ++ cellAttributes drawn.palette).map Attribute.pair).find?
      (fun p => p.1.map Char.toLower == "bgcolor".toList) =
        some (Attribute.fixed "bgcolor" drawn.palette.primary).pair := by
    rw [List.find?_map]
    exact congrArg (Option.map _) hfind
  rw [Attribute.value?_of_pairs hpairs hpair]
  exact congrArg some (Markup.text_fixed _)

theorem recognize_button {label url : String} (h : Whole "a" label)
    (hu : Variable.isValidName url = true) (scheme drawn : ColorScheme) :
    recognize scheme "table" (text (buttonElement drawn.palette label url)) =
      some (.button label url ((some drawn).filter (· ≠ scheme))) := by
  have hp := drawn.plain_palette
  have hne : label.toList.isEmpty = false := by simpa using toList_ne_nil h.toTrimmed
  obtain ⟨start, k, l, m, hfind, hbefore⟩ := find_anchor h hu hp
  have hnone : Slice.find (elementOf "a") ⟨m, afterAnchor⟩ = none :=
    Slice.find_eq_none passes_afterAnchor m fun _ => rfl
  have hblank : (withoutSpaces (withoutTags (beforeAnchor drawn.palette ++ afterAnchor))).all
      isBlank = true := by
    rw [withoutTags_around hp]
    decide
  change button? scheme _ = _
  rw [button?, hfind]
  simp only [Option.bind_eq_bind, Option.bind_some, hnone, Option.isSome_none, Bool.false_eq_true,
    if_false, hbefore, hblank, Bool.not_true, urlVariable?_anchor hu
      (Fragment.plain_buttonAnchor hp), trim_of_trimmed h.toTrimmed, hne, bgcolor_buttonElement,
    own_primary, String.ofList_toList]
  rfl

end EmailTemplates.Source.Shape
