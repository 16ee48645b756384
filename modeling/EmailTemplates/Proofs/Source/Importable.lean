import EmailTemplates.Proofs.Source.Body
import EmailTemplates.Proofs.Source.InterfaceName

namespace EmailTemplates

open Text (isBlank isNameChar)

namespace Source

variable {cs ds : List Char} {c : Char}

def keywords : List (List Char) :=
  ["export".toList, "renderContent".toList]

def Free (cs : List Char) : Prop :=
  ∀ w ∈ keywords, ¬ w <:+: cs

instance (cs : List Char) : Decidable (Free cs) :=
  inferInstanceAs (Decidable (∀ w ∈ keywords, ¬ w <:+: cs))

theorem Free.unexported (h : Free cs) : ¬ "export".toList <:+: cs :=
  h _ (by simp [keywords])

theorem Free.absent (h : Free cs) {words : List String} (hwords : words ∈ phrases) :
    Absent words cs := by
  have hword : ∀ words ∈ phrases, ∃ w ∈ words, w.toList ∈ keywords := by decide
  obtain ⟨w, hw, hkeyword⟩ := hword words hwords
  exact absent_of_not_infix hw (h _ hkeyword)

end Source

namespace Template

open Source

def strings (t : Template) : List String :=
  [t.slug, t.name, t.subject, t.header.title] ++ t.description.toList ++ t.preheader.toList ++
    t.context.toList ++ t.header.emoji.toList ++ t.header.subtitle.toList ++
    t.footer.note.toList ++ t.declarations.map (·.name) ++
    t.blocks.flatMap fun b => b.id :: b.content.strings

def headStrings (t : Template) : List String :=
  [t.name, t.subject, t.header.title] ++ t.description.toList ++ t.preheader.toList ++
    t.context.toList ++ t.header.emoji.toList ++ t.header.subtitle.toList ++ t.footer.note.toList

def texts (t : Template) : List String :=
  t.headStrings ++ t.blocks.flatMap fun b => b.content.strings

theorem mem_strings_of_mem_texts {t : Template} {s : String} (h : s ∈ t.texts) : s ∈ t.strings := by
  rcases List.mem_append.mp h with h | h
  · simp only [headStrings, strings, List.mem_append, List.mem_cons] at h ⊢
    tauto
  · obtain ⟨b, hb, hs⟩ := List.mem_flatMap.mp h
    exact List.mem_append_right _ (List.mem_flatMap.mpr ⟨b, hb, List.mem_cons_of_mem _ hs⟩)

/-- What of a template a module can say. -/
structure Importable (t : Template) : Prop where
  named : ∀ b ∈ t.blocks, Marker.canName b.id = true
  shown : ∀ b ∈ t.blocks, b.content.Importable
  preheader : ∀ s ∈ t.preheader, Text.isBlankText s = false
  emoji : t.header.emoji ≠ some ""
  subtitle : t.header.subtitle ≠ some ""
  declared : t.DeclaresAll
  digits : ∀ d ∈ t.declarations, ∀ c ∈ d.name.toList.head?, c.isDigit = false
  free : ∀ s ∈ t.strings, Free s.toList

/-- What of a template a module can say, apart from the blocks. -/
structure Sayable (t : Template) : Prop where
  preheader : ∀ s ∈ t.preheader, Text.isBlankText s = false
  emoji : t.header.emoji ≠ some ""
  subtitle : t.header.subtitle ≠ some ""
  declared : t.DeclaresAll
  digits : ∀ d ∈ t.declarations, ∀ c ∈ d.name.toList.head?, c.isDigit = false
  free : ∀ s ∈ t.texts, Free s.toList

theorem Importable.sayable {t : Template} (h : t.Importable) : t.Sayable :=
  ⟨h.preheader, h.emoji, h.subtitle, h.declared, h.digits,
    fun s hs => h.free s (mem_strings_of_mem_texts hs)⟩

end Template

namespace Source

section

variable {words : List String} (hwords : words ∈ phrases)
include hwords

theorem isKeyword_with_declaration : ∀ w ∈ "export" :: "const" :: words, IsKeyword w.toList :=
  List.forall_mem_cons.mpr ⟨isKeyword_declaration _ (by decide), List.forall_mem_cons.mpr
    ⟨isKeyword_declaration _ (by decide), isKeyword_of_mem_phrases words hwords⟩⟩

def fixedLines : List (List Char) :=
  [[], "/*".toList, " * Generated from the block model. Re-import to edit.".toList, " */".toList,
   "\x7d".toList, "\x7d;".toList]

omit hwords in
theorem isFair_fixed : ∀ words ∈ phrases, ∀ cs ∈ fixedLines, (Line.loose cs).IsFair words := by
  have hline : ∀ cs ∈ fixedLines, '\n' ∉ cs ∧
      opensWith ["export", "const"] (cs.dropWhile isIndent) = false := by
    decide
  have hseam : ∀ words ∈ phrases, ∀ cs ∈ fixedLines,
      Closed ("export" :: "const" :: words) cs ∧ Absent words cs := by
    decide +kernel
  exact fun words hwords cs hcs => ⟨(hline cs hcs).1, (hline cs hcs).2, hseam words hwords cs hcs⟩

theorem isFair_constantBlock {ps : List (String × String)}
    (h : ∀ p ∈ ps, p.1 ∈ constantNames ∧ Absent words p.2.toList) :
    ∀ l ∈ constantBlock ps, l.IsFair words := by
  simp only [constantBlock, constantLines, List.forall_mem_cons, List.forall_mem_append,
    List.forall_mem_map, List.not_mem_nil, IsEmpty.forall_iff, implies_true, and_true]
  exact ⟨isFair_fixed words hwords _ (by decide), h, isFair_fixed words hwords _ (by decide)⟩

omit hwords in
theorem isBlank_of_isValidSlug {slug : String} (hs : Template.isValidSlug slug = true) :
    ∀ c ∈ slug.toList, isBlank c = false := by
  intro c hc
  rcases isSlugChar_of_isSlugFrom hs c hc with h | rfl
  · exact Text.isBlank_of_isNameChar (isNameChar_of_isSlugChar h)
  · decide

theorem absent_slug {slug : String} (hs : Template.isValidSlug slug = true) :
    Absent words slug.toList :=
  absent_word (isKeyword_of_mem_phrases words hwords) (several_of_mem_phrases words hwords)
    (isBlank_of_isValidSlug hs)

theorem isFair_commentLines {slug : String} (hs : Template.isValidSlug slug = true) :
    ∀ l ∈ commentLines slug, l.IsFair words := by
  have hw := isKeyword_of_mem_phrases words hwords
  have hslug := absent_slug hwords hs
  have hbreak : '\n' ∉ slug.toList := fun hmem =>
    absurd (isBlank_of_isValidSlug hs _ hmem) (by decide)
  have hend : ∀ words ∈ phrases, Closed ("export" :: "const" :: words) "ts".toList ∧
      Absent words "ts".toList := by
    decide +kernel
  have hchars : " * ".toList ++ (slug.toList ++ ".ts".toList) =
      ' ' :: '*' :: ' ' :: (slug.toList ++ '.' :: "ts".toList) := rfl
  have hfixed := isFair_fixed words hwords
  simp only [commentLines, List.forall_mem_cons, List.not_mem_nil, IsEmpty.forall_iff,
    implies_true, and_true]
  refine ⟨hfixed _ (by decide), ?_, hfixed _ (by decide), hfixed _ (by decide)⟩
  rw [hchars]
  refine ⟨by simp [hbreak], rfl, ?_, ?_⟩
  · exact @closed_append_cons _ (' ' :: '*' :: ' ' :: slug.toList) _ _
      (isKeyword_with_declaration hwords) (by decide) (by decide) (hend words hwords).1
  · exact .cons hw (by decide) (.cons hw (by decide) (.cons hw (by decide)
      (.around hw (by decide) (by decide) hslug (hend words hwords).2)))

theorem isFair_indented (hcs : ∀ c ∈ cs, isNameChar c = true) (hc : c.isAlpha = false)
    (hb : isBlank c = false) (hn : '\n' ∉ ds)
    (hclosed : Closed ("export" :: "const" :: words) (' ' :: ' ' :: (cs ++ c :: ds)))
    (hds : Absent words ds) : (Line.loose (' ' :: ' ' :: (cs ++ c :: ds))).IsFair words := by
  have hw := isKeyword_of_mem_phrases words hwords
  have hblank : ∀ c ∈ cs, isBlank c = false := fun c hmem => Text.isBlank_of_isNameChar (hcs c hmem)
  have hword (words : List String) (hw : ∀ w ∈ words, IsKeyword w.toList) (hl : 2 ≤ words.length) :
      Absent words cs := absent_word hw hl hblank
  have hbreak : '\n' ∉ cs ++ c :: ds := by
    refine not_mem_append_cons (fun hmem => absurd (hblank _ hmem) (by decide)) ?_ hn
    rintro rfl
    cases hb
  have hindent {d : Char} (hd : isBlank d = false) : isIndent d = false := by
    rw [Bool.eq_false_iff]
    intro h
    have hor : d = ' ' ∨ d = '\t' := by simpa [isIndent] using h
    rcases hor with rfl | rfl <;> cases hd
  have hdrop : (' ' :: ' ' :: (cs ++ c :: ds)).dropWhile isIndent = cs ++ c :: ds := by
    rw [List.dropWhile_cons_of_pos (by decide), List.dropWhile_cons_of_pos (by decide)]
    cases cs with
    | nil => exact List.dropWhile_cons_of_neg (by simp [hindent hb])
    | cons d cs => exact List.dropWhile_cons_of_neg (by simp [hindent (hblank d List.mem_cons_self)])
  refine ⟨by simpa using hbreak, ?_, hclosed, ?_⟩
  · rw [hdrop, Bool.eq_false_iff]
    intro h
    have hopens := opensWith_of_append_cons isKeyword_declaration hc (fun h => by rw [hb] at h; cases h) h
    rw [hword _ isKeyword_declaration (by decide) cs (List.suffix_refl cs)] at hopens
    cases hopens
  · exact .cons hw (by decide) (.cons hw (by decide) (.around hw hc hb
      (hword words hw (several_of_mem_phrases words hwords)) hds))

theorem isFair_member {v : VariableDeclaration} (hv : ∀ c ∈ v.name.toList, isNameChar c = true) :
    (Line.loose (Member.chars v)).IsFair words := by
  have hkind : ∀ words ∈ phrases, Closed ("export" :: "const" :: words) v.kind.id.toList ∧
      Absent words (' ' :: ("string".toList ++ ';' :: ' ' ::
        ("//".toList ++ ' ' :: v.kind.id.toList))) := by
    cases v.kind <;> decide +kernel
  have hsplit (name mark word sign kind : List Char) :
      ' ' :: ' ' :: (name ++ (mark ++ ':' :: ' ' :: (word ++ ';' :: ' ' :: (sign ++ ' ' :: kind)))) =
        ' ' :: ' ' :: (name ++ (mark ++ ':' :: ' ' :: (word ++ ';' :: ' ' :: sign))) ++ ' ' :: kind := by
    simp
  have hchars : Member.chars v = _ ++ ' ' :: v.kind.id.toList := hsplit _ _ _ _ _
  have hne : v.kind.id.toList ≠ [] := by cases v.kind <;> decide
  have hbreak : '\n' ∉ v.kind.id.toList := by cases v.kind <;> decide
  have hclosed : Closed ("export" :: "const" :: words) (Member.chars v) :=
    hchars ▸ closed_append_cons (isKeyword_with_declaration hwords) (by decide) hne
      (hkind words hwords).1
  have htype := (hkind words hwords).2
  unfold Member.chars at hclosed ⊢
  cases ho : v.optional with
  | true =>
    rw [ho] at hclosed
    exact isFair_indented hwords hv (by decide) (by decide) (by simp [hbreak]) hclosed
      (.cons (isKeyword_of_mem_phrases words hwords) (by decide) htype)
  | false =>
    rw [ho] at hclosed
    exact isFair_indented hwords hv (by decide) (by decide) (by simp [hbreak]) hclosed htype

theorem isFair_field {f : String × String} (hf : ∀ c ∈ f.1.toList, isNameChar c = true)
    (hv : Absent words f.2.toList) : (Line.loose (Field.chars f)).IsFair words := by
  have hw := isKeyword_of_mem_phrases words hwords
  have hsplit (as bs : List Char) : ' ' :: ' ' :: (as ++ ':' :: ' ' :: (bs ++ [','])) =
      ' ' :: ' ' :: (as ++ ':' :: ' ' :: bs) ++ [','] := by
    simp
  have hchars : Field.chars f = _ ++ [','] := hsplit _ _
  have hclosed : Closed ("export" :: "const" :: words) (Field.chars f) :=
    hchars ▸ closed_append_singleton (isKeyword_with_declaration hwords) (by decide) (by decide)
  exact isFair_indented hwords hf (by decide) (by decide) (by simp [not_mem_encode]) hclosed
    (.cons hw (by decide) (absent_encode hw hv (by decide)))

theorem isFair_interfaceLines (hne : words ≠ ["export", "interface"]) {slug : String}
    (hs : Template.isValidSlug slug = true) {vs : List VariableDeclaration}
    (hvs : ∀ v ∈ vs, ∀ c ∈ v.name.toList, isNameChar c = true) :
    ∀ l ∈ interfaceLines (interfaceName slug).toList vs, l.IsFair words := by
  have hname := isNameChar_interfaceName hs
  unfold interfaceLines
  split
  · exact List.forall_mem_singleton.mpr ⟨hne, hname, .inr rfl⟩
  · rw [List.cons_append, List.forall_mem_cons, List.forall_mem_append, List.forall_mem_map]
    exact ⟨⟨hne, hname, .inl rfl⟩, fun v hv => isFair_member hwords (hvs v hv),
      List.forall_mem_singleton.mpr (isFair_fixed words hwords _ (by decide))⟩

theorem isFair_headerLines (hne : words ≠ ["export", "const", "header"]) {h : Header}
    (hf : ∀ f ∈ headerFields h, Absent words f.2.toList) : ∀ l ∈ headerLines h, l.IsFair words := by
  rw [headerLines, List.cons_append, List.forall_mem_cons, List.forall_mem_append,
    List.forall_mem_map]
  exact ⟨hne, fun f hmem => isFair_field hwords (isIdentifier_headerFields h f hmem).chars (hf f hmem),
    List.forall_mem_singleton.mpr (isFair_fixed words hwords _ (by decide))⟩

end

end Source

end EmailTemplates
