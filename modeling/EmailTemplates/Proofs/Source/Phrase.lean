import EmailTemplates.Proofs.Source.Keyword
import EmailTemplates.Source.Declaration

namespace EmailTemplates.Source

open EmailTemplates.Text (Slice isBlank)

variable {α : Type} {words : List String} {cs ds : List Char} {c : Char}

def opensWith : List String → List Char → Bool
  | [], _ => true
  | [w], cs => w.toList.isPrefixOf cs
  | w :: x :: ws, cs => w.toList.isPrefixOf cs && (cs.drop w.toList.length).head?.any isBlank &&
      opensWith (x :: ws) ((cs.drop w.toList.length).dropWhile isBlank)

/-- Nowhere does the text go on with the words. -/
def Absent (words : List String) (cs : List Char) : Prop :=
  ∀ v, v <:+ cs → opensWith words v = false

instance (words : List String) (cs : List Char) : Decidable (Absent words cs) :=
  decidable_of_iff (∀ v ∈ cs.tails, opensWith words v = false) (by simp [Absent, List.mem_tails])

def contentPhrases : List (List String) :=
  [["function", "renderContent"], ["export", "const", "content"]]

def phrases : List (List String) :=
  ["export", "interface"] :: ["export", "const", "header"] :: contentPhrases

theorem isKeyword_of_mem_phrases : ∀ words ∈ phrases, ∀ w ∈ words, IsKeyword w.toList := by
  have hlong : ∀ words ∈ phrases, ∀ w ∈ words, 5 ≤ w.toList.length := by decide
  have hletters : ∀ words ∈ phrases, ∀ w ∈ words, ∀ c ∈ w.toList, c.isAlpha = true := by
    decide +kernel
  have hhead : ∀ words ∈ phrases, ∀ w ∈ words, w.toList.head? ≠ some 'n' ∧
      w.toList.head? ≠ some 't' := by decide
  exact fun words h w hw => ⟨hlong words h w hw, hletters words h w hw, hhead words h w hw⟩

theorem isKeyword_declaration : ∀ w ∈ ["export", "const"], IsKeyword w.toList :=
  fun w hw => isKeyword_of_mem_phrases ["export", "const", "header"] (by decide) w
    (List.mem_append_left ["header"] hw)

theorem several_of_mem_phrases : ∀ words ∈ phrases, 2 ≤ words.length := by
  decide

theorem opensWith_singleton {w : String} : opensWith [w] cs = true ↔ w.toList <+: cs :=
  List.isPrefixOf_iff_prefix

theorem opensWith_cons_cons {w x : String} {ws : List String} :
    opensWith (w :: x :: ws) cs = true ↔ ∃ b ds, cs = w.toList ++ b :: ds ∧ isBlank b = true ∧
      opensWith (x :: ws) (ds.dropWhile isBlank) = true := by
  rw [opensWith]
  constructor
  · intro h
    simp only [Bool.and_eq_true, List.isPrefixOf_iff_prefix] at h
    obtain ⟨⟨⟨tail, rfl⟩, hblank⟩, hrest⟩ := h
    rw [List.drop_left] at hblank hrest
    cases tail with
    | nil => cases hblank
    | cons b ds =>
      have hb : isBlank b = true := hblank
      rw [List.dropWhile_cons_of_pos hb] at hrest
      exact ⟨b, ds, rfl, hb, hrest⟩
  · rintro ⟨b, ds, rfl, hb, hrest⟩
    simp [List.isPrefixOf_iff_prefix, hb, hrest]

theorem prefix_of_opensWith {w : String} {ws : List String} (h : opensWith (w :: ws) cs = true) :
    w.toList <+: cs := by
  cases ws with
  | nil => exact opensWith_singleton.mp h
  | cons x ws =>
    obtain ⟨b, ds, rfl, -⟩ := opensWith_cons_cons.mp h
    exact List.prefix_append _ _

theorem infix_of_opensWith {w : String} (h : opensWith words cs = true) (hw : w ∈ words) :
    w.toList <:+: cs := by
  induction words generalizing cs with
  | nil => cases hw
  | cons x words ih =>
    cases words with
    | nil =>
      cases List.mem_singleton.mp hw
      exact (opensWith_singleton.mp h).isInfix
    | cons y words =>
      obtain ⟨b, ds, rfl, -, hrest⟩ := opensWith_cons_cons.mp h
      rcases List.mem_cons.mp hw with rfl | hw
      · exact (List.prefix_append _ _).isInfix
      · refine (ih hrest hw).trans ((List.dropWhile_suffix _).trans ?_).isInfix
        exact (List.suffix_cons b ds).trans (List.suffix_append _ _)

theorem absent_of_not_infix {w : String} (hw : w ∈ words) (h : ¬ w.toList <:+: cs) :
    Absent words cs := by
  intro v hv
  rw [Bool.eq_false_iff]
  exact fun hopens => h ((infix_of_opensWith hopens hw).trans hv.isInfix)

theorem Absent.suffix (h : Absent words cs) (hds : ds <:+ cs) : Absent words ds :=
  fun v hv => h v (hv.trans hds)

structure Closed (words : List String) (cs : List Char) : Prop where
  last : ∀ c ∈ cs.getLast?, isBlank c = false
  word : ∀ w ∈ words, ¬ w.toList <:+ cs

instance (words : List String) (cs : List Char) : Decidable (Closed words cs) :=
  decidable_of_iff ((∀ c ∈ cs.getLast?, isBlank c = false) ∧ ∀ w ∈ words, ¬ w.toList <:+ cs)
    ⟨fun h => ⟨h.1, h.2⟩, fun h => ⟨h.last, h.word⟩⟩

theorem getLast?_of_suffix (h : ds <:+ cs) (hne : ds ≠ []) : ds.getLast? = cs.getLast? := by
  obtain ⟨us, rfl⟩ := h
  rw [List.getLast?_append_of_ne_nil _ hne]

theorem Closed.suffix (h : Closed words cs) (hds : ds <:+ cs) : Closed words ds where
  last c hc := by
    have hne : ds ≠ [] := by
      rintro rfl
      cases hc
    exact h.last c (getLast?_of_suffix hds hne ▸ hc)
  word w hw hsuffix := h.word w hw (hsuffix.trans hds)

theorem Closed.mono {more : List String} (h : Closed more cs) (hsub : words ⊆ more) :
    Closed words cs :=
  ⟨h.last, fun w hw => h.word w (hsub hw)⟩

theorem suffix_of_append_cons {w : List Char} (hc : c ∉ w) (h : w <:+ cs ++ c :: ds) : w <:+ ds := by
  rw [← List.reverse_prefix] at h ⊢
  rw [List.reverse_append, List.reverse_cons, List.append_assoc, List.singleton_append] at h
  exact prefix_of_append_cons (by simpa using hc) h

theorem closed_append_cons (hw : ∀ w ∈ words, IsKeyword w.toList) (hc : c.isAlpha = false)
    (hne : ds ≠ []) (h : Closed words ds) : Closed words (cs ++ c :: ds) where
  last d hd := h.last d (getLast?_of_suffix ((List.suffix_cons c ds).trans
    (List.suffix_append cs _)) hne ▸ hd)
  word w hmem hsuffix := h.word w hmem (suffix_of_append_cons ((hw w hmem).not_mem hc) hsuffix)

theorem closed_append_singleton (hw : ∀ w ∈ words, IsKeyword w.toList) (hc : c.isAlpha = false)
    (hb : isBlank c = false) : Closed words (cs ++ [c]) where
  last d hd := by
    rw [List.getLast?_concat] at hd
    cases hd
    exact hb
  word w hmem hsuffix := (hw w hmem).ne_nil
    (List.suffix_nil.mp (suffix_of_append_cons ((hw w hmem).not_mem hc) hsuffix))

theorem dropWhile_append_cons (h : isBlank c = true → cs.dropWhile isBlank ≠ []) :
    (cs ++ c :: ds).dropWhile isBlank = cs.dropWhile isBlank ++ c :: ds := by
  rw [List.dropWhile_append]
  split
  · rename_i hnil
    rw [List.isEmpty_iff] at hnil
    have hc : isBlank c = false := by
      rw [Bool.eq_false_iff]
      exact fun hc => h hc hnil
    rw [hnil, List.nil_append, List.dropWhile_cons_of_neg (by simp [hc])]
  · rfl

theorem opensWith_of_append_cons (hw : ∀ w ∈ words, IsKeyword w.toList) (hc : c.isAlpha = false)
    (hend : isBlank c = true → Closed words cs) (h : opensWith words (cs ++ c :: ds) = true) :
    opensWith words cs = true := by
  induction words generalizing cs with
  | nil => rfl
  | cons w words ih =>
    obtain ⟨hfirst, hwords⟩ := List.forall_mem_cons.mp hw
    have hnot := hfirst.not_mem hc
    cases words with
    | nil => exact opensWith_singleton.mpr (prefix_of_append_cons hnot (opensWith_singleton.mp h))
    | cons x words =>
      obtain ⟨b, es, heq, hb, hrest⟩ := opensWith_cons_cons.mp h
      obtain ⟨us, rfl⟩ : w.toList <+: cs := prefix_of_append_cons hnot ⟨b :: es, heq.symm⟩
      rw [List.append_assoc, List.append_cancel_left_eq] at heq
      cases us with
      | nil =>
        obtain ⟨rfl, -⟩ := List.cons.inj heq
        exact absurd (by simp) ((hend hb).word w List.mem_cons_self)
      | cons u us =>
        obtain ⟨rfl, hes⟩ := List.cons.inj heq
        have hus : us <:+ w.toList ++ u :: us := (List.suffix_cons u us).trans (List.suffix_append _ _)
        -- the blanks after the word do not reach the seam
        have hinside (hblank : isBlank c = true) : us.dropWhile isBlank ≠ [] := by
          intro hnil
          obtain ⟨d, hd⟩ : ∃ d, (u :: us).getLast? = some d := ⟨_, List.getLast?_cons⟩
          have hall : ∀ x ∈ u :: us, isBlank x = true :=
            List.forall_mem_cons.mpr ⟨hb, List.dropWhile_eq_nil_iff.mp hnil⟩
          have hlast := ((hend hblank).suffix (List.suffix_append _ _)).last d hd
          rw [hall d (List.mem_of_getLast? hd)] at hlast
          cases hlast
        rw [← hes, List.append_eq, dropWhile_append_cons hinside] at hrest
        refine opensWith_cons_cons.mpr ⟨u, us, rfl, hb, ih hwords (fun hblank => ?_) hrest⟩
        exact ((hend hblank).suffix ((List.dropWhile_suffix isBlank).trans hus)).mono
          (List.subset_cons_self w _)

theorem opensWith_cons_of_head (hw : ∀ w ∈ words, IsKeyword w.toList) (hne : words ≠ [])
    (hc : ∀ w ∈ words, w.toList.head? ≠ some c) : opensWith words (c :: ds) = false := by
  rw [Bool.eq_false_iff]
  intro h
  obtain ⟨w, ws, rfl⟩ := List.exists_cons_of_ne_nil hne
  obtain ⟨d, w', hword⟩ := List.exists_cons_of_ne_nil (hw w List.mem_cons_self).ne_nil
  have hprefix := prefix_of_opensWith h
  rw [hword, List.cons_prefix_cons] at hprefix
  refine hc w List.mem_cons_self ?_
  rw [hword, hprefix.1]
  rfl

theorem opensWith_cons_of_sign (hw : ∀ w ∈ words, IsKeyword w.toList) (hne : words ≠ [])
    (hc : c.isAlpha = false) : opensWith words (c :: ds) = false :=
  opensWith_cons_of_head hw hne fun w hmem hhead =>
    (hw w hmem).not_mem hc (List.mem_of_head? hhead)

theorem Absent.ne_nil (h : Absent words cs) : words ≠ [] := by
  rintro rfl
  cases h [] List.nil_suffix

theorem Absent.cons (hw : ∀ w ∈ words, IsKeyword w.toList) (hc : c.isAlpha = false)
    (h : Absent words ds) : Absent words (c :: ds) := by
  intro v hv
  rcases List.suffix_cons_iff.mp hv with rfl | hv
  · exact opensWith_cons_of_sign hw h.ne_nil hc
  · exact h v hv

theorem Absent.append_cons (hw : ∀ w ∈ words, IsKeyword w.toList) (hc : c.isAlpha = false)
    (hend : isBlank c = true → Closed words cs) (hcs : Absent words cs) (hds : Absent words ds) :
    Absent words (cs ++ c :: ds) := by
  intro v hv
  rcases List.suffix_or_suffix_of_suffix hv (List.suffix_append cs (c :: ds)) with hv | ⟨us, rfl⟩
  · exact hds.cons hw hc v hv
  · obtain ⟨pre, hpre⟩ := hv
    rw [← List.append_assoc, List.append_cancel_right_eq] at hpre
    rw [Bool.eq_false_iff]
    intro h
    have hopens := opensWith_of_append_cons hw hc (fun hb => (hend hb).suffix ⟨pre, hpre⟩) h
    rw [hcs us ⟨pre, hpre⟩] at hopens
    cases hopens

theorem absent_word_append (hw : ∀ w ∈ words, IsKeyword w.toList) (hl : 2 ≤ words.length) {bs : List Char}
    (hcs : ∀ c ∈ cs, isBlank c = false) (hbs : ∀ c ∈ bs, isBlank c = true) :
    Absent words (cs ++ bs) := by
  obtain ⟨w, x, ws, rfl⟩ : ∃ w x ws, words = w :: x :: ws := by
    match words with
    | w :: x :: ws => exact ⟨w, x, ws, rfl⟩
  intro v hv
  rw [Bool.eq_false_iff]
  intro h
  obtain ⟨b, ds, rfl, hb, hrest⟩ := opensWith_cons_cons.mp h
  have hds : ∀ c ∈ ds, isBlank c = true := by
    obtain ⟨us, hus⟩ := hv
    rw [← List.append_assoc] at hus
    rcases Slice.mem_parts hus.symm with ⟨after, rfl, -⟩ | ⟨before, -, rfl⟩
    · rw [hcs b (by simp)] at hb
      cases hb
    · exact fun c hc => hbs c (by simp [hc])
  rw [List.dropWhile_eq_nil_iff.mpr hds] at hrest
  have hx := infix_of_opensWith hrest List.mem_cons_self
  exact (hw x (by simp)).ne_nil (List.infix_nil.mp hx)

theorem absent_word (hw : ∀ w ∈ words, IsKeyword w.toList) (hl : 2 ≤ words.length)
    (hcs : ∀ c ∈ cs, isBlank c = false) : Absent words cs := by
  have h := @absent_word_append words cs hw hl [] hcs (by simp)
  rwa [List.append_nil] at h

theorem opensWith_of_escape (hw : ∀ w ∈ words, IsKeyword w.toList)
    (h : opensWith words (Quoted.escape cs) = true) : opensWith words cs = true := by
  induction words generalizing cs with
  | nil => rfl
  | cons w words ih =>
    obtain ⟨hfirst, hwords⟩ := List.forall_mem_cons.mp hw
    have hmark : '\\' ∉ w.toList := hfirst.not_mem (by decide)
    cases words with
    | nil =>
      obtain ⟨rest, hrest⟩ := opensWith_singleton.mp h
      obtain ⟨cs', rfl, -⟩ := Quoted.marks_escapeChar.append_of_flatMap hmark hrest.symm
      exact opensWith_singleton.mpr (List.prefix_append _ _)
    | cons x words =>
      obtain ⟨b, ds, heq, hb, hrest⟩ := opensWith_cons_cons.mp h
      have hblank : '\\' ∉ w.toList ++ [b] := by
        rw [List.mem_append, List.mem_singleton, not_or]
        exact ⟨hmark, by rintro rfl; cases hb⟩
      obtain ⟨cs', rfl, rfl⟩ := Quoted.marks_escapeChar.append_of_flatMap hblank
        (heq.trans (List.append_cons _ _ _))
      rw [List.append_assoc]
      refine opensWith_cons_cons.mpr ⟨b, cs', rfl, hb, ?_⟩
      clear heq h
      -- a blank that is written with a mark ends the blanks
      induction cs' with
      | nil => exact hrest
      | cons c cs' ihc =>
        rw [List.flatMap_cons] at hrest
        rcases Quoted.marks_escapeChar c with hc | ⟨tail, hc⟩
        · rw [hc, List.singleton_append] at hrest
          by_cases hc' : isBlank c = true
          · rw [List.dropWhile_cons_of_pos hc'] at hrest ⊢
            exact ihc hrest
          · rw [List.dropWhile_cons_of_neg hc'] at hrest ⊢
            refine ih hwords ?_
            rw [Quoted.escape_cons, hc]
            exact hrest
        · rw [hc, List.cons_append, List.dropWhile_cons_of_neg (by decide),
            opensWith_cons_of_sign hwords (List.cons_ne_nil _ _) (by decide)] at hrest
          cases hrest

theorem Absent.escape (hw : ∀ w ∈ words, IsKeyword w.toList) (h : Absent words cs) :
    Absent words (Quoted.escape cs) := by
  induction cs with
  | nil => exact h
  | cons c cs ih =>
    have hcs := ih (h.suffix (List.suffix_cons c cs))
    have hmarked (d : Char) (hd : ∀ w ∈ words, w.toList.head? ≠ some d) :
        Absent words ('\\' :: d :: Quoted.escape cs) := by
      refine Absent.cons hw (by decide) fun v hv => ?_
      rcases List.suffix_cons_iff.mp hv with rfl | hv
      · exact opensWith_cons_of_head hw h.ne_nil hd
      · exact hcs v hv
    have hsign (d : Char) (hd : d.isAlpha = false) (w : String) (hmem : w ∈ words) :
        w.toList.head? ≠ some d := fun hhead => (hw w hmem).not_mem hd (List.mem_of_head? hhead)
    by_cases hc : Quoted.escapeChar c = [c]
    · intro v hv
      rw [Quoted.escape_cons, hc, List.singleton_append, List.suffix_cons_iff] at hv
      rcases hv with rfl | hv
      · rw [Bool.eq_false_iff]
        intro hopens
        have hescape : Quoted.escape (c :: cs) = c :: Quoted.escape cs := by
          rw [Quoted.escape_cons, hc, List.singleton_append]
        rw [← hescape] at hopens
        exact absurd (opensWith_of_escape hw hopens) (by simp [h _ (List.suffix_refl _)])
      · exact hcs v hv
    · rw [Quoted.escape_cons]
      revert hc
      unfold Quoted.escapeChar
      split
      · exact fun _ => hmarked '\\' (hsign _ (by decide))
      · exact fun _ => hmarked '\'' (hsign _ (by decide))
      · exact fun _ => hmarked 'n' fun w hmem => (hw w hmem).head.1
      · exact fun _ => hmarked 't' fun w hmem => (hw w hmem).head.2
      · exact fun hc => absurd rfl hc

end EmailTemplates.Source
