import EmailTemplates.Proofs.Source.Line

namespace EmailTemplates.Source

open EmailTemplates.Text (Slice byteLength isBlank)
open EmailTemplates.Text.Slice (Passes)

variable {α : Type} {read : Slice.Reader α} {words : List String} {cs ds rest : List Char}

def LedBy (read : Slice.Reader α) (words : List String) : Prop :=
  ∀ s p, read s = some p → opensWith words s.chars = true

theorem LedBy.eq_none {s : Slice} (hread : LedBy read words) (h : opensWith words s.chars = false) :
    read s = none := by
  rw [Option.eq_none_iff_forall_not_mem]
  intro p hp
  rw [hread s p hp] at h
  cases h

theorem ledBy_word {w : String} {more : Slice → Option (α × Slice)}
    (h : ∀ s, read s = (s.expectText w).bind more) : LedBy read [w] := by
  intro s p hp
  rw [h] at hp
  obtain ⟨s', hs', -⟩ := Option.bind_eq_some_iff.mp hp
  rw [opensWith_singleton, Slice.expectText_eq_some hs']
  exact List.prefix_append _ _

theorem isBlank_of_skipBlanks? {s s' : Slice} (h : s.skipBlanks? = some s') :
    ∃ c cs, s.chars = c :: cs ∧ isBlank c = true ∧ s'.chars = cs.dropWhile isBlank := by
  unfold Slice.skipBlanks? at h
  split at h
  · rename_i c cs hs
    split at h
    · rename_i hc
      cases h
      refine ⟨c, cs, hs, hc, ?_⟩
      rw [← List.dropWhile_cons_of_pos hc, ← hs]
      rfl
    · cases h
  · cases h

theorem ledBy_words {w x : String} {ws : List String} {next : Slice → Option (α × Slice)}
    (h : ∀ s, read s = (s.expectText w).bind fun s => s.skipBlanks?.bind next)
    (hnext : LedBy next (x :: ws)) : LedBy read (w :: x :: ws) := by
  intro s p hp
  rw [h] at hp
  obtain ⟨s1, h1, hp⟩ := Option.bind_eq_some_iff.mp hp
  obtain ⟨s2, h2, hp⟩ := Option.bind_eq_some_iff.mp hp
  obtain ⟨c, cs, hs1, hc, hs2⟩ := isBlank_of_skipBlanks? h2
  refine opensWith_cons_cons.mpr ⟨c, cs, ?_, hc, hs2 ▸ hnext s2 p hp⟩
  rw [Slice.expectText_eq_some h1, hs1]

theorem ledBy_readInterface : LedBy readInterface ["export", "interface"] :=
  ledBy_words (fun _ => rfl) (ledBy_word fun _ => rfl)

theorem ledBy_readStart : LedBy HeaderObject.readStart ["export", "const", "header"] :=
  ledBy_words (fun _ => rfl) (ledBy_words (fun _ => rfl) (ledBy_word fun _ => rfl))

theorem ledBy_readConstant : LedBy ContentStart.readConstant ["export", "const", "content"] :=
  ledBy_words (fun _ => rfl) (ledBy_words (fun _ => rfl) (ledBy_word fun _ => rfl))

theorem ledBy_readFunction : LedBy ContentStart.readFunction ["function", "renderContent"] :=
  ledBy_words (fun _ => rfl) (ledBy_word fun _ => rfl)

theorem exists_of_append_newline {us vs : List Char} (h : cs ++ ['\n'] = us ++ vs)
    (hne : vs ≠ []) : ∃ ws, vs = ws ++ ['\n'] ∧ cs = us ++ ws := by
  obtain ⟨ws, c, rfl⟩ := (List.eq_nil_or_concat vs).resolve_left hne
  rw [List.concat_eq_append, ← List.append_assoc] at h
  obtain ⟨hcs, hc⟩ := List.append_inj' h rfl
  exact ⟨ws, by rw [List.concat_eq_append, ← hc], hcs⟩

theorem LedBy.passes_line (hread : LedBy read words) (hw : ∀ w ∈ words, IsKeyword w.toList)
    (hclosed : Closed words cs) (habsent : Absent words cs) : Passes read (cs ++ ['\n']) rest := by
  refine Slice.passes_of_forall fun us vs huv hne n => ?_
  obtain ⟨ws, rfl, rfl⟩ := exists_of_append_newline huv hne
  have hws : ws <:+ us ++ ws := List.suffix_append us ws
  refine hread.eq_none ?_
  rw [Bool.eq_false_iff]
  intro h
  have hopens := @opensWith_of_append_cons words ws rest '\n' hw (by decide)
    (fun _ => hclosed.suffix hws) (by simpa using h)
  rw [habsent ws hws] at hopens
  cases hopens

theorem passes_orElse {other : Slice.Reader α} (h : Passes read cs rest)
    (ho : Passes other cs rest) : Passes (fun s => read s <|> other s) cs rest := by
  induction cs with
  | nil => trivial
  | cons c cs ih => exact ⟨fun n => by simp [h.1 n, ho.1 n], ih h.2 ho.2⟩

namespace Line

theorem constant_append (name value : String) (tail : List Char) :
    (constant name value).chars ++ tail = "export".toList ++ ' ' :: ("const".toList ++ ' ' ::
      (name.toList ++ ' ' :: '=' :: ' ' :: (Quoted.encode value.toList ++ ';' :: tail))) := by
  have hchars (as bs cs ds : List Char) :
      as ++ ' ' :: (bs ++ ' ' :: (cs ++ ' ' :: '=' :: ' ' :: (ds ++ [';']))) ++ tail =
        as ++ ' ' :: (bs ++ ' ' :: (cs ++ ' ' :: '=' :: ' ' :: (ds ++ ';' :: tail))) := by
    simp
  exact hchars _ _ _ _

theorem interface_append (name body tail : List Char) :
    (interface name body).chars ++ tail = "export".toList ++ ' ' :: ("interface".toList ++ ' ' ::
      (name ++ ' ' :: '{' :: (body ++ tail))) := by
  have hchars (as bs : List Char) : as ++ ' ' :: (bs ++ ' ' :: (name ++ ' ' :: '{' :: body)) ++ tail =
      as ++ ' ' :: (bs ++ ' ' :: (name ++ ' ' :: '{' :: (body ++ tail))) := by
    simp
  exact hchars _ _

theorem header_append (tail : List Char) :
    header.chars ++ tail = "export".toList ++ ' ' :: ("const".toList ++ ' ' ::
      ("header".toList ++ ' ' :: '=' :: ' ' :: '{' :: tail)) := by
  have hchars (as bs cs : List Char) :
      as ++ ' ' :: (bs ++ ' ' :: (cs ++ [' ', '=', ' ', '{'])) ++ tail =
        as ++ ' ' :: (bs ++ ' ' :: (cs ++ ' ' :: '=' :: ' ' :: '{' :: tail)) := by
    simp
  exact hchars _ _ _

theorem passes_written (hread : LedBy read words) (hwords : words ∈ phrases) {lines : List Line}
    (h : ∀ l ∈ lines, l.IsFair words) : Passes read (written lines) rest := by
  induction lines with
  | nil => trivial
  | cons l lines ih =>
    obtain ⟨hl, hlines⟩ := List.forall_mem_cons.mp h
    have hcons : written (l :: lines) = l.chars ++ ['\n'] ++ written lines := List.flatMap_cons
    rw [hcons, Slice.passes_append]
    exact ⟨hread.passes_line (isKeyword_of_mem_phrases words hwords) (hl.closed hwords)
      (hl.absent hwords), ih hlines⟩

theorem passes_contentStart {lines : List Line}
    (h : ∀ words ∈ contentPhrases, ∀ l ∈ lines, l.IsFair words) :
    Passes ContentStart.read (written lines) rest :=
  passes_orElse (passes_written ledBy_readFunction (by decide) (h _ (by decide)))
    (passes_written ledBy_readConstant (by decide) (h _ (by decide)))

end Line

end EmailTemplates.Source
