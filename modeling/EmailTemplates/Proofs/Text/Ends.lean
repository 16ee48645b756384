import EmailTemplates.Proofs.Text.Slice

namespace EmailTemplates.Text.Slice

variable {α : Type} {read : Reader α} {s s' t rest a : Slice}

def IsEndOf (rest s : Slice) : Prop :=
  ∃ taken, s.chars = taken ++ rest.chars ∧ rest.start = s.start + byteLength taken

def IsPartOf (part s : Slice) : Prop :=
  ∃ before after, s.chars = before ++ (part.chars ++ after) ∧
    part.start = s.start + byteLength before

theorem isEndOf_refl (s : Slice) : s.IsEndOf s :=
  ⟨[], rfl, rfl⟩

theorem IsEndOf.trans (h : rest.IsEndOf s') (h' : s'.IsEndOf s) : rest.IsEndOf s := by
  obtain ⟨cs, hcs, hstart⟩ := h
  obtain ⟨ds, hds, hstart'⟩ := h'
  refine ⟨ds ++ cs, by rw [hds, hcs, List.append_assoc], ?_⟩
  rw [hstart, hstart', byteLength_append, Nat.add_assoc]

theorem IsEndOf.length_le (h : rest.IsEndOf s) : rest.chars.length ≤ s.chars.length := by
  obtain ⟨cs, hcs, -⟩ := h
  rw [hcs, List.length_append]
  exact Nat.le_add_left _ _

theorem IsEndOf.start_eq {taken : List Char} (h : rest.IsEndOf s)
    (hs : s.chars = taken ++ rest.chars) : rest.start = s.start + byteLength taken := by
  obtain ⟨cs, hcs, hstart⟩ := h
  rw [hstart, List.append_cancel_right (hcs.symm.trans hs)]

theorem IsEndOf.suffix (h : rest.IsEndOf s) : rest.chars <:+ s.chars := by
  obtain ⟨cs, hcs, -⟩ := h
  exact ⟨cs, hcs.symm⟩

theorem IsPartOf.trans_isEndOf (h : t.IsPartOf rest) (hr : rest.IsEndOf s) : t.IsPartOf s := by
  obtain ⟨cs, ds, hcs, hstart⟩ := h
  obtain ⟨es, hes, hstart'⟩ := hr
  refine ⟨es ++ cs, ds, by rw [hes, hcs, List.append_assoc], ?_⟩
  rw [hstart, hstart', byteLength_append, Nat.add_assoc]

theorem IsPartOf.trans (h : t.IsPartOf a) (ha : a.IsPartOf s) : t.IsPartOf s := by
  obtain ⟨cs, ds, hcs, hstart⟩ := h
  obtain ⟨es, fs, hes, hstart'⟩ := ha
  refine ⟨es ++ cs, ds ++ fs, by rw [hes, hcs]; simp only [List.append_assoc], ?_⟩
  rw [hstart, hstart', byteLength_append, Nat.add_assoc]

theorem IsEndOf.isPartOf (h : rest.IsEndOf s) : rest.IsPartOf s := by
  obtain ⟨cs, hcs, hstart⟩ := h
  exact ⟨cs, [], by rw [hcs, List.append_nil], hstart⟩

theorem isPartOf_take (n : Nat) (s : Slice) : (s.take n).IsPartOf s :=
  ⟨[], s.chars.drop n, by simp, rfl⟩

theorem isPartOf_takeWhile (p : Char → Bool) (s : Slice) : (s.takeWhile p).IsPartOf s :=
  ⟨[], s.chars.dropWhile p, List.takeWhile_append_dropWhile.symm, rfl⟩

theorem isPartOf_run {p : Char → Bool} (h : s.run p = some (a, rest)) : a.IsPartOf s := by
  unfold run at h
  split at h
  · split at h
    · cases h
      exact isPartOf_takeWhile p s
    · cases h
  · cases h

theorem isPartOf_splitAt? {text : String} (h : splitAt? text s = some (a, rest)) :
    a.IsPartOf s := by
  obtain ⟨n, rfl, -, -⟩ := splitAt?_eq_some h
  exact isPartOf_take n s

theorem IsPartOf.start_le (h : t.IsPartOf s) : s.start ≤ t.start := by
  obtain ⟨cs, ds, -, hstart⟩ := h
  rw [hstart]
  exact Nat.le_add_right _ _

theorem IsPartOf.stop_le (h : t.IsPartOf s) : t.stop ≤ s.stop := by
  obtain ⟨cs, ds, hcs, hstart⟩ := h
  rw [stop, stop, hcs, hstart, byteLength_append, byteLength_append]
  omega

theorem IsEndOf.chars_before (h : rest.IsEndOf s) :
    s.chars = (s.before rest).chars ++ rest.chars := by
  obtain ⟨cs, hcs, -⟩ := h
  simp [before, hcs]

theorem IsEndOf.stop_before (h : rest.IsEndOf s) : (s.before rest).stop = rest.start := by
  obtain ⟨cs, hcs, hstart⟩ := h
  simp [before, stop, take, hcs, hstart]

theorem isEndOf_drop (n : Nat) (s : Slice) : (s.drop n).IsEndOf s :=
  ⟨s.chars.take n, (List.take_append_drop n s.chars).symm, rfl⟩

theorem isEndOf_dropWhile (p : Char → Bool) (s : Slice) : (s.dropWhile p).IsEndOf s :=
  ⟨s.chars.takeWhile p, List.takeWhile_append_dropWhile.symm, rfl⟩

theorem isEndOf_skipBlanks (s : Slice) : s.skipBlanks.IsEndOf s :=
  isEndOf_dropWhile isBlank s

theorem isEndOf_skipBlanks? (h : s.skipBlanks? = some rest) : rest.IsEndOf s := by
  unfold skipBlanks? at h
  split at h
  · split at h
    · cases h
      exact isEndOf_skipBlanks s
    · cases h
  · cases h

theorem isEndOf_expect {c : Char} (h : s.expect c = some rest) : rest.IsEndOf s := by
  unfold expect at h
  split at h
  · split at h
    · cases h
      exact isEndOf_drop 1 s
    · cases h
  · cases h

theorem isEndOf_expectText {text : String} (h : expectText text s = some rest) :
    rest.IsEndOf s := by
  unfold expectText at h
  split at h
  · cases h
    exact isEndOf_drop _ s
  · cases h

theorem isEndOf_words {first second : String} {s₁ s₂ : Slice} (h₁ : expectText first s = some s₁)
    (h₂ : s₁.skipBlanks? = some s₂) (h₃ : expectText second s₂ = some rest) : rest.IsEndOf s :=
  (isEndOf_expectText h₃).trans ((isEndOf_skipBlanks? h₂).trans (isEndOf_expectText h₁))

theorem isEndOf_run {p : Char → Bool} (h : s.run p = some (a, rest)) : rest.IsEndOf s := by
  unfold run at h
  split at h
  · split at h
    · cases h
      exact isEndOf_dropWhile p s
    · cases h
  · cases h

theorem isEndOf_splitAt? {text : String} (h : splitAt? text s = some (a, rest)) :
    rest.IsEndOf s := by
  obtain ⟨n, -, rfl, -⟩ := splitAt?_eq_some h
  exact isEndOf_drop _ s

theorem read_of_find {x : α} (h : find read s = some (s', x, rest)) :
    read s' = some (x, rest) := by
  obtain ⟨n, cs⟩ := s
  induction cs generalizing n with
  | nil =>
    rw [Slice.find, find.go] at h
    obtain ⟨⟨y, t⟩, hy, ht⟩ := Option.map_eq_some_iff.mp h
    cases ht
    exact hy
  | cons c cs ih =>
    cases hr : read ⟨n, c :: cs⟩ with
    | none =>
      rw [find_of_none hr] at h
      exact ih _ h
    | some p =>
      rw [find_of_some hr] at h
      cases h
      exact hr

def LeavesEnd (read : Reader α) : Prop :=
  ∀ s a rest, read s = some (a, rest) → rest.IsEndOf s

theorem LeavesEnd.find (hread : LeavesEnd read) {x : α} (h : find read s = some (s', x, rest)) :
    s'.IsEndOf s ∧ rest.IsEndOf s' := by
  obtain ⟨n, cs⟩ := s
  induction cs generalizing n with
  | nil =>
    rw [Slice.find, find.go] at h
    obtain ⟨⟨y, t⟩, hy, ht⟩ := Option.map_eq_some_iff.mp h
    cases ht
    exact ⟨isEndOf_refl _, hread _ _ _ hy⟩
  | cons c cs ih =>
    cases hr : read ⟨n, c :: cs⟩ with
    | none =>
      rw [find_of_none hr] at h
      obtain ⟨hs, hrest⟩ := ih _ h
      exact ⟨hs.trans ⟨[c], rfl, by simp⟩, hrest⟩
    | some p =>
      rw [find_of_some hr] at h
      cases h
      exact ⟨isEndOf_refl _, hread _ _ _ hr⟩

theorem LeavesEnd.of_mem_findAll (hread : LeavesEnd read) {x : α} (h : x ∈ findAll read s) :
    ∃ s' rest : Slice, s'.IsEndOf s ∧ read s' = some (x, rest) := by
  induction hn : s.chars.length using Nat.strong_induction_on generalizing s with
  | _ n ih =>
    rw [findAll] at h
    split at h
    · cases h
    · rename_i s' y r hf
      obtain ⟨hs, hr⟩ := hread.find hf
      split at h
      · rename_i hlt
        rcases List.mem_cons.mp h with rfl | h
        · exact ⟨s', r, hs, read_of_find hf⟩
        · obtain ⟨t, rest, ht, hread'⟩ := ih _ (hn ▸ hlt) h rfl
          exact ⟨t, rest, ht.trans (hr.trans hs), hread'⟩
      · cases List.mem_singleton.mp h
        exact ⟨s', r, hs, read_of_find hf⟩

theorem LeavesEnd.of_mem_findAllInLines (hread : LeavesEnd read) {x : α}
    (h : x ∈ findAllInLines read s) :
    ∃ s' rest : Slice, s'.IsEndOf s ∧ read s' = some (x, rest) := by
  suffices hgo : ∀ n b (s : Slice), s.chars.length = n → x ∈ findAllInLines.go read b s →
      ∃ s' rest : Slice, s'.IsEndOf s ∧ read s' = some (x, rest) from hgo _ true s rfl h
  clear h
  intro n
  induction n using Nat.strong_induction_on with
  | _ n ih =>
    intro b s hn h
    rw [findAllInLines.go.eq_def] at h
    split at h
    · rename_i a rest hr
      have hs : read s = some (a, rest) := by
        cases b with
        | true => simpa using hr
        | false => cases hr
      split at h
      · rename_i hlt
        rcases List.mem_cons.mp h with rfl | h
        · exact ⟨s, rest, isEndOf_refl s, hs⟩
        · obtain ⟨s', r, hend, hr'⟩ := ih _ (hn ▸ hlt) false rest rfl h
          exact ⟨s', r, hend.trans (hread _ _ _ hs), hr'⟩
      · cases List.mem_singleton.mp h
        exact ⟨s, rest, isEndOf_refl s, hs⟩
    · split at h
      · cases h
      · rename_i c cs hs
        have hlt := length_drop_lt hs 0
        obtain ⟨s', r, hend, hr'⟩ := ih _ (hn ▸ hlt) _ (s.drop 1) rfl h
        exact ⟨s', r, hend.trans (isEndOf_drop 1 s), hr'⟩

structure TakesParts (read : Reader α) (parts : α → List Slice) : Prop where
  leaves : LeavesEnd read
  inside : ∀ {s a rest}, read s = some (a, rest) → ∀ part ∈ parts a, part.IsPartOf s

section

variable {parts : α → List Slice} (hread : TakesParts read parts)
include hread

theorem TakesParts.find {x : α} (h : find read s = some (s', x, rest)) :
    ∀ part ∈ parts x, part.IsPartOf s := fun part hpart =>
  (hread.inside (read_of_find h) part hpart).trans_isEndOf (hread.leaves.find h).1

theorem TakesParts.of_mem_findAll {x : α} (h : x ∈ findAll read s) :
    ∀ part ∈ parts x, part.IsPartOf s := by
  obtain ⟨s', rest, hend, hs'⟩ := hread.leaves.of_mem_findAll h
  exact fun part hpart => (hread.inside hs' part hpart).trans_isEndOf hend

theorem TakesParts.of_mem_findAllInLines {x : α} (h : x ∈ findAllInLines read s) :
    ∀ part ∈ parts x, part.IsPartOf s := by
  obtain ⟨s', rest, hend, hs'⟩ := hread.leaves.of_mem_findAllInLines h
  exact fun part hpart => (hread.inside hs' part hpart).trans_isEndOf hend

end

end EmailTemplates.Text.Slice
