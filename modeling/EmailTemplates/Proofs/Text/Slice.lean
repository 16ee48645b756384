import EmailTemplates.Text.Slice
import Mathlib.Data.List.Infix
import Mathlib.Data.List.TakeWhile

namespace EmailTemplates.Text.Slice

variable {α : Type} {read : Reader α} {n : Nat} {c : Char} {cs ds rest : List Char}

theorem mem_parts {xs ys before after : List Char} (h : xs ++ ys = before ++ c :: after) :
    (∃ after', xs = before ++ c :: after' ∧ after = after' ++ ys) ∨
      ∃ before', before = xs ++ before' ∧ ys = before' ++ c :: after := by
  rcases List.append_eq_append_iff.mp h with ⟨before', hb, hy⟩ | ⟨tail, hx, hc⟩
  · exact .inr ⟨before', hb, hy⟩
  · cases tail with
    | nil =>
      refine .inr ⟨[], by simpa using hx.symm, ?_⟩
      simpa using hc.symm
    | cons d tail =>
      cases hc
      exact .inl ⟨tail, hx, rfl⟩

theorem drop_append (n : Nat) (cs rest : List Char) :
    (⟨n, cs ++ rest⟩ : Slice).drop cs.length = ⟨n + byteLength cs, rest⟩ := by
  simp [drop]

theorem take_append (n : Nat) (cs rest : List Char) :
    (⟨n, cs ++ rest⟩ : Slice).take cs.length = ⟨n, cs⟩ := by
  simp [take]

theorem drop_one (n : Nat) (c : Char) (cs : List Char) :
    (⟨n, c :: cs⟩ : Slice).drop 1 = ⟨n + c.utf8Size, cs⟩ := by
  simp [drop]

theorem before_append (n m : Nat) (cs rest : List Char) :
    (⟨n, cs ++ rest⟩ : Slice).before ⟨m, rest⟩ = ⟨n, cs⟩ := by
  simp [before, take]

theorem expect_cons (n : Nat) (c : Char) (cs : List Char) :
    (⟨n, c :: cs⟩ : Slice).expect c = some ⟨n + c.utf8Size, cs⟩ := by
  simp [expect, drop_one]

theorem expect_of_ne {d : Char} (h : d ≠ c) : (⟨n, d :: cs⟩ : Slice).expect c = none := by
  simp [expect, h]

theorem expectText_append (n : Nat) (text : String) (rest : List Char) :
    expectText text ⟨n, text.toList ++ rest⟩ = some ⟨n + byteLength text.toList, rest⟩ := by
  rw [expectText, if_pos (by simp), drop_append]

theorem expectText_eq_some {text : String} {s s' : Slice} (h : expectText text s = some s') :
    s.chars = text.toList ++ s'.chars := by
  unfold expectText at h
  split at h
  · rename_i hp
    cases h
    obtain ⟨tail, htail⟩ := List.isPrefixOf_iff_prefix.mp hp
    rw [chars_drop, ← htail, List.drop_left]
  · cases h

theorem expectText_eq_none {text : String} (h : ¬ text.toList <+: cs) (n : Nat) :
    expectText text ⟨n, cs⟩ = none := by
  have hnot : text.toList.isPrefixOf cs = false := by
    rwa [← Bool.not_eq_true, List.isPrefixOf_iff_prefix]
  simp [expectText, hnot]

theorem takeWhile_append {p : Char → Bool} (hcs : ∀ c ∈ cs, p c = true)
    (hr : ∀ c ∈ rest.head?, p c = false) : (cs ++ rest).takeWhile p = cs := by
  rw [List.takeWhile_append_of_pos hcs]
  cases rest with
  | nil => simp
  | cons c rest => simp [hr c rfl]

theorem dropWhile_append {p : Char → Bool} (hcs : ∀ c ∈ cs, p c = true)
    (hr : ∀ c ∈ rest.head?, p c = false) : (cs ++ rest).dropWhile p = rest := by
  rw [List.dropWhile_append_of_pos hcs]
  cases rest with
  | nil => rfl
  | cons c rest => simp [hr c rfl]

theorem takeWhile_append_cons {p : Char → Bool} (h : p c = false) (cs ds : List Char) :
    (cs ++ c :: ds).takeWhile p = cs.takeWhile p := by
  induction cs with
  | nil => simp [h]
  | cons x cs ih =>
    rw [List.cons_append, List.takeWhile_cons, List.takeWhile_cons, ih]

theorem dropWhile_append_cons {p : Char → Bool} (h : p c = false) (cs ds : List Char) :
    (cs ++ c :: ds).dropWhile p = cs.dropWhile p ++ c :: ds := by
  induction cs with
  | nil => simp [h]
  | cons x cs ih =>
    rw [List.cons_append, List.dropWhile_cons, List.dropWhile_cons]
    split
    · exact ih
    · rfl

theorem sliceDropWhile_append {p : Char → Bool} (n : Nat) (hcs : ∀ c ∈ cs, p c = true)
    (hr : ∀ c ∈ rest.head?, p c = false) :
    (⟨n, cs ++ rest⟩ : Slice).dropWhile p = ⟨n + byteLength cs, rest⟩ := by
  simp only [dropWhile, takeWhile_append hcs hr, dropWhile_append hcs hr]

theorem sliceTakeWhile_append {p : Char → Bool} (n : Nat) (hcs : ∀ c ∈ cs, p c = true)
    (hr : ∀ c ∈ rest.head?, p c = false) :
    (⟨n, cs ++ rest⟩ : Slice).takeWhile p = ⟨n, cs⟩ := by
  simp only [takeWhile, takeWhile_append hcs hr]

theorem head_cons {p : Char → Bool} {b : Bool} (h : p c = b) (cs : List Char) :
    ∀ d ∈ (c :: cs).head?, p d = b := by
  intro d hd
  cases hd
  exact h

theorem head_append {p : Char → Bool} (hne : cs ≠ []) (hcs : ∀ c ∈ cs, p c = false)
    (rest : List Char) : ∀ c ∈ (cs ++ rest).head?, p c = false := by
  cases cs with
  | nil => exact absurd rfl hne
  | cons c cs => exact head_cons (hcs c List.mem_cons_self) _

theorem sliceDropWhile_self {p : Char → Bool} (n : Nat) (hr : ∀ c ∈ rest.head?, p c = false) :
    (⟨n, rest⟩ : Slice).dropWhile p = ⟨n, rest⟩ := by
  have h := @sliceDropWhile_append [] _ _ n (by simp) hr
  simpa using h

theorem run_append {p : Char → Bool} (n : Nat) (hne : cs ≠ []) (hcs : ∀ c ∈ cs, p c = true)
    (hr : ∀ c ∈ rest.head?, p c = false) :
    (⟨n, cs ++ rest⟩ : Slice).run p = some (⟨n, cs⟩, ⟨n + byteLength cs, rest⟩) := by
  cases cs with
  | nil => exact absurd rfl hne
  | cons c cs =>
    have hrun := sliceTakeWhile_append n hcs hr
    have hrest := sliceDropWhile_append n hcs hr
    rw [List.cons_append] at hrun hrest ⊢
    simp only [run, hcs c List.mem_cons_self, if_true, hrun, hrest]

theorem skipBlanks_append (n : Nat) (hcs : cs.all isBlank = true)
    (hr : ∀ c ∈ rest.head?, isBlank c = false) :
    (⟨n, cs ++ rest⟩ : Slice).skipBlanks = ⟨n + byteLength cs, rest⟩ :=
  sliceDropWhile_append n (List.all_eq_true.mp hcs) hr

theorem skipBlanks_self (n : Nat) (hr : ∀ c ∈ rest.head?, isBlank c = false) :
    (⟨n, rest⟩ : Slice).skipBlanks = ⟨n, rest⟩ :=
  sliceDropWhile_self n hr

theorem skipBlanks?_append (n : Nat) (hne : cs ≠ []) (hcs : cs.all isBlank = true)
    (hr : ∀ c ∈ rest.head?, isBlank c = false) :
    (⟨n, cs ++ rest⟩ : Slice).skipBlanks? = some ⟨n + byteLength cs, rest⟩ := by
  have hskip := skipBlanks_append n hcs hr
  cases cs with
  | nil => exact absurd rfl hne
  | cons c cs =>
    have hc : isBlank c = true := List.all_eq_true.mp hcs c List.mem_cons_self
    rw [List.cons_append] at hskip ⊢
    simp only [skipBlanks?, hc, if_true, hskip]

theorem skipBlanks_blank (n : Nat) (hr : ∀ c ∈ rest.head?, isBlank c = false) :
    (⟨n, ' ' :: rest⟩ : Slice).skipBlanks = ⟨n + byteLength [' '], rest⟩ :=
  @skipBlanks_append [' '] _ n (by decide) hr

theorem skipBlanks?_blank (n : Nat) (hr : ∀ c ∈ rest.head?, isBlank c = false) :
    (⟨n, ' ' :: rest⟩ : Slice).skipBlanks? = some ⟨n + byteLength [' '], rest⟩ :=
  @skipBlanks?_append [' '] _ n (by simp) (by decide) hr

theorem length_dropWhile (p : Char → Bool) (s : Slice) :
    (s.dropWhile p).chars.length ≤ s.chars.length := by
  rw [chars_dropWhile]
  exact (List.dropWhile_suffix p).length_le

theorem length_drop (k : Nat) (s : Slice) : (s.drop k).chars.length ≤ s.chars.length := by
  rw [chars_drop]
  exact (List.drop_suffix k _).length_le

theorem length_expect {s s' : Slice} (h : s.expect c = some s') :
    s'.chars.length < s.chars.length := by
  unfold expect at h
  split at h
  · rename_i d cs hs
    split at h
    · cases h
      rw [chars_drop, hs]
      simp
    · cases h
  · cases h

theorem length_expectText {text : String} {s s' : Slice} (h : expectText text s = some s') :
    s'.chars.length ≤ s.chars.length := by
  rw [expectText_eq_some h, List.length_append]
  exact Nat.le_add_left _ _

theorem head?_of_expect {s s' : Slice} (h : s.expect c = some s') : s.chars.head? = some c := by
  unfold expect at h
  split at h
  · rename_i d cs hs
    split at h
    · rename_i hd
      rw [hs, List.head?_cons, hd]
    · cases h
  · cases h

theorem chars_of_run {p : Char → Bool} {s a s' : Slice} (h : s.run p = some (a, s')) :
    a.chars = s.chars.takeWhile p ∧ s'.chars = s.chars.dropWhile p := by
  unfold run at h
  split at h
  · split at h
    · cases h
      exact ⟨rfl, rfl⟩
    · cases h
  · cases h

theorem ne_nil_of_run {p : Char → Bool} {s a s' : Slice} (h : s.run p = some (a, s')) :
    a.chars ≠ [] := by
  unfold run at h
  split at h
  · rename_i c cs hs
    split at h
    · rename_i hc
      cases h
      simp [takeWhile, hs, hc]
    · cases h
  · cases h

theorem length_run {p : Char → Bool} {s a s' : Slice} (h : s.run p = some (a, s')) :
    s'.chars.length < s.chars.length := by
  unfold run at h
  split at h
  · rename_i c cs hs
    split at h
    · rename_i hc
      cases h
      rw [chars_dropWhile, hs, List.dropWhile_cons_of_pos hc, List.length_cons]
      exact Nat.lt_succ_of_le (List.dropWhile_suffix p).length_le
    · cases h
  · cases h

theorem length_skipBlanks? {s s' : Slice} (h : s.skipBlanks? = some s') :
    s'.chars.length ≤ s.chars.length := by
  unfold skipBlanks? at h
  split at h
  · split at h
    · cases h
      exact length_dropWhile _ _
    · cases h
  · cases h

theorem splitAt?_eq_some {text : String} {s a s' : Slice} (h : splitAt? text s = some (a, s')) :
    ∃ n, a = s.take n ∧ s' = s.drop (n + text.toList.length) ∧
      ∀ u v, s.chars = u ++ v → u.length < n → ¬ text.toList <+: v := by
  suffices hgo : ∀ cs k, splitAt?.go text s cs k = some (a, s') →
      ∃ n, a = s.take (k + n) ∧ s' = s.drop (k + n + text.toList.length) ∧
        ∀ u v, cs = u ++ v → u.length < n → ¬ text.toList <+: v by
    simpa only [Nat.zero_add] using hgo _ 0 h
  intro cs
  induction cs with
  | nil =>
    intro k h
    rw [splitAt?.go.eq_def] at h
    simp only at h
    split at h
    · cases h
      exact ⟨0, rfl, rfl, fun u v _ hu => absurd hu (Nat.not_lt_zero _)⟩
    · cases h
  | cons c cs ih =>
    intro k h
    rw [splitAt?.go.eq_def] at h
    simp only at h
    split at h
    · cases h
      exact ⟨0, rfl, rfl, fun u v _ hu => absurd hu (Nat.not_lt_zero _)⟩
    · rename_i hnot
      obtain ⟨n, rfl, rfl, hfirst⟩ := ih _ h
      have hn : k + 1 + n = k + (n + 1) := by omega
      refine ⟨n + 1, by rw [hn], by rw [hn], fun u v huv hu => ?_⟩
      cases u with
      | nil =>
        rw [List.nil_append] at huv
        rwa [← huv, ← List.isPrefixOf_iff_prefix]
      | cons d u => exact hfirst u v (List.cons.inj huv).2 (Nat.lt_of_succ_lt_succ hu)

theorem chars_of_splitAt? {text : String} {s a s' : Slice} (h : splitAt? text s = some (a, s')) :
    s.chars = a.chars ++ (text.toList ++ s'.chars) := by
  suffices hgo : ∀ cs k, s.chars.drop k = cs → splitAt?.go text s cs k = some (a, s') →
      s.chars = a.chars ++ (text.toList ++ s'.chars) from hgo _ 0 rfl h
  have hfound {k : Nat} (hp : text.toList.isPrefixOf (s.chars.drop k) = true) :
      s.chars = (s.take k).chars ++ (text.toList ++ (s.drop (k + text.toList.length)).chars) := by
    obtain ⟨tail, htail⟩ := List.isPrefixOf_iff_prefix.mp hp
    have hdrop : s.chars.drop (k + text.toList.length) = tail := by
      rw [← List.drop_drop, ← htail, List.drop_left]
    rw [chars_take, chars_drop, hdrop, htail, List.take_append_drop]
  intro cs
  induction cs with
  | nil =>
    intro k hk h
    rw [splitAt?.go.eq_def] at h
    simp only at h
    split at h
    · rename_i hp
      cases h
      exact hfound (hk ▸ hp)
    · cases h
  | cons c cs ih =>
    intro k hk h
    rw [splitAt?.go.eq_def] at h
    simp only at h
    split at h
    · rename_i hp
      cases h
      exact hfound (hk ▸ hp)
    · exact ih (k + 1) (by rw [← List.drop_drop, hk, List.drop_one, List.tail_cons]) h

theorem length_splitAt? {text : String} {s a s' : Slice} (h : splitAt? text s = some (a, s')) :
    s'.chars.length ≤ s.chars.length := by
  obtain ⟨n, -, rfl, -⟩ := splitAt?_eq_some h
  exact length_drop _ _

theorem not_infix_of_splitAt? {text : String} {s a s' : Slice} (hne : text.toList ≠ [])
    (h : splitAt? text s = some (a, s')) : ¬ text.toList <:+: a.chars := by
  obtain ⟨n, rfl, -, hfirst⟩ := splitAt?_eq_some h
  rintro ⟨u, v, huv⟩
  have hlength := congrArg List.length huv
  have hpos := List.length_pos_of_ne_nil hne
  simp only [chars_take, List.length_append, List.length_take] at hlength
  refine hfirst u (text.toList ++ v ++ s.chars.drop n) ?_ (by omega)
    ((List.prefix_append _ v).trans (List.prefix_append _ _))
  rw [← List.append_assoc, ← List.append_assoc, huv, chars_take, List.take_append_drop]

theorem splitAt?_go (s : Slice) (text : String) (k : Nat)
    (h : ∀ u v, cs = u ++ v → v ≠ [] → ¬ text.toList <+: v ++ (text.toList ++ rest)) :
    splitAt?.go text s (cs ++ (text.toList ++ rest)) k =
      some (s.take (k + cs.length), s.drop (k + cs.length + text.toList.length)) := by
  induction cs generalizing k with
  | nil =>
    have hp : text.toList.isPrefixOf (text.toList ++ rest) = true := by simp
    rw [List.nil_append, splitAt?.go.eq_def]
    simp only [hp, if_true, List.length_nil, Nat.add_zero]
  | cons c cs ih =>
    have hc := h [] (c :: cs) rfl (List.cons_ne_nil c cs)
    have hp : text.toList.isPrefixOf (c :: cs ++ (text.toList ++ rest)) = false := by
      rwa [← Bool.not_eq_true, List.isPrefixOf_iff_prefix]
    have htail := ih (k + 1) fun u v huv => h (c :: u) v (by rw [huv, List.cons_append])
    rw [List.cons_append] at hp ⊢
    rw [splitAt?.go.eq_def]
    simp only [hp, Bool.false_eq_true, if_false]
    rw [htail, List.length_cons, Nat.add_right_comm k 1, Nat.add_assoc k]

theorem splitAt?_append (n : Nat) (text : String)
    (h : ∀ u v, cs = u ++ v → v ≠ [] → ¬ text.toList <+: v ++ (text.toList ++ rest)) :
    splitAt? text ⟨n, cs ++ (text.toList ++ rest)⟩ =
      some (⟨n, cs⟩, ⟨n + byteLength (cs ++ text.toList), rest⟩) := by
  have hdrop := drop_append n (cs ++ text.toList) rest
  rw [List.append_assoc, List.length_append] at hdrop
  rw [splitAt?, splitAt?_go _ text 0 h, Nat.zero_add, take_append, hdrop]

theorem splitAt?_extend {text : String} {a s' : Slice} (h : splitAt? text ⟨n, cs⟩ = some (a, s'))
    (k : Nat) (ds : List Char) :
    ∃ m, splitAt? text ⟨k, cs ++ ds⟩ = some (⟨k, a.chars⟩, ⟨m, s'.chars ++ ds⟩) := by
  have hchars : cs = a.chars ++ (text.toList ++ s'.chars) := chars_of_splitAt? h
  obtain ⟨i, ha, -, hfirst⟩ := splitAt?_eq_some h
  refine ⟨k + byteLength (a.chars ++ text.toList), ?_⟩
  rw [hchars, List.append_assoc, List.append_assoc]
  refine splitAt?_append k text fun u v huv hv hprefix => ?_
  have hlength : u.length < i := by
    have hle : a.chars.length ≤ i := by
      rw [ha, chars_take]
      exact List.length_take_le _ _
    rw [huv, List.length_append] at hle
    have hpos := List.length_pos_of_ne_nil hv
    omega
  refine hfirst u (v ++ (text.toList ++ s'.chars)) ?_ hlength ?_
  · rw [← List.append_assoc, ← huv, ← hchars]
  · refine List.prefix_of_prefix_length_le hprefix ?_ (by simp; omega)
    exact ⟨ds, by simp⟩

theorem splitAt?_char {text : String} (ht : text.toList = [c]) (h : c ∉ cs) (n : Nat) :
    splitAt? text ⟨n, cs ++ c :: rest⟩ =
      some (⟨n, cs⟩, ⟨n + byteLength (cs ++ [c]), rest⟩) := by
  have hsplit := @splitAt?_append cs rest n text (fun us vs huv hvs hprefix => by
    cases vs with
    | nil => exact hvs rfl
    | cons v vs =>
      rw [ht] at hprefix
      obtain rfl : c = v := (List.cons_prefix_cons.mp hprefix).1
      exact h (by simp [huv]))
  rwa [ht] at hsplit

def Passes (read : Reader α) : List Char → List Char → Prop
  | [], _ => True
  | c :: cs, rest => (∀ n, read ⟨n, c :: (cs ++ rest)⟩ = none) ∧ Passes read cs rest

theorem passes_append : Passes read (cs ++ ds) rest ↔
    Passes read cs (ds ++ rest) ∧ Passes read ds rest := by
  induction cs with
  | nil => simp [Passes]
  | cons c cs ih => simp [Passes, ih, and_assoc]

theorem passes_of_forall (h : ∀ u v, cs = u ++ v → v ≠ [] → ∀ n, read ⟨n, v ++ rest⟩ = none) :
    Passes read cs rest := by
  induction cs with
  | nil => trivial
  | cons c cs ih =>
    refine ⟨h [] (c :: cs) rfl (List.cons_ne_nil c cs), ih fun u v huv => ?_⟩
    exact h (c :: u) v (by rw [huv, List.cons_append])

theorem find_of_none (h : read ⟨n, c :: cs⟩ = none) :
    find read ⟨n, c :: cs⟩ = find read ⟨n + c.utf8Size, cs⟩ := by
  rw [find, find.go, h]
  simp only [drop_one]
  rfl

theorem find_append (h : Passes read cs rest) (n : Nat) :
    find read ⟨n, cs ++ rest⟩ = find read ⟨n + byteLength cs, rest⟩ := by
  induction cs generalizing n with
  | nil => simp
  | cons c cs ih =>
    rw [List.cons_append, find_of_none (h.1 n), ih h.2, byteLength_cons, Nat.add_assoc]

theorem find_of_some {s rest : Slice} {a : α} (h : read s = some (a, rest)) :
    find read s = some (s, a, rest) := by
  rw [find]
  cases s.chars <;> simp [find.go, h]

theorem find_eq_none (h : Passes read cs []) (n : Nat)
    (hnil : ∀ n, read ⟨n, []⟩ = none) : find read ⟨n, cs⟩ = none := by
  rw [← List.append_nil cs, find_append h, find, find.go, hnil]
  rfl

def Advances (read : Reader α) : Prop :=
  ∀ s a rest, read s = some (a, rest) → rest.chars.length < s.chars.length

theorem length_of_find (hread : Advances read) {s s' r : Slice} {a : α}
    (h : find read s = some (s', a, r)) : r.chars.length < s.chars.length := by
  obtain ⟨n, cs⟩ := s
  induction cs generalizing n with
  | nil =>
    rw [find, find.go] at h
    obtain ⟨⟨b, t⟩, hb, ht⟩ := Option.map_eq_some_iff.mp h
    cases ht
    exact hread _ _ _ hb
  | cons c cs ih =>
    cases hr : read ⟨n, c :: cs⟩ with
    | none =>
      rw [find_of_none hr] at h
      exact Nat.lt_succ_of_lt (ih _ h)
    | some p =>
      rw [find_of_some hr] at h
      cases h
      exact hread _ _ _ hr

theorem findAll_of_some (hread : Advances read) {s rest : Slice} {a : α}
    (h : read s = some (a, rest)) : findAll read s = a :: findAll read rest := by
  have hlt := hread s a rest h
  rw [findAll, find_of_some h]
  simp only [hlt, if_true]

theorem findAll_append (hread : Advances read) (h : Passes read cs rest) (n : Nat) :
    findAll read ⟨n, cs ++ rest⟩ = findAll read ⟨n + byteLength cs, rest⟩ := by
  have hfind := find_append h n
  rw [findAll, findAll]
  cases hf : find read ⟨n + byteLength cs, rest⟩ with
  | none => rw [hfind, hf]
  | some p =>
    obtain ⟨s', a, r⟩ := p
    have hlt : r.chars.length < rest.length := length_of_find hread hf
    have hlt' : r.chars.length < (cs ++ rest).length := by
      rw [List.length_append]
      omega
    rw [hfind, hf]
    simp only [hlt, hlt', if_true]

theorem findAll_eq_nil (h : Passes read cs []) (n : Nat) (hnil : ∀ n, read ⟨n, []⟩ = none) :
    findAll read ⟨n, cs⟩ = [] := by
  rw [findAll, find_eq_none h n hnil]

theorem findAllInLines_of_none {b : Bool} (h : b = true → read ⟨n, c :: cs⟩ = none) :
    findAllInLines.go read b ⟨n, c :: cs⟩ =
      findAllInLines.go read (c == '\n') ⟨n + c.utf8Size, cs⟩ := by
  have hread : (if b then read ⟨n, c :: cs⟩ else none) = none := by
    cases b with
    | false => rfl
    | true => simpa using h rfl
  rw [findAllInLines.go.eq_def, hread]
  simp only [drop_one]

theorem findAllInLines_of_some (hread : Advances read) {s rest : Slice} {a : α}
    (h : read s = some (a, rest)) :
    findAllInLines.go read true s = a :: findAllInLines.go read false rest := by
  have hlt := hread s a rest h
  rw [findAllInLines.go.eq_def, if_pos rfl, h]
  simp only [hlt, if_true]

theorem findAllInLines_line (h : '\n' ∉ cs) (n : Nat) :
    findAllInLines.go read false ⟨n, cs ++ '\n' :: rest⟩ =
      findAllInLines.go read true ⟨n + byteLength cs + '\n'.utf8Size, rest⟩ := by
  induction cs generalizing n with
  | nil =>
    rw [List.nil_append, findAllInLines_of_none (by simp)]
    rfl
  | cons c cs ih =>
    rw [List.mem_cons, not_or] at h
    have hc : (c == '\n') = false := by simpa using Ne.symm h.1
    rw [List.cons_append, findAllInLines_of_none (by simp), hc, ih h.2, byteLength_cons,
      Nat.add_assoc n]

end EmailTemplates.Text.Slice
