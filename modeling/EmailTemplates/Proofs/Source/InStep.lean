import EmailTemplates.Proofs.Source.Cut

namespace EmailTemplates.Source.Literal

open EmailTemplates.Text (Slice byteLength byteLength_append)

variable {c : Char} {depth k n : Nat} {cs e a b u w x y z : List Char}

inductive Closes : (depth : Nat) → List Char → Prop
  | nil : Closes 0 []
  | opening {depth : Nat} {cs : List Char} : Closes (depth + 1) cs → Closes depth ('{' :: cs)
  | closing {depth : Nat} {cs : List Char} : Closes depth cs → Closes (depth + 1) ('}' :: cs)
  | char {c : Char} {depth : Nat} {cs : List Char} : c ≠ '{' → c ≠ '}' → Closes depth cs →
      Closes depth (c :: cs)

theorem expressionLength_char (ho : c ≠ '{') (hc : c ≠ '}') (depth : Nat) (cs : List Char) :
    expressionLength depth (c :: cs) = (expressionLength depth cs).map (· + 1) := by
  cases depth <;> simp [expressionLength, hc]

theorem Closes.expressionLength (h : Closes depth e) (rest : List Char) :
    expressionLength depth (e ++ '}' :: rest) = some e.length := by
  induction h with
  | nil => rfl
  | opening _ ih => simp [Literal.expressionLength, ih]
  | closing _ ih => simp [Literal.expressionLength, ih]
  | char ho hc _ ih => simp [expressionLength_char ho hc, ih]

theorem exists_closes (h : expressionLength depth cs = some n) :
    ∃ e rest, cs = e ++ '}' :: rest ∧ e.length = n ∧ Closes depth e := by
  induction cs generalizing depth n with
  | nil => simp [expressionLength] at h
  | cons c cs ih =>
    by_cases ho : c = '{'
    · subst ho
      rw [expressionLength.eq_def] at h
      obtain ⟨m, hm, rfl⟩ := Option.map_eq_some_iff.mp h
      obtain ⟨e, rest, rfl, rfl, he⟩ := ih hm
      exact ⟨'{' :: e, rest, rfl, rfl, he.opening⟩
    · by_cases hc : c = '}'
      · subst hc
        cases depth with
        | zero =>
          cases h
          exact ⟨[], cs, rfl, rfl, .nil⟩
        | succ depth =>
          obtain ⟨m, hm, rfl⟩ := Option.map_eq_some_iff.mp h
          obtain ⟨e, rest, rfl, rfl, he⟩ := ih hm
          exact ⟨'}' :: e, rest, rfl, rfl, he.closing⟩
      · rw [expressionLength_char ho hc] at h
        obtain ⟨m, hm, rfl⟩ := Option.map_eq_some_iff.mp h
        obtain ⟨e, rest, rfl, rfl, he⟩ := ih hm
        exact ⟨c :: e, rest, rfl, rfl, he.char ho hc⟩

theorem Closes.of_append (h : Closes depth (a ++ b)) : ∃ depth, Closes depth b := by
  induction a generalizing depth with
  | nil => exact ⟨depth, h⟩
  | cons c a ih => cases h <;> exact ih ‹_›

theorem Closes.split (h : Closes (k + 1 + n) e) :
    ∃ a b, e = a ++ '}' :: b ∧ Closes k a ∧ Closes n b := by
  generalize hdepth : k + 1 + n = depth at h
  induction h generalizing k with
  | nil => omega
  | opening _ ih =>
    obtain ⟨a, b, rfl, ha, hb⟩ := @ih (k + 1) (by omega)
    exact ⟨'{' :: a, b, rfl, ha.opening, hb⟩
  | @closing depth cs h ih =>
    cases k with
    | zero =>
      obtain rfl : n = depth := by omega
      exact ⟨[], cs, rfl, .nil, h⟩
    | succ k =>
      obtain ⟨a, b, rfl, ha, hb⟩ := @ih k (by omega)
      exact ⟨'}' :: a, b, rfl, ha.closing, hb⟩
  | char ho hc _ ih =>
    obtain ⟨a, b, rfl, ha, hb⟩ := ih hdepth
    exact ⟨_ :: a, b, rfl, ha.char ho hc, hb⟩

def Stops (w rest : List Char) : Prop :=
  ∀ n, ∃ ps, pieces ⟨n, w ++ rest⟩ = ps ++ pieces ⟨n + byteLength w, rest⟩

theorem stops_nil (rest : List Char) : Stops [] rest :=
  fun _ => ⟨[], rfl⟩

theorem Stops.append (ha : Stops a (b ++ z)) (hb : Stops b z) : Stops (a ++ b) z := by
  intro n
  obtain ⟨ps, hps⟩ := ha n
  obtain ⟨qs, hqs⟩ := hb (n + byteLength a)
  refine ⟨ps ++ qs, ?_⟩
  rw [List.append_assoc, hps, hqs, byteLength_append, List.append_assoc, Nat.add_assoc]

theorem stops_of_nextPiece (h : ∀ n, ∃ p, nextPiece ⟨n, c :: (w ++ z)⟩ = (p, w.length)) :
    Stops (c :: w) z := by
  intro n
  obtain ⟨p, hp⟩ := h n
  refine ⟨[p], ?_⟩
  have hdrop := Slice.drop_append n (c :: w) z
  rw [List.cons_append, List.length_cons] at hdrop
  rw [List.cons_append, pieces_of_nextPiece rfl hp, hdrop]
  rfl

theorem stops_escape (c : Char) (z : List Char) : Stops ['\\', c] z :=
  stops_of_nextPiece fun _ => ⟨_, rfl⟩

theorem nextPiece_char (hc : c ≠ '\\') (ho : c = '$' → cs.head? ≠ some '{') (n : Nat) :
    nextPiece ⟨n, c :: cs⟩ = (.char c, 0) := by
  rw [nextPiece]
  split
  · rename_i heq
    cases heq
  · rename_i heq
    exact absurd (List.cons.inj heq).1 hc
  · rename_i heq
    obtain ⟨rfl, rfl⟩ := List.cons.inj heq
    exact absurd rfl (ho rfl)
  · rename_i heq
    rw [(List.cons.inj heq).1]

theorem stops_char (hc : c ≠ '\\') (ho : c = '$' → z.head? ≠ some '{') : Stops [c] z :=
  stops_of_nextPiece fun n => ⟨_, nextPiece_char hc ho n⟩

theorem nextPiece_interpolation (he : Closes 0 e) (n : Nat) (rest : List Char) :
    nextPiece ⟨n, '$' :: '{' :: (e ++ '}' :: rest)⟩ =
      (match nameOf? e with
        | some name => .reference name
        | none => .unsupported ⟨n, '$' :: '{' :: (e ++ ['}'])⟩, e.length + 2) := by
  have htake : (⟨n, '$' :: '{' :: (e ++ '}' :: rest)⟩ : Slice).take (e.length + 3) =
      ⟨n, '$' :: '{' :: (e ++ ['}'])⟩ := by
    have h := Slice.take_append n ('$' :: '{' :: (e ++ ['}'])) rest
    simpa using h
  rw [nextPiece]
  simp only [he.expressionLength, List.take_left, htake]
  cases nameOf? e <;> rfl

theorem stops_interpolation (he : Closes 0 e) (z : List Char) :
    Stops ('$' :: '{' :: (e ++ ['}'])) z := by
  refine stops_of_nextPiece fun n => ?_
  rw [List.cons_append, List.append_assoc, List.singleton_append, List.length_cons,
    List.length_append]
  exact ⟨_, nextPiece_interpolation he n z⟩

theorem Closes.stops (h : Closes depth e) (z : List Char) : Stops (e ++ ['}']) z := by
  induction hn : e.length using Nat.strong_induction_on generalizing depth e with
  | _ n ih =>
    subst hn
    cases e with
    | nil => exact stops_char (by decide) (by simp)
    | cons c e =>
      obtain ⟨k, hk⟩ := h.of_append (a := [c])
      by_cases hc : c = '\\'
      · subst hc
        cases e with
        | nil => exact stops_escape '}' z
        | cons c e =>
          obtain ⟨l, hl⟩ := hk.of_append (a := [c])
          exact (stops_escape c (e ++ ['}'] ++ z)).append (ih _ (by simp) hl rfl)
      · by_cases ho : c = '$' ∧ e.head? = some '{'
        · obtain ⟨rfl, hhead⟩ := ho
          obtain ⟨e, rfl⟩ := List.head?_eq_some_iff.mp hhead
          have hopen : Closes (0 + 1 + depth) e := by
            cases h with
            | char _ _ h =>
              rw [Nat.zero_add, Nat.add_comm]
              cases h with
              | opening h => exact h
              | char h => exact absurd rfl h
          obtain ⟨a, b, rfl, ha, hb⟩ := hopen.split
          have hlt : b.length < ('$' :: '{' :: (a ++ '}' :: b)).length := by
            simp only [List.length_cons, List.length_append]
            omega
          have hstops := (stops_interpolation ha (b ++ ['}'] ++ z)).append (ih _ hlt hb rfl)
          simpa using hstops
        · refine (stops_char hc ?_).append (ih _ (Nat.lt_succ_self _) hk rfl)
          rintro rfl hhead
          cases e with
          | nil => simp at hhead
          | cons c e => exact ho ⟨rfl, hhead⟩

inductive Takes (y : List Char) : List Char → Prop
  | nil : Takes y []
  | escape {x : List Char} (c : Char) : Takes y x → Takes y ('\\' :: c :: x)
  | interpolation {e x : List Char} : Closes 0 e → Takes y x →
      Takes y ('$' :: '{' :: (e ++ '}' :: x))
  | char {c : Char} {x : List Char} : c ≠ '`' → c ≠ '\\' →
      (c = '$' → (x ++ y).head? ≠ some '{') → Takes y x → Takes y (c :: x)

theorem Takes.of_append (h : Takes (y ++ z) x) : Takes y x := by
  induction h with
  | nil => exact .nil
  | escape c _ ih => exact ih.escape c
  | interpolation he _ ih => exact ih.interpolation he
  | char hend hc ho _ ih =>
    refine ih.char hend hc fun hdollar hhead => ho hdollar ?_
    obtain ⟨tail, htail⟩ := List.head?_eq_some_iff.mp hhead
    rw [← List.append_assoc, htail]
    rfl

theorem Takes.stops (h : Takes y x) : Stops x y := by
  induction h with
  | nil => exact stops_nil y
  | @escape x c _ ih => exact (stops_escape c (x ++ y)).append ih
  | @interpolation e x he _ ih =>
    have hstops := (stops_interpolation he (x ++ y)).append ih
    simpa using hstops
  | char _ hc ho _ ih => exact (stops_char hc ho).append ih

theorem Takes.stops_of_cut (h : Takes y (u ++ w)) (hcut : Cut u (w ++ y)) : Stops w y := by
  generalize hx : u ++ w = x at h
  induction h generalizing u with
  | nil =>
    obtain ⟨-, rfl⟩ := List.append_eq_nil_iff.mp hx
    exact stops_nil y
  | @escape x c h ih =>
    rcases List.append_eq_cons_iff.mp hx with ⟨rfl, rfl⟩ | ⟨u, rfl, hu⟩
    · exact (h.escape c).stops
    rcases List.append_eq_cons_iff.mp hu.symm with ⟨rfl, rfl⟩ | ⟨u, rfl, hv⟩
    · -- the cut is beside the character that is escaped, which is not special then
      have hc : Seam c := (Cut.seam (a := []) hcut).resolve_left fun hs => hs.ne (.inl rfl) rfl
      refine (stops_char (hc.ne (.inl rfl)) fun hdollar => ?_).append (h.stops)
      exact absurd hdollar (hc.ne (.inl rfl))
    · have hcut' : Cut (['\\', c] ++ u) (w ++ y) := hcut
      exact ih hcut'.of_append hv.symm
  | @interpolation e x he h ih =>
    rcases List.append_eq_cons_iff.mp hx with ⟨rfl, rfl⟩ | ⟨u, rfl, hu⟩
    · exact (h.interpolation he).stops
    rcases List.append_eq_cons_iff.mp hu.symm with ⟨rfl, rfl⟩ | ⟨u, rfl, hv⟩
    · rcases Cut.seam (a := []) hcut with hs | hs
      · exact absurd rfl (hs.ne (.inl rfl))
      · exact absurd rfl (hs.ne (.inr (by decide)))
    rcases List.append_eq_append_iff.mp hv.symm with ⟨e', rfl, rfl⟩ | ⟨u', rfl, hw⟩
    · obtain ⟨depth, he'⟩ := he.of_append
      have hstops := (he'.stops (x ++ y)).append (h.stops)
      simpa using hstops
    rcases List.append_eq_cons_iff.mp hw.symm with ⟨rfl, rfl⟩ | ⟨u, rfl, hrest⟩
    · exact (Closes.nil.stops (x ++ y)).append (h.stops)
    · have hcut' : Cut ('$' :: '{' :: (e ++ ['}']) ++ u) (w ++ y) := by simpa using hcut
      exact ih hcut'.of_append hrest.symm
  | @char c x hend hc ho h ih =>
    rcases List.append_eq_cons_iff.mp hx with ⟨rfl, rfl⟩ | ⟨u, rfl, hu⟩
    · exact (h.char hend hc ho).stops
    · have hcut' : Cut ([c] ++ u) (w ++ y) := hcut
      exact ih hcut'.of_append hu.symm

end EmailTemplates.Source.Literal
