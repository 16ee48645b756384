import EmailTemplates.Proofs.Source.InStep

namespace EmailTemplates.Source.Literal

open EmailTemplates.Text (Slice byteLength byteLength_append)
open Outcome (map_add_map_add)

variable {c : Char} {n : Nat} {cs e a x y : List Char}

def codeOf (expression : List Char) : List Char :=
  '$' :: '{' :: (expression ++ ['}'])

@[simp] theorem length_codeOf (e : List Char) : (codeOf e).length = e.length + 3 := by
  simp [codeOf]

theorem codeOf_append (e rest : List Char) :
    codeOf e ++ rest = '$' :: '{' :: (e ++ '}' :: rest) := by
  simp [codeOf]

theorem bodyLength_codeOf (he : Closes 0 e) (rest : List Char) :
    bodyLength (codeOf e ++ rest) = (bodyLength rest).map (· + (codeOf e).length) := by
  have hdrop : (e ++ '}' :: rest).drop (e.length + 1) = rest := by simp
  rw [codeOf_append, bodyLength, he.expressionLength, length_codeOf]
  simp only [Option.bind_eq_bind, Option.bind_some, hdrop]

theorem bodyLength_char (hend : c ≠ '`') (hc : c ≠ '\\') (ho : c = '$' → cs.head? ≠ some '{') :
    bodyLength (c :: cs) = (bodyLength cs).map (· + 1) := by
  rw [bodyLength.eq_def]
  split
  · rename_i heq
    cases heq
  · rename_i heq
    exact absurd (List.cons.inj heq).1 hend
  · rename_i heq
    exact absurd (List.cons.inj heq).1 hc
  · rename_i heq
    obtain ⟨rfl, rfl⟩ := List.cons.inj heq
    exact absurd rfl (ho rfl)
  · rename_i heq
    rw [(List.cons.inj heq).2]

theorem Takes.bodyLength (h : Takes y x) :
    bodyLength (x ++ y) = (bodyLength y).map (· + x.length) := by
  induction h with
  | nil => simp
  | @escape x c _ ih =>
    change Literal.bodyLength ('\\' :: c :: (x ++ y)) = _
    rw [Literal.bodyLength, ih, map_add_map_add, Nat.add_comm]
    rfl
  | @interpolation e x he _ ih =>
    rw [← codeOf_append, List.append_assoc, bodyLength_codeOf he, ih, map_add_map_add,
      List.length_append, Nat.add_comm]
  | char hend hc ho _ ih =>
    rw [List.cons_append, bodyLength_char hend hc ho, ih, map_add_map_add, Nat.add_comm]
    rfl

theorem unsupported_mem_pieces_codeOf (he : Closes 0 e) (hname : nameOf? e = none) (n : Nat)
    (rest : List Char) : .unsupported ⟨n, codeOf e⟩ ∈ pieces ⟨n, codeOf e ++ rest⟩ := by
  have hnext := nextPiece_interpolation he n rest
  rw [hname] at hnext
  rw [codeOf_append, pieces_of_nextPiece rfl hnext]
  exact List.mem_cons_self

def interpolations (s : Slice) : List (Slice × Slice) :=
  match hs : s.chars with
  | [] => []
  | '`' :: _ => []
  | '\\' :: _ :: _ =>
    have := Slice.length_drop_lt hs 1
    interpolations (s.drop 2)
  | '$' :: '{' :: cs =>
    match expressionLength 0 cs with
    | none => []
    | some n =>
      have := Slice.length_drop_lt hs (n + 2)
      (s.take (n + 3), (s.drop 2).take n) :: interpolations (s.drop (n + 3))
  | _ :: _ =>
    have := Slice.length_drop_lt hs 0
    interpolations (s.drop 1)
termination_by s.chars.length

theorem interpolations_escape (c : Char) (n : Nat) (cs : List Char) :
    interpolations ⟨n, '\\' :: c :: cs⟩ = interpolations ⟨n + byteLength ['\\', c], cs⟩ := by
  rw [interpolations.eq_def]
  exact congrArg interpolations (Slice.drop_append n ['\\', c] cs)

theorem interpolations_codeOf (he : Closes 0 e) (n : Nat) (rest : List Char) :
    interpolations ⟨n, codeOf e ++ rest⟩ =
      (⟨n, codeOf e⟩, ⟨n + byteLength ['$', '{'], e⟩) ::
        interpolations ⟨n + byteLength (codeOf e), rest⟩ := by
  have htake := Slice.take_append n (codeOf e) rest
  have hdrop := Slice.drop_append n (codeOf e) rest
  have hexpression := Slice.take_append (n + byteLength ['$', '{']) e ('}' :: rest)
  rw [← Slice.drop_append n ['$', '{'] (e ++ '}' :: rest)] at hexpression
  rw [length_codeOf, codeOf_append] at htake hdrop
  rw [codeOf_append, interpolations.eq_def]
  simp only [he.expressionLength, htake, hdrop]
  exact congrArg (fun s => (_, s) :: _) hexpression

theorem interpolations_char (hend : c ≠ '`') (hc : c ≠ '\\')
    (ho : c = '$' → cs.head? ≠ some '{') (n : Nat) :
    interpolations ⟨n, c :: cs⟩ = interpolations ⟨n + byteLength [c], cs⟩ := by
  have hdrop := Slice.drop_append n [c] cs
  rw [interpolations.eq_def]
  split
  · rename_i heq
    cases heq
  · rename_i heq
    exact absurd (List.cons.inj heq).1 hend
  · rename_i heq
    exact absurd (List.cons.inj heq).1 hc
  · rename_i heq
    obtain ⟨rfl, rfl⟩ := List.cons.inj heq
    exact absurd rfl (ho rfl)
  · exact congrArg interpolations hdrop

inductive Passed (s : Slice) : (code expression : Slice) → Prop
  | code {x e rest : List Char} : Takes (codeOf e ++ rest) x → Closes 0 e →
      s.chars = x ++ (codeOf e ++ rest) →
      Passed s ⟨s.start + byteLength x, codeOf e⟩ ⟨s.start + byteLength (x ++ ['$', '{']), e⟩

variable {s code expression : Slice}

theorem Passed.behind (hs : s.chars = a ++ cs)
    (ha : ∀ x y, y ≠ [] → cs = x ++ y → Takes y x → Takes y (a ++ x))
    (h : Passed (s.drop a.length) code expression) : Passed s code expression := by
  have hdrop : s.drop a.length = ⟨s.start + byteLength a, cs⟩ := by
    rw [← Slice.drop_append, ← hs]
  rw [hdrop] at h
  cases h with
  | @code x e rest hx he hcs =>
    have hchars : s.chars = a ++ x ++ (codeOf e ++ rest) := by
      rw [hs, List.append_assoc]
      exact congrArg (a ++ ·) hcs
    have hpassed := Passed.code (ha x _ (by simp [codeOf]) hcs hx) he hchars
    rwa [List.append_assoc, byteLength_append, byteLength_append, ← Nat.add_assoc,
      ← Nat.add_assoc] at hpassed

theorem passed_of_mem (h : (code, expression) ∈ interpolations s) : Passed s code expression := by
  induction hn : s.chars.length using Nat.strong_induction_on generalizing s with
  | _ n ih =>
    subst hn
    have hunfolded := h
    rw [interpolations.eq_def] at hunfolded
    split at hunfolded
    · cases hunfolded
    · cases hunfolded
    · rename_i c cs hs
      refine Passed.behind (a := ['\\', c]) hs (fun x y _ _ hx => hx.escape c) ?_
      exact ih _ (Slice.length_drop_lt hs 1) hunfolded rfl
    · rename_i cs hs
      split at hunfolded
      · cases hunfolded
      · rename_i n hn
        obtain ⟨e, rest, rfl, -, he⟩ := exists_closes hn
        obtain ⟨n, chars⟩ := s
        obtain rfl : chars = codeOf e ++ rest := hs.trans (codeOf_append e rest).symm
        rw [interpolations_codeOf he] at h
        rcases List.mem_cons.mp h with h | h
        · cases h
          exact .code .nil he rfl
        · refine Passed.behind rfl (fun x y _ _ hx => ?_) ?_
          · rw [codeOf_append]
            exact hx.interpolation he
          · rw [Slice.drop_append]
            exact ih _ (by simp) h rfl
    · rename_i c cs hend hc ho hs
      refine Passed.behind (a := [c]) hs (fun x y hy hxy hx => hx.char hend ?_ ?_)
        (ih _ (Slice.length_drop_lt hs 0) hunfolded rfl)
      · rintro rfl
        obtain ⟨head, tail, hcs⟩ :=
          List.exists_cons_of_ne_nil (List.append_ne_nil_of_right_ne_nil x hy)
        exact hc head tail rfl (hxy.trans hcs)
      · intro hdollar hhead
        obtain ⟨tail, hcs⟩ := List.head?_eq_some_iff.mp hhead
        exact ho tail hdollar (hxy.trans hcs)

theorem Takes.mem_interpolations {p : Slice × Slice} (h : Takes y x)
    (hp : p ∈ interpolations ⟨n + byteLength x, y⟩) : p ∈ interpolations ⟨n, x ++ y⟩ := by
  induction h generalizing n with
  | nil => exact hp
  | @escape x c _ ih =>
    change p ∈ interpolations ⟨n + byteLength (['\\', c] ++ x), y⟩ at hp
    rw [byteLength_append, ← Nat.add_assoc] at hp
    rw [List.cons_append, List.cons_append, interpolations_escape]
    exact ih hp
  | @interpolation e x he _ ih =>
    rw [← codeOf_append, byteLength_append, ← Nat.add_assoc] at hp
    rw [← codeOf_append, List.append_assoc, interpolations_codeOf he]
    exact List.mem_cons_of_mem _ (ih hp)
  | @char c x hend hc ho _ ih =>
    rw [← List.singleton_append, byteLength_append, ← Nat.add_assoc] at hp
    rw [List.cons_append, interpolations_char hend hc ho]
    exact ih hp

theorem Passed.mem_interpolations (h : Passed s code expression) :
    (code, expression) ∈ interpolations s := by
  cases h with
  | @code x e rest hx he hchars =>
    obtain ⟨n, chars⟩ := s
    obtain rfl : chars = _ := hchars
    refine hx.mem_interpolations ?_
    rw [interpolations_codeOf he, byteLength_append, ← Nat.add_assoc]
    exact List.mem_cons_self

theorem mem_interpolations_iff :
    (code, expression) ∈ interpolations s ↔ Passed s code expression :=
  ⟨passed_of_mem, Passed.mem_interpolations⟩

theorem Passed.take (h : Passed s code expression)
    (hn : Literal.bodyLength s.chars = some n) : Passed (s.take n) code expression := by
  cases h with
  | @code x e rest hx he hchars =>
    rw [hchars, hx.bodyLength, bodyLength_codeOf he, map_add_map_add] at hn
    obtain ⟨k, hk, rfl⟩ := Option.map_eq_some_iff.mp hn
    have htake : (s.take (k + (x.length + (codeOf e).length))).chars =
        x ++ (codeOf e ++ rest.take k) := by
      rw [Slice.chars_take, hchars, ← List.append_assoc, ← List.append_assoc,
        ← List.length_append, Nat.add_comm, List.take_length_add_append]
    rw [← List.take_append_drop k rest, ← List.append_assoc] at hx
    exact .code hx.of_append he htake

end EmailTemplates.Source.Literal
