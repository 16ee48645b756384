import EmailTemplates.Proofs.Outcome
import EmailTemplates.Source.Declaration
import EmailTemplates.Source.Literal
import Mathlib

namespace EmailTemplates

namespace Text

def utf8 (cs : List Char) : List UInt8 :=
  cs.flatMap String.utf8EncodeChar

def IsHigh (bs : List UInt8) : Prop :=
  ∀ b ∈ bs, 128 ≤ b.toNat

theorem utf8_cons (c : Char) (cs : List Char) :
    utf8 (c :: cs) = String.utf8EncodeChar c ++ utf8 cs :=
  List.flatMap_cons

theorem utf8_append (cs ds : List Char) : utf8 (cs ++ ds) = utf8 cs ++ utf8 ds :=
  List.flatMap_append

theorem length_utf8 (cs : List Char) : (utf8 cs).length = byteLength cs := by
  induction cs with
  | nil => rfl
  | cons c cs ih =>
    rw [utf8_cons, List.length_append, String.length_utf8EncodeChar, ih, byteLength_cons]

theorem utf8EncodeChar_ascii {c : Char} (h : c.toNat < 128) :
    String.utf8EncodeChar c = [UInt8.ofNat c.toNat] := by
  have hle : c.val.toNat ≤ 127 := Nat.le_of_lt_succ h
  simp only [String.utf8EncodeChar, hle, if_true]
  rfl

theorem utf8Size_ascii {c : Char} (h : c.toNat < 128) : c.utf8Size = 1 := by
  rw [← String.length_utf8EncodeChar, utf8EncodeChar_ascii h, List.length_singleton]

theorem isHigh_utf8EncodeChar {c : Char} (h : 128 ≤ c.toNat) :
    IsHigh (String.utf8EncodeChar c) := by
  have hlt : ¬ c.val.toNat ≤ 127 := Nat.not_le.mpr h
  intro b hb
  simp only [String.utf8EncodeChar, hlt, if_false] at hb
  split at hb
  · simp only [List.mem_cons, List.not_mem_nil, or_false] at hb
    rcases hb with rfl | rfl <;> simp only [UInt8.toNat_ofNat'] <;> omega
  · split at hb
    · simp only [List.mem_cons, List.not_mem_nil, or_false] at hb
      rcases hb with rfl | rfl | rfl <;> simp only [UInt8.toNat_ofNat'] <;> omega
    · simp only [List.mem_cons, List.not_mem_nil, or_false] at hb
      rcases hb with rfl | rfl | rfl | rfl <;> simp only [UInt8.toNat_ofNat'] <;> omega

theorem exists_utf8EncodeChar (c : Char) : ∃ b bs, String.utf8EncodeChar c = b :: bs ∧ IsHigh bs ∧
    bs.length + 1 = c.utf8Size := by
  have hlength := String.length_utf8EncodeChar c
  cases hbytes : String.utf8EncodeChar c with
  | nil =>
    rw [hbytes] at hlength
    exact absurd hlength.symm (Nat.ne_of_gt c.utf8Size_pos)
  | cons b bs =>
    rw [hbytes] at hlength
    refine ⟨b, bs, rfl, ?_, hlength⟩
    by_cases h : c.toNat < 128
    · rw [utf8EncodeChar_ascii h] at hbytes
      cases hbytes
      exact nofun
    · have hhigh := isHigh_utf8EncodeChar (Nat.le_of_not_lt h)
      rw [hbytes] at hhigh
      exact (List.forall_mem_cons.mp hhigh).2

def ascii (c : Char) : UInt8 :=
  .ofNat c.toNat

theorem utf8_cons_ascii {c : Char} (h : c.toNat < 128) (cs : List Char) :
    utf8 (c :: cs) = ascii c :: utf8 cs := by
  rw [utf8_cons, utf8EncodeChar_ascii h]
  rfl

theorem ne_ascii_of_mem {c d : Char} (hd : d.toNat < 128) (h : c ≠ d) :
    ∀ b ∈ String.utf8EncodeChar c, b ≠ ascii d := by
  intro b hb heq
  have hbyte : b.toNat = d.toNat := by
    rw [heq, ascii, UInt8.toNat_ofNat']
    omega
  by_cases hc : c.toNat < 128
  · rw [utf8EncodeChar_ascii hc] at hb
    cases List.mem_singleton.mp hb
    rw [UInt8.toNat_ofNat'] at hbyte
    exact h (Char.toNat_inj.mp (by omega))
  · have hhigh := isHigh_utf8EncodeChar (Nat.le_of_not_lt hc) b hb
    omega

theorem ne_ascii_of_isHigh {d : Char} {bs : List UInt8} (hd : d.toNat < 128) (h : IsHigh bs) :
    ∀ b ∈ bs, b ≠ ascii d := by
  intro b hb heq
  have hhigh := h b hb
  rw [heq, ascii, UInt8.toNat_ofNat'] at hhigh
  omega

end Text

namespace Source.Bytes

open Text (utf8 byteLength ascii)
open Outcome (map_add_map_add)

structure Stops (scan : List UInt8 → Option Nat) (stops : List Char) : Prop where
  isAscii : ∀ d ∈ stops, d.toNat < 128
  step : ∀ b rest, (∀ d ∈ stops, b ≠ ascii d) → scan (b :: rest) = (scan rest).map (· + 1)

section

variable {scan : List UInt8 → Option Nat} {stops : List Char} (h : Stops scan stops)
include h

theorem Stops.append {bs : List UInt8} (hbs : ∀ d ∈ stops, ∀ b ∈ bs, b ≠ ascii d)
    (rest : List UInt8) : scan (bs ++ rest) = (scan rest).map (· + bs.length) := by
  induction bs with
  | nil => simp
  | cons b bs ih =>
    have hb : ∀ d ∈ stops, b ≠ ascii d := fun d hd => hbs d hd b List.mem_cons_self
    rw [List.cons_append, h.step b _ hb, ih fun d hd x hx => hbs d hd x (List.mem_cons_of_mem _ hx),
      map_add_map_add, Nat.add_comm, List.length_cons]

theorem Stops.char {c : Char} (hc : c ∉ stops) (rest : List UInt8) :
    scan (String.utf8EncodeChar c ++ rest) = (scan rest).map (· + c.utf8Size) := by
  rw [h.append, String.length_utf8EncodeChar]
  refine fun d hd => Text.ne_ascii_of_mem (h.isAscii d hd) ?_
  rintro rfl
  exact hc hd

theorem Stops.skip (c : Char) (rest : List UInt8) : ∃ b bs, String.utf8EncodeChar c = b :: bs ∧
    (scan (bs ++ rest)).map (· + 1) = (scan rest).map (· + c.utf8Size) := by
  obtain ⟨b, bs, hbytes, hhigh, hlength⟩ := Text.exists_utf8EncodeChar c
  refine ⟨b, bs, hbytes, ?_⟩
  rw [h.append fun d hd => Text.ne_ascii_of_isHigh (h.isAscii d hd) hhigh, map_add_map_add,
    Nat.add_comm, hlength]

end

/-- What two searches for the same closing character find, one over the characters of a text and
one over its bytes: nothing, or the same place. -/
inductive Agree (close : Char) (cs : List Char) : Option Nat → Option Nat → Prop
  | nowhere : Agree close cs none none
  | before {body rest : List Char} : cs = body ++ close :: rest →
      Agree close cs (some body.length) (some (byteLength body))

section

variable {close c : Char} {cs : List Char} {chars bytes : Option Nat}

theorem Agree.here (close : Char) (cs : List Char) :
    Agree close (close :: cs) (some 0) (some 0) :=
  @Agree.before close (close :: cs) [] cs rfl

theorem Agree.append (h : Agree close cs chars bytes) (ds : List Char) :
    Agree close (ds ++ cs) (chars.map (· + ds.length)) (bytes.map (· + byteLength ds)) := by
  cases h with
  | nowhere => exact .nowhere
  | @before body rest hcs =>
    subst hcs
    have hbefore : Agree close (ds ++ (body ++ close :: rest)) (some (ds ++ body).length)
        (some (byteLength (ds ++ body))) := .before (List.append_assoc ds body _).symm
    rw [List.length_append, Text.byteLength_append, Nat.add_comm, Nat.add_comm (byteLength ds)]
      at hbefore
    exact hbefore

theorem Agree.cons (h : Agree close cs chars bytes) (c : Char) :
    Agree close (c :: cs) (chars.map (· + 1)) (bytes.map (· + c.utf8Size)) :=
  h.append [c]

theorem Agree.cons_ascii (h : Agree close cs chars bytes) (hc : c.toNat < 128) :
    Agree close (c :: cs) (chars.map (· + 1)) (bytes.map (· + 1)) := by
  have hcons := h.cons c
  rwa [Text.utf8Size_ascii hc] at hcons

theorem Agree.unique {other : Option Nat} (h : Agree close cs chars bytes)
    (h' : Agree close cs chars other) : bytes = other := by
  cases h with
  | nowhere =>
    cases h'
    rfl
  | before hcs =>
    generalize hlength : some _ = chars at h'
    cases h' with
    | nowhere => cases hlength
    | before hcs' =>
      subst hcs
      obtain ⟨rfl, -⟩ := List.append_inj hcs' (Option.some.inj hlength)
      rfl

end

def expressionEnd (depth : Nat) : List UInt8 → Option Nat
  | [] => none
  | b :: bs =>
    if b = ascii '{' then (expressionEnd (depth + 1) bs).map (· + 1)
    else if b = ascii '}' then
      match depth with
      | 0 => some 0
      | depth + 1 => (expressionEnd depth bs).map (· + 1)
    else (expressionEnd depth bs).map (· + 1)

theorem stops_expressionEnd (depth : Nat) : Stops (expressionEnd depth) ['{', '}'] where
  isAscii := by decide
  step := by
    intro b rest hb
    simp only [List.forall_mem_cons] at hb
    rw [expressionEnd.eq_def]
    simp only [hb.1, hb.2.1, if_false]

theorem expressionLength_of_other {c : Char} (h : c ∉ ['{', '}']) (depth : Nat) (cs : List Char) :
    Literal.expressionLength depth (c :: cs) =
      (Literal.expressionLength depth cs).map (· + 1) := by
  simp only [List.mem_cons, List.not_mem_nil, or_false, not_or] at h
  rw [Literal.expressionLength.eq_def]
  split
  · rename_i heq
    cases heq
  · rename_i heq
    exact absurd (List.cons.inj heq).1 h.1
  · rename_i heq
    exact absurd (List.cons.inj heq).1 h.2
  · rename_i heq
    exact absurd (List.cons.inj heq).1 h.2
  · rename_i heq
    obtain ⟨-, rfl⟩ := List.cons.inj heq
    rfl

theorem agree_expressionEnd (depth : Nat) (cs : List Char) :
    Agree '}' cs (Literal.expressionLength depth cs) (expressionEnd depth (utf8 cs)) := by
  induction cs generalizing depth with
  | nil => exact .nowhere
  | cons c cs ih =>
    by_cases hother : c ∉ ['{', '}']
    · rw [Text.utf8_cons, (stops_expressionEnd depth).char hother, expressionLength_of_other hother]
      exact (ih depth).cons c
    · simp only [not_not, List.mem_cons, List.not_mem_nil, or_false] at hother
      rcases hother with rfl | rfl
      · rw [Literal.expressionLength]
        exact (ih (depth + 1)).cons '{'
      · cases depth with
        | zero => exact .here '}' cs
        | succ depth =>
          rw [Literal.expressionLength]
          exact (ih depth).cons '}'

def objectEnd (quote : Option UInt8) (depth : Nat) : List UInt8 → Option Nat
  | [] => none
  | b :: bs =>
    match quote with
    | some q =>
      if b = ascii '\\' then
        match bs with
        | [] => none
        | _ :: bs => (objectEnd (some q) depth bs).map (· + 2)
      else (objectEnd (if b = q then none else some q) depth bs).map (· + 1)
    | none =>
      if b = ascii '\'' ∨ b = ascii '"' ∨ b = ascii '`' then
        (objectEnd (some b) depth bs).map (· + 1)
      else if b = ascii '{' then (objectEnd none (depth + 1) bs).map (· + 1)
      else if b = ascii '}' then
        match depth with
        | 0 => some 0
        | depth + 1 => (objectEnd none depth bs).map (· + 1)
      else (objectEnd none depth bs).map (· + 1)

theorem stops_objectEnd_quoted {q : Char} (hq : q.toNat < 128) (depth : Nat) :
    Stops (objectEnd (some (ascii q)) depth) ['\\', q] where
  isAscii := by simpa using hq
  step := by
    intro b rest hb
    simp only [List.forall_mem_cons] at hb
    rw [objectEnd.eq_def]
    simp only [hb.1, hb.2.1, if_false]

theorem stops_objectEnd (depth : Nat) :
    Stops (objectEnd none depth) ['\'', '"', '`', '{', '}'] where
  isAscii := by decide
  step := by
    intro b rest hb
    simp only [List.forall_mem_cons] at hb
    rw [objectEnd.eq_def]
    simp only [hb.1, hb.2.1, hb.2.2.1, hb.2.2.2.1, hb.2.2.2.2.1, or_false, if_false]

theorem objectEnd_skip {q : UInt8} {depth : Nat} {b : UInt8} {bs : List UInt8} :
    objectEnd (some q) depth (ascii '\\' :: b :: bs) =
      ((objectEnd (some q) depth bs).map (· + 1)).map (· + 1) := by
  rw [map_add_map_add, objectEnd, if_pos rfl]

theorem objectEnd_unquote {q : Char} (hq : q ∈ ['\'', '"', '`']) (depth : Nat) (bs : List UInt8) :
    objectEnd (some (ascii q)) depth (ascii q :: bs) = (objectEnd none depth bs).map (· + 1) := by
  have hescape : ascii q ≠ ascii '\\' := by
    simp only [List.mem_cons, List.not_mem_nil, or_false] at hq
    rcases hq with rfl | rfl | rfl <;> decide
  rw [objectEnd.eq_def]
  simp only [hescape, if_false, if_true]

theorem objectEnd_quote {q : Char} (hq : q ∈ ['\'', '"', '`']) (depth : Nat) (bs : List UInt8) :
    objectEnd none depth (ascii q :: bs) = (objectEnd (some (ascii q)) depth bs).map (· + 1) := by
  simp only [List.mem_cons, List.not_mem_nil, or_false] at hq
  rcases hq with rfl | rfl | rfl <;> rfl

theorem ascii_of_quote {q : Char} (hq : q ∈ ['\'', '"', '`']) : q.toNat < 128 := by
  simp only [List.mem_cons, List.not_mem_nil, or_false] at hq
  rcases hq with rfl | rfl | rfl <;> decide

theorem agree_objectEnd {quote : Option Char} (hquote : ∀ q ∈ quote, q ∈ ['\'', '"', '`'])
    (depth : Nat) (cs : List Char) : Agree '}' cs (HeaderObject.bodyLength quote depth cs)
      (objectEnd (quote.map ascii) depth (utf8 cs)) := by
  induction quote, depth, cs using HeaderObject.bodyLength.induct with
  | case1 quote depth =>
    rw [HeaderObject.bodyLength.eq_def]
    cases quote <;> exact .nowhere
  | case2 q depth =>
    rw [HeaderObject.bodyLength, if_pos rfl]
    exact .nowhere
  | case3 q depth c cs ih =>
    have hstops := stops_objectEnd_quoted (ascii_of_quote (hquote q rfl)) depth
    obtain ⟨b, bs, hbytes, hskip⟩ := hstops.skip c (utf8 cs)
    have hutf8 : utf8 ('\\' :: c :: cs) = ascii '\\' :: b :: (bs ++ utf8 cs) := by
      rw [Text.utf8_cons, Text.utf8_cons, hbytes]
      rfl
    rw [HeaderObject.bodyLength, if_pos rfl, hutf8, Option.map_some, objectEnd_skip, hskip,
      map_add_map_add]
    exact (ih hquote).append ['\\', c]
  | case4 q depth c cs hc ih =>
    have hlength : HeaderObject.bodyLength (some q) depth (c :: cs) =
        (HeaderObject.bodyLength (if c = q then none else some q) depth cs).map (· + 1) := by
      rw [HeaderObject.bodyLength.eq_def]
      simp only [hc, if_false]
    have hq := hquote q rfl
    rw [hlength]
    by_cases hcq : c = q
    · subst hcq
      rw [if_pos rfl] at ih ⊢
      rw [Text.utf8_cons_ascii (ascii_of_quote hq), Option.map_some, objectEnd_unquote hq]
      exact (ih nofun).cons_ascii (ascii_of_quote hq)
    · rw [if_neg hcq] at ih ⊢
      have hother : c ∉ ['\\', q] := by simp [hc, hcq]
      rw [Text.utf8_cons, Option.map_some,
        (stops_objectEnd_quoted (ascii_of_quote hq) depth).char hother]
      exact (ih hquote).cons c
  | case5 depth c cs hc ih =>
    have hquoted : c ∈ ['\'', '"', '`'] := by simpa using hc
    have hlength : HeaderObject.bodyLength none depth (c :: cs) =
        (HeaderObject.bodyLength (some c) depth cs).map (· + 1) := by
      rw [HeaderObject.bodyLength.eq_def]
      simp only [hc, if_true]
    rw [hlength, Text.utf8_cons_ascii (ascii_of_quote hquoted), Option.map_none,
      objectEnd_quote hquoted]
    exact (ih (by simpa using hc)).cons_ascii (ascii_of_quote hquoted)
  | case6 depth cs _ ih => exact (ih nofun).cons '{'
  | case7 cs => exact .here '}' cs
  | case8 cs depth _ _ ih => exact (ih nofun).cons '}'
  | case9 depth c cs hquoted hopen hclose ih =>
    have hlength : HeaderObject.bodyLength none depth (c :: cs) =
        (HeaderObject.bodyLength none depth cs).map (· + 1) := by
      rw [HeaderObject.bodyLength.eq_def]
      simp only [hquoted, hopen, hclose, if_false]
    have hother : c ∉ ['\'', '"', '`', '{', '}'] := by
      simp only [List.mem_cons, List.not_mem_nil, or_false]
      tauto
    rw [hlength, Text.utf8_cons, Option.map_none, (stops_objectEnd depth).char hother]
    exact (ih nofun).cons c

example : objectEnd none 0 (utf8 "'\\é\x7d'\x7d".toList) = some 6 := by decide

def literalEnd (bs : List UInt8) : Option Nat :=
  match bs with
  | [] => none
  | b :: bs =>
    if b = ascii '\\' then (literalEnd (bs.drop 1)).map (· + 2)
    else if b = ascii '`' then some 0
    else if b = ascii '$' ∧ bs.head? = some (ascii '{') then do
      let n ← expressionEnd 0 (bs.drop 1)
      (literalEnd (bs.drop (n + 2))).map (· + (n + 3))
    else (literalEnd bs).map (· + 1)
termination_by bs.length
decreasing_by all_goals simp; try omega

theorem stops_literalEnd : Stops literalEnd ['\\', '`', '$'] where
  isAscii := by decide
  step := by
    intro b rest hb
    simp only [List.forall_mem_cons] at hb
    rw [literalEnd]
    simp only [hb.1, hb.2.1, hb.2.2.1, false_and, if_false]

theorem literalEnd_skip {b : UInt8} {bs : List UInt8} : literalEnd (ascii '\\' :: b :: bs) =
    ((literalEnd bs).map (· + 1)).map (· + 1) := by
  rw [map_add_map_add, literalEnd, if_pos rfl]
  rfl

theorem literalEnd_expression {n : Nat} {bs body rest : List UInt8}
    (hend : expressionEnd 0 bs = some n) (hbs : bs = body ++ ascii '}' :: rest)
    (hbody : body.length = n) :
    literalEnd (ascii '$' :: ascii '{' :: bs) = (literalEnd rest).map (· + (n + 3)) := by
  subst hbs hbody
  have hdrop : (body ++ ascii '}' :: rest).drop (body.length + 1) = rest := by
    rw [List.drop_append, List.drop_of_length_le (Nat.le_succ _), Nat.add_sub_cancel_left]
    rfl
  rw [literalEnd, if_neg (by decide), if_neg (by decide), if_pos ⟨rfl, rfl⟩, List.drop_succ_cons,
    List.drop_zero, hend, Option.bind_eq_bind, Option.bind_some, List.drop_succ_cons, hdrop]

theorem literalEnd_open {bs : List UInt8} (hend : expressionEnd 0 bs = none) :
    literalEnd (ascii '$' :: ascii '{' :: bs) = none := by
  rw [literalEnd, if_neg (by decide), if_neg (by decide), if_pos ⟨rfl, rfl⟩, List.drop_succ_cons,
    List.drop_zero, hend]
  rfl

theorem head?_utf8_ne {c : Char} (hc : c.toNat < 128) {cs : List Char} (h : cs.head? ≠ some c) :
    (utf8 cs).head? ≠ some (ascii c) := by
  cases cs with
  | nil => exact nofun
  | cons d cs =>
    have hne : d ≠ c := by simpa using h
    obtain ⟨b, bs, hbytes, -, -⟩ := Text.exists_utf8EncodeChar d
    have hb : b ≠ ascii c := Text.ne_ascii_of_mem hc hne b (hbytes ▸ List.mem_cons_self)
    rw [Text.utf8_cons, hbytes]
    simpa using hb

theorem agree_literalEnd (cs : List Char) :
    Agree '`' cs (Literal.bodyLength cs) (literalEnd (utf8 cs)) := by
  induction cs using Literal.bodyLength.induct with
  | case1 =>
    have hend : literalEnd (utf8 []) = none := literalEnd.eq_1
    rw [Literal.bodyLength, hend]
    exact .nowhere
  | case2 cs =>
    rw [Literal.bodyLength, Text.utf8_cons_ascii (by decide), literalEnd]
    exact .here '`' cs
  | case3 c cs ih =>
    obtain ⟨b, bs, hbytes, hskip⟩ := stops_literalEnd.skip c (utf8 cs)
    have hutf8 : utf8 ('\\' :: c :: cs) = ascii '\\' :: b :: (bs ++ utf8 cs) := by
      rw [Text.utf8_cons, Text.utf8_cons, hbytes]
      rfl
    rw [Literal.bodyLength, hutf8, literalEnd_skip, hskip, map_add_map_add]
    exact ih.append ['\\', c]
  | case4 cs ih =>
    have hutf8 : utf8 ('$' :: '{' :: cs) = ascii '$' :: ascii '{' :: utf8 cs := rfl
    have hexpression := agree_expressionEnd 0 cs
    rw [Literal.bodyLength, hutf8]
    generalize hlength : Literal.expressionLength 0 cs = length at hexpression
    generalize hend : expressionEnd 0 (utf8 cs) = last at hexpression
    cases hexpression with
    | nowhere =>
      rw [literalEnd_open hend]
      exact .nowhere
    | @before body rest hcs =>
      subst hcs
      have hdrop : (body ++ '}' :: rest).drop (body.length + 1) = rest := by
        rw [List.drop_append, List.drop_of_length_le (Nat.le_succ _), Nat.add_sub_cancel_left]
        rfl
      have hbody : utf8 (body ++ '}' :: rest) = utf8 body ++ ascii '}' :: utf8 rest :=
        Text.utf8_append body ('}' :: rest)
      have hrest := ih body.length
      rw [hdrop] at hrest
      have hadd := hrest.append ('$' :: '{' :: (body ++ ['}']))
      have hclosed : byteLength (body ++ ['}']) = byteLength body + 1 :=
        Text.byteLength_append body ['}']
      have hsize : byteLength ('$' :: '{' :: (body ++ ['}'])) = byteLength body + 3 := by
        change 1 + (1 + byteLength (body ++ ['}'])) = _
        omega
      rw [hsize] at hadd
      rw [literalEnd_expression hend hbody (Text.length_utf8 body), Option.bind_eq_bind,
        Option.bind_some, hdrop]
      simpa using hadd
  | case5 c cs hback hskip hopen ih =>
    have hlength : Literal.bodyLength (c :: cs) = (Literal.bodyLength cs).map (· + 1) := by
      rw [Literal.bodyLength]
      all_goals assumption
    rw [hlength]
    by_cases hother : c ∉ ['\\', '`', '$']
    · rw [Text.utf8_cons, stops_literalEnd.char hother]
      exact ih.cons c
    · simp only [not_not, List.mem_cons, List.not_mem_nil, or_false] at hother
      rcases hother with rfl | rfl | rfl
      · cases cs with
        | nil =>
          have hend : literalEnd (utf8 ['\\']) = none := by
            change literalEnd [ascii '\\'] = none
            simp [literalEnd]
          rw [Literal.bodyLength, hend]
          exact .nowhere
        | cons d cs => exact absurd rfl (hskip d cs rfl)
      · exact absurd rfl hback
      · have hhead : cs.head? ≠ some '{' := by
          intro hhead
          obtain ⟨ds, rfl⟩ := List.head?_eq_some_iff.mp hhead
          exact hopen ds rfl rfl
        have hbyte := head?_utf8_ne (by decide) hhead
        rw [Text.utf8_cons_ascii (by decide), literalEnd, if_neg (by decide), if_neg (by decide),
          if_neg fun h => hbyte h.2]
        exact ih.cons_ascii (by decide)

end Source.Bytes

end EmailTemplates
