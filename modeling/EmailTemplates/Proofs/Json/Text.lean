import EmailTemplates.Json.Parser
import EmailTemplates.Json.Printer
import EmailTemplates.Proofs.Text.Slice
import Mathlib.Data.List.Basic

namespace EmailTemplates.Json

namespace Parser

open Text (hexDigit hexDigit?)
open Text.Slice (takeWhile_append dropWhile_append)

def isSpace (c : Char) : Bool :=
  c == ' ' || c == '\t' || c == '\n' || c == '\r'

def Gap (cs : List Char) : Prop :=
  ∀ c ∈ cs, isSpace c = true

theorem gap_nil : Gap [] := by
  intro c h
  cases h

theorem skipSpace_gap {gap cs : List Char} {c : Char} (hgap : Gap gap) (hc : isSpace c = false) :
    skipSpace (gap ++ c :: cs) = c :: cs := by
  refine dropWhile_append hgap ?_
  rintro d ⟨⟩
  exact hc

theorem skipSpace_cons {c : Char} (hc : isSpace c = false) (cs : List Char) :
    skipSpace (c :: cs) = c :: cs :=
  skipSpace_gap gap_nil hc

def EndsNumber (cs : List Char) : Prop :=
  ∀ c ∈ cs.head?, c.isDigit = false ∧ c ≠ '.' ∧ c ≠ 'e' ∧ c ≠ 'E'

theorem endsNumber_nil : EndsNumber [] := by
  rintro c ⟨⟩

theorem endsNumber_gap {gap cs : List Char} {c : Char} (hgap : Gap gap)
    (hc : c.isDigit = false ∧ c ≠ '.' ∧ c ≠ 'e' ∧ c ≠ 'E') : EndsNumber (gap ++ c :: cs) := by
  cases gap with
  | nil =>
    rintro d ⟨⟩
    exact hc
  | cons d gap =>
    rintro e ⟨⟩
    have hd := hgap d List.mem_cons_self
    simp only [isSpace, Bool.or_eq_true, beq_iff_eq] at hd
    rcases hd with ((rfl | rfl) | rfl) | rfl <;> decide

theorem eq_zero_of_head_toDigits {n : Nat} (h : (Nat.toDigits 10 n).head? = some '0') : n = 0 := by
  induction n using Nat.strongRecOn with
  | ind n ih =>
    by_cases hn : n < 10
    · rw [Nat.toDigits_of_lt_base hn] at h
      clear ih
      revert h
      revert hn
      revert n
      decide
    · rw [Nat.toDigits_of_base_le (by decide) (by omega),
        List.head?_append_of_ne_nil _ Nat.toDigits_ne_nil] at h
      have := ih (n / 10) (by omega) h
      omega

theorem digits_append {ds rest : List Char} (hne : ds ≠ []) (hds : ∀ c ∈ ds, c.isDigit = true)
    (hrest : EndsNumber rest) : digits (ds ++ rest) = some (ds, rest) := by
  have hhead : ∀ c ∈ rest.head?, c.isDigit = false := fun c hc => (hrest c hc).1
  rw [digits, takeWhile_append hds hhead, dropWhile_append hds hhead]
  cases ds with
  | nil => exact absurd rfl hne
  | cons d ds => rfl

theorem isBeyondDoubles_nat {n : Nat} (h : n < doubleBound) : isBeyondDoubles n 0 = false := by
  have hbound : decide (doubleBound ≤ n * Nat.pow 10 (0 : Int).toNat) = false := by
    have hone : Nat.pow 10 (0 : Int).toNat = 1 := rfl
    rw [hone, Nat.mul_one]
    exact decide_eq_false (by omega)
  unfold isBeyondDoubles
  split
  · rfl
  · rw [if_neg (by decide), if_pos (by decide)]
    exact hbound

theorem number_repr {n : Nat} {rest : List Char} (hn : n < doubleBound) (hrest : EndsNumber rest) :
    number (n.repr.toList ++ rest) = some (.nat n, rest) := by
  have hdigit : ∀ c ∈ Nat.toDigits 10 n, c.isDigit = true := fun c hc =>
    Nat.isDigit_of_mem_toDigits (by decide) (by decide) hc
  have hne : Nat.toDigits 10 n ≠ [] := Nat.toDigits_ne_nil
  have hnat : natOf (Nat.toDigits 10 n) = n := Nat.ofDigitChars_ten_toDigits
  have hzero : ((Nat.toDigits 10 n).head? == some '0' && (Nat.toDigits 10 n).length != 1) =
      false := by
    by_cases hhead : (Nat.toDigits 10 n).head? = some '0'
    · rw [eq_zero_of_head_toDigits hhead]
      rfl
    · simp [hhead]
  have hsign : ((Nat.toDigits 10 n ++ rest).head? == some '-') = false := by
    rw [List.head?_append_of_ne_nil _ hne]
    cases hds : Nat.toDigits 10 n with
    | nil => exact absurd hds hne
    | cons d ds =>
      have hd : d.isDigit = true := hdigit d (by rw [hds]; exact List.mem_cons_self)
      have hminus : d ≠ '-' := by
        rintro rfl
        exact absurd hd (by decide)
      simpa using hminus
  rw [Nat.toList_repr, number]
  simp only [hsign, Bool.false_eq_true, if_false, digits_append hne hdigit hrest,
    Option.bind_eq_bind, Option.bind_some, hzero]
  have hfinite := isBeyondDoubles_nat hn
  cases rest with
  | nil => simp [hnat, hfinite]
  | cons c rest =>
    obtain ⟨-, hdot, he, hE⟩ := hrest c rfl
    simp [hnat, hfinite, hdot, he, hE]

theorem hexDigit?_hexDigit : ∀ n < 16, hexDigit? (hexDigit n) = some n := by
  decide

theorem stringBody_short {e c : Char} (h : escaped? e = some c) (cs : List Char) :
    stringBody ('\\' :: e :: cs) =
      (stringBody cs).map fun (points, rest) => (c.toNat :: points, rest) := by
  have hu : e ≠ 'u' := by
    rintro rfl
    cases h
  have hstep : stringBody ('\\' :: e :: cs) =
      (escaped? e).bind fun c => (stringBody cs).bind fun (points, rest) =>
        some (c.toNat :: points, rest) := by
    rw [stringBody]
    · rfl
    · exact fun _ _ _ _ _ he _ => hu he
  rw [hstep, h]
  exact Option.map_eq_bind.symm

theorem stringBody_hex {c : Char} (h : c.toNat < 0x20) (cs : List Char) :
    stringBody ('\\' :: 'u' :: '0' :: '0' :: hexDigit (c.toNat / 16) :: hexDigit (c.toNat % 16) :: cs) =
      (stringBody cs).map fun (points, rest) => (c.toNat :: points, rest) := by
  have hzero : hexDigit? '0' = some 0 := by decide
  rw [stringBody, hzero, hexDigit?_hexDigit _ (by omega), hexDigit?_hexDigit _ (by omega)]
  have hunit : 4096 * 0 + 256 * 0 + 16 * (c.toNat / 16) + c.toNat % 16 = c.toNat := by omega
  simp only [Option.bind_eq_bind, Option.bind_some, hunit]
  exact Option.map_eq_bind.symm

theorem stringBody_own {c : Char} (hquote : c ≠ '"') (hslash : c ≠ '\\') (h : ¬ c.toNat < 0x20)
    (cs : List Char) :
    stringBody (c :: cs) =
      (stringBody cs).map fun (points, rest) => (c.toNat :: points, rest) := by
  have hraw : (c == '\\' || decide (c.toNat < 0x20)) = false := by simp [hslash, h]
  rw [stringBody]
  · rw [hraw]
    exact Option.map_eq_bind.symm
  · exact hquote
  · exact fun _ _ _ _ _ he _ => hslash he
  · exact fun _ _ he _ => hslash he

theorem stringBody_escapeChar (c : Char) (cs : List Char) :
    stringBody (escapeChar c ++ cs) =
      (stringBody cs).map fun (points, rest) => (c.toNat :: points, rest) := by
  unfold escapeChar
  split
  iterate 7
    · exact stringBody_short rfl cs
  · rename_i hquote hslash _ _ _ _ _
    split
    · rename_i h
      exact stringBody_hex h cs
    · rename_i h
      exact stringBody_own hquote hslash h cs

theorem stringBody_escaped (s rest : List Char) :
    stringBody (s.flatMap escapeChar ++ '"' :: rest) = some (s.map Char.toNat, rest) := by
  induction s with
  | nil => rfl
  | cons c s ih =>
    rw [List.flatMap_cons, List.append_assoc, stringBody_escapeChar, ih]
    rfl

theorem toNat_of_char (c : Char) : c.toNat < 0xD800 ∨ 0xE000 ≤ c.toNat :=
  c.valid.imp_right fun h => h.1

theorem joinSurrogates_toNat (s : List Char) : joinSurrogates (s.map Char.toNat) = some s := by
  induction s with
  | nil => rfl
  | cons c s ih =>
    have hc := toNat_of_char c
    have hhigh : ¬ (0xD800 ≤ c.toNat ∧ c.toNat < 0xDC00) := by omega
    have hlow : ¬ (0xDC00 ≤ c.toNat ∧ c.toNat < 0xE000) := by omega
    have hhalf : ¬ (0xD800 ≤ c.toNat ∧ c.toNat < 0xE000) := by omega
    cases s with
    | nil => rw [List.map_cons, List.map_nil, joinSurrogates, if_neg hhalf, Char.ofNat_toNat]
    | cons d s =>
      rw [List.map_cons, List.map_cons, joinSurrogates, if_neg hhigh, if_neg hlow]
      rw [List.map_cons] at ih
      rw [ih, Option.map_some, Char.ofNat_toNat]

end Parser

open EmailTemplates.Json.Parser (Gap isSpace doubleBound)

def quotedChars (s : String) : List Char :=
  '"' :: (s.toList.flatMap escapeChar ++ ['"'])

theorem toList_quoted (s : String) : (quoted s).toList = quotedChars s := by
  rw [quoted, String.toList_append, String.toList_append, String.toList_ofList]
  simp [quotedChars]

mutual

inductive Spells : Json → List Char → Prop
  | null : Spells null ['n', 'u', 'l', 'l']
  | bool (b : Bool) :
      Spells (bool b) (if b then ['t', 'r', 'u', 'e'] else ['f', 'a', 'l', 's', 'e'])
  | nat {n : Nat} : n < doubleBound → Spells (nat n) n.repr.toList
  | string (s : String) : Spells (string s) (quotedChars s)
  | emptyArray : Spells (array []) ['[', ']']
  | array {items : List Json} {gap gap' cs : List Char} : Gap gap → SpellsItems items cs →
      Gap gap' → Spells (array items) ('[' :: (gap ++ (cs ++ (gap' ++ [']']))))
  | emptyObject : Spells (object []) ['{', '}']
  | object {members : List (String × Json)} {gap gap' cs : List Char} : Gap gap →
      SpellsMembers members cs → Gap gap' →
      Spells (object members) ('{' :: (gap ++ (cs ++ (gap' ++ ['}']))))

inductive SpellsItems : List Json → List Char → Prop
  | last {item : Json} {cs : List Char} : Spells item cs → SpellsItems [item] cs
  | next {item : Json} {items : List Json} {gap cs ds : List Char} : Spells item cs → Gap gap →
      SpellsItems items ds → SpellsItems (item :: items) (cs ++ (',' :: (gap ++ ds)))

inductive SpellsMembers : List (String × Json) → List Char → Prop
  | last {name : String} {value : Json} {gap cs : List Char} : Gap gap → Spells value cs →
      SpellsMembers [(name, value)] (quotedChars name ++ (':' :: (gap ++ cs)))
  | next {name : String} {value : Json} {members : List (String × Json)}
      {gap gap' cs ds : List Char} : Gap gap → Spells value cs → Gap gap' →
      SpellsMembers members ds → SpellsMembers ((name, value) :: members)
        (quotedChars name ++ (':' :: (gap ++ (cs ++ (',' :: (gap' ++ ds))))))

end

theorem isSpace_of_isDigit {c : Char} (h : c.isDigit = true) : isSpace c = false := by
  by_contra hspace
  rw [Bool.not_eq_false] at hspace
  simp only [isSpace, Bool.or_eq_true, beq_iff_eq] at hspace
  rcases hspace with ((rfl | rfl) | rfl) | rfl <;> exact absurd h (by decide)

theorem Spells.head {j : Json} {cs : List Char} (h : Spells j cs) :
    ∃ c ds, cs = c :: ds ∧ isSpace c = false ∧ c ≠ ']' := by
  cases h with
  | bool b =>
    cases b with
    | true => exact ⟨_, _, rfl, by decide, by decide⟩
    | false => exact ⟨_, _, rfl, by decide, by decide⟩
  | @nat n hn =>
    rw [Nat.toList_repr]
    cases hds : Nat.toDigits 10 n with
    | nil => exact absurd hds Nat.toDigits_ne_nil
    | cons c ds =>
      have hc : c.isDigit = true :=
        Nat.isDigit_of_mem_toDigits (by decide) (by decide) (hds ▸ List.mem_cons_self)
      refine ⟨c, ds, rfl, isSpace_of_isDigit hc, ?_⟩
      rintro rfl
      exact absurd hc (by decide)
  | _ => exact ⟨_, _, rfl, by decide, by decide⟩

theorem SpellsItems.head {items : List Json} {cs : List Char} (h : SpellsItems items cs) :
    ∃ c ds, cs = c :: ds ∧ isSpace c = false ∧ c ≠ ']' := by
  cases h with
  | last hitem => exact hitem.head
  | next hitem hgap hitems =>
    obtain ⟨c, ds, rfl, hc⟩ := hitem.head
    exact ⟨c, _, rfl, hc⟩

theorem SpellsMembers.head {members : List (String × Json)} {cs : List Char}
    (h : SpellsMembers members cs) : ∃ ds, cs = '"' :: ds := by
  cases h with
  | last => exact ⟨_, rfl⟩
  | next => exact ⟨_, rfl⟩

namespace Parser

theorem objectOf_named (members : List (String × Json)) :
    objectOf (members.map fun m => (some m.1, m.2)) = object members := by
  have hnames {f : Option String × Json → Option (String × Json)}
      (hf : ∀ m : String × Json, f (some m.1, m.2) = some m) :
      (members.map fun m => (some m.1, m.2)).mapM f = some members := by
    induction members with
    | nil => rfl
    | cons m members ih =>
      rw [List.map_cons, List.mapM_cons, ih, hf]
      rfl
  rw [objectOf, hnames fun _ => rfl]

theorem quoted_read (s : String) (rest : List Char) :
    ∃ points, stringBody (s.toList.flatMap escapeChar ++ ('"' :: rest)) = some (points, rest) ∧
      joinSurrogates points = some s.toList :=
  ⟨_, stringBody_escaped s.toList rest, joinSurrogates_toNat s.toList⟩

theorem value_digit {fuel : Nat} {c : Char} {cs rest : List Char} (hc : c.isDigit = true)
    (hskip : skipSpace cs = c :: rest) : value (fuel + 1) cs = number (c :: rest) := by
  rw [value, hskip]
  split
  all_goals first | rfl | rename_i heq
  all_goals
    cases heq
    exact absurd hc (by decide)

mutual

theorem value_of_spells {j : Json} {cs : List Char} (h : Spells j cs) {fuel : Nat}
    {gap rest : List Char} (hfuel : cs.length ≤ fuel) (hgap : Gap gap) (hrest : EndsNumber rest) :
    value fuel (gap ++ (cs ++ rest)) = some (j, rest) := by
  have hskip : skipSpace (gap ++ (cs ++ rest)) = cs ++ rest := by
    obtain ⟨c, ds, rfl, hc, -⟩ := h.head
    exact skipSpace_gap hgap hc
  obtain ⟨fuel, rfl⟩ : ∃ n, fuel = n + 1 := by
    obtain ⟨c, ds, rfl, -⟩ := h.head
    exact ⟨fuel - 1, by rw [List.length_cons] at hfuel; omega⟩
  cases h with
  | null =>
    rw [value, hskip]
    rfl
  | bool b =>
    rw [value, hskip]
    cases b <;> rfl
  | @nat n hn =>
    rw [← number_repr hn hrest]
    rw [Nat.toList_repr] at hskip ⊢
    cases hds : Nat.toDigits 10 n with
    | nil => exact absurd hds Nat.toDigits_ne_nil
    | cons c ds =>
      have hc : c.isDigit = true :=
        Nat.isDigit_of_mem_toDigits (by decide) (by decide) (hds ▸ List.mem_cons_self)
      rw [hds] at hskip
      exact value_digit hc hskip
  | string s =>
    obtain ⟨points, hbody, hjoin⟩ := quoted_read s rest
    rw [value, hskip]
    simp only [quotedChars, List.cons_append, List.append_assoc, List.nil_append, hbody,
      Option.bind_eq_bind, Option.bind_some, hjoin, String.ofList_toList]
    rfl
  | emptyArray =>
    rw [value, hskip]
    rfl
  | @array js gap₁ gap₂ cs hgap₁ hitems hgap₂ =>
    have hlen : cs.length < fuel := by
      simp only [List.length_cons, List.length_append, List.length_nil] at hfuel
      omega
    have hread : items fuel ([] ++ (cs ++ (gap₂ ++ (']' :: rest)))) = some (js, rest) :=
      items_of_spells hitems hlen gap_nil hgap₂
    obtain ⟨c, ds, rfl, hc, hend⟩ := hitems.head
    rw [value, hskip]
    simp only [List.cons_append, List.append_assoc, List.nil_append] at hread ⊢
    rw [skipSpace_gap hgap₁ hc]
    simp [hend, hread]
  | emptyObject =>
    rw [value, hskip]
    rfl
  | @object ms gap₁ gap₂ cs hgap₁ hmembers hgap₂ =>
    have hlen : cs.length < fuel := by
      simp only [List.length_cons, List.length_append, List.length_nil] at hfuel
      omega
    have hread : members fuel ([] ++ (cs ++ (gap₂ ++ ('}' :: rest)))) =
        some (ms.map fun m => (some m.1, m.2), rest) :=
      members_of_spells hmembers hlen gap_nil hgap₂
    obtain ⟨ds, rfl⟩ := hmembers.head
    rw [value, hskip]
    simp only [List.cons_append, List.append_assoc, List.nil_append] at hread ⊢
    rw [skipSpace_gap hgap₁ (by decide)]
    simp [hread, objectOf_named]

theorem items_of_spells {js : List Json} {cs : List Char} (h : SpellsItems js cs) {fuel : Nat}
    {gap gap' rest : List Char} (hfuel : cs.length < fuel) (hgap : Gap gap) (hgap' : Gap gap') :
    items fuel (gap ++ (cs ++ (gap' ++ (']' :: rest)))) = some (js, rest) := by
  obtain ⟨fuel, rfl⟩ : ∃ n, fuel = n + 1 := ⟨fuel - 1, by omega⟩
  cases h with
  | @last item cs hitem =>
    have hread : value fuel (gap ++ (cs ++ (gap' ++ ']' :: rest))) =
        some (item, gap' ++ ']' :: rest) :=
      value_of_spells hitem (by omega) hgap (endsNumber_gap hgap' (by decide))
    rw [items, hread]
    simp [skipSpace_gap hgap' (c := ']') (by decide)]
  | @next item js gap₁ cs ds hitem hgap₁ hitems =>
    simp only [List.length_append, List.length_cons] at hfuel
    have hread : value fuel (gap ++ (cs ++ ([] ++ ',' :: (gap₁ ++ (ds ++ (gap' ++ ']' :: rest)))))) =
        some (item, [] ++ ',' :: (gap₁ ++ (ds ++ (gap' ++ ']' :: rest)))) :=
      value_of_spells hitem (by omega) hgap (endsNumber_gap gap_nil (by decide))
    have hmore : items fuel (gap₁ ++ (ds ++ (gap' ++ ']' :: rest))) = some (js, rest) :=
      items_of_spells hitems (by omega) hgap₁ hgap'
    simp only [List.append_assoc, List.cons_append, List.nil_append] at hread ⊢
    rw [items, hread]
    simp [skipSpace_cons (c := ',') (by decide), hmore]

theorem members_of_spells {ms : List (String × Json)} {cs : List Char} (h : SpellsMembers ms cs)
    {fuel : Nat} {gap gap' rest : List Char} (hfuel : cs.length < fuel) (hgap : Gap gap)
    (hgap' : Gap gap') :
    members fuel (gap ++ (cs ++ (gap' ++ ('}' :: rest)))) =
      some (ms.map fun m => (some m.1, m.2), rest) := by
  obtain ⟨fuel, rfl⟩ : ∃ n, fuel = n + 1 := ⟨fuel - 1, by omega⟩
  cases h with
  | @last name v gap₁ cs hgap₁ hvalue =>
    have hlen : cs.length ≤ fuel := by
      simp only [List.length_cons, List.length_append] at hfuel
      omega
    have hread : value fuel (gap₁ ++ (cs ++ (gap' ++ '}' :: rest))) =
        some (v, gap' ++ '}' :: rest) :=
      value_of_spells hvalue hlen hgap₁ (endsNumber_gap hgap' (by decide))
    obtain ⟨points, hbody, hjoin⟩ :=
      quoted_read name (':' :: (gap₁ ++ (cs ++ (gap' ++ '}' :: rest))))
    simp only [quotedChars, List.cons_append, List.append_assoc, List.nil_append]
    rw [members, skipSpace_gap hgap (by decide)]
    simp [hbody, hjoin, skipSpace_cons (c := ':') (by decide), hread,
      skipSpace_gap hgap' (c := '}') (by decide)]
  | @next name v ms gap₁ gap₂ cs ds hgap₁ hvalue hgap₂ hmembers =>
    have hlen : cs.length ≤ fuel ∧ ds.length < fuel := by
      simp only [List.length_cons, List.length_append] at hfuel
      omega
    have hread : value fuel (gap₁ ++ (cs ++ ([] ++ ',' :: (gap₂ ++ (ds ++ (gap' ++ '}' :: rest)))))) =
        some (v, [] ++ ',' :: (gap₂ ++ (ds ++ (gap' ++ '}' :: rest)))) :=
      value_of_spells hvalue hlen.1 hgap₁ (endsNumber_gap gap_nil (by decide))
    have hmore : members fuel (gap₂ ++ (ds ++ (gap' ++ '}' :: rest))) =
        some (ms.map fun m => (some m.1, m.2), rest) :=
      members_of_spells hmembers hlen.2 hgap₂ hgap'
    obtain ⟨points, hbody, hjoin⟩ := quoted_read name
      (':' :: (gap₁ ++ (cs ++ ([] ++ ',' :: (gap₂ ++ (ds ++ (gap' ++ '}' :: rest)))))))
    simp only [quotedChars, List.cons_append, List.append_assoc, List.nil_append] at hbody hread ⊢
    rw [members, skipSpace_gap hgap (by decide)]
    simp [hbody, hjoin, skipSpace_cons (c := ':') (by decide), hread,
      skipSpace_cons (c := ',') (by decide), hmore]

end

end Parser

theorem parse?_of_spells {j : Json} {text : String} {cs : List Char} (h : Spells j cs)
    (htext : text.toList = cs) : parse? text = some j := by
  have hread : Parser.value (2 * cs.length + 2) ([] ++ (cs ++ [])) = some (j, []) :=
    Parser.value_of_spells h (by omega) Parser.gap_nil Parser.endsNumber_nil
  rw [List.nil_append, List.append_nil] at hread
  rw [parse?, htext]
  simp only [hread]
  rfl

mutual

def IsPlain : Json → Prop
  | nat n => n < doubleBound
  | number _ | unreadable => False
  | array items => ItemsPlain items
  | object members => MembersPlain members
  | _ => True

def ItemsPlain : List Json → Prop
  | [] => True
  | item :: items => item.IsPlain ∧ ItemsPlain items

def MembersPlain : List (String × Json) → Prop
  | [] => True
  | (_, value) :: members => value.IsPlain ∧ MembersPlain members

end

mutual

theorem spells_compact : ∀ {j : Json}, j.IsPlain → Spells j j.compact.toList
  | null, _ => .null
  | bool b, _ => by
    cases b <;> exact .bool _
  | nat n, h => .nat h
  | string s, _ => by
    rw [compact, toList_quoted]
    exact .string s
  | array [], _ => .emptyArray
  | array (item :: items), h => by
    have hspells := Spells.array Parser.gap_nil (spellsItems_compact h (List.cons_ne_nil _ _))
      Parser.gap_nil
    simpa [compact] using hspells
  | object [], _ => .emptyObject
  | object (m :: members), h => by
    have hspells := Spells.object Parser.gap_nil (spellsMembers_compact h (List.cons_ne_nil _ _))
      Parser.gap_nil
    simpa [compact] using hspells

theorem spellsItems_compact : ∀ {items : List Json}, ItemsPlain items → items ≠ [] →
    SpellsItems items (compactItems items).toList
  | [], _, hne => absurd rfl hne
  | [item], h, _ => .last (spells_compact h.1)
  | item :: next :: items, h, _ => by
    have hspells := SpellsItems.next (spells_compact h.1) Parser.gap_nil
      (spellsItems_compact h.2 (List.cons_ne_nil _ _))
    simpa [compactItems] using hspells

theorem spellsMembers_compact : ∀ {members : List (String × Json)}, MembersPlain members →
    members ≠ [] → SpellsMembers members (compactMembers members).toList
  | [], _, hne => absurd rfl hne
  | [(name, value)], h, _ => by
    have hspells := @SpellsMembers.last name _ _ _ Parser.gap_nil (spells_compact h.1)
    simpa [compactMembers, toList_quoted] using hspells
  | (name, value) :: next :: members, h, _ => by
    have hspells := @SpellsMembers.next name _ _ _ _ _ _ Parser.gap_nil (spells_compact h.1)
      Parser.gap_nil (spellsMembers_compact h.2 (List.cons_ne_nil _ _))
    simpa [compactMembers, toList_quoted] using hspells

end

theorem gap_indentation (level : Nat) : Gap (indentation level).toList := by
  rw [indentation, String.toList_ofList]
  intro c hc
  rw [List.eq_of_mem_replicate hc]
  rfl

theorem gap_newline (level : Nat) : Gap ('\n' :: (indentation level).toList) :=
  List.forall_mem_cons.mpr ⟨rfl, gap_indentation level⟩

theorem gap_blank : Gap [' '] :=
  List.forall_mem_singleton.mpr rfl

mutual

theorem spells_pretty : ∀ {j : Json} (level : Nat), j.IsPlain → Spells j (j.pretty level).toList
  | null, _, _ => by
    rw [pretty]
    exact .null
  | bool b, _, _ => by
    rw [pretty]
    cases b <;> exact .bool _
  | nat n, _, h => by
    rw [pretty]
    exact .nat h
  | string s, level, _ => by
    rw [pretty, toList_quoted]
    exact .string s
  | array [], _, _ => by
    rw [pretty]
    exact .emptyArray
  | array (item :: items), level, h => by
    obtain ⟨cs, htext, hitems⟩ := spellsItems_pretty (level + 1) h (List.cons_ne_nil _ _)
    have hspells := Spells.array (gap_newline (level + 1)) hitems (gap_newline level)
    simpa [pretty, htext] using hspells
  | object [], _, _ => by
    rw [pretty]
    exact .emptyObject
  | object (m :: members), level, h => by
    obtain ⟨cs, htext, hmembers⟩ := spellsMembers_pretty (level + 1) h (List.cons_ne_nil _ _)
    have hspells := Spells.object (gap_newline (level + 1)) hmembers (gap_newline level)
    simpa [pretty, htext] using hspells

theorem spellsItems_pretty : ∀ {items : List Json} (level : Nat), ItemsPlain items → items ≠ [] →
    ∃ cs, (prettyItems level items).toList = (indentation level).toList ++ cs ∧
      SpellsItems items cs
  | [], _, _, hne => absurd rfl hne
  | [item], level, h, _ => by
    refine ⟨_, ?_, .last (spells_pretty level h.1)⟩
    simp [prettyItems]
  | item :: next :: items, level, h, _ => by
    obtain ⟨cs, htext, hitems⟩ := spellsItems_pretty level h.2 (List.cons_ne_nil _ _)
    refine ⟨_, ?_, .next (spells_pretty level h.1) (gap_newline level) hitems⟩
    simp [prettyItems, htext]

theorem spellsMembers_pretty : ∀ {members : List (String × Json)} (level : Nat),
    MembersPlain members → members ≠ [] →
    ∃ cs, (prettyMembers level members).toList = (indentation level).toList ++ cs ∧
      SpellsMembers members cs
  | [], _, _, hne => absurd rfl hne
  | [(name, value)], level, h, _ => by
    refine ⟨_, ?_, .last gap_blank (spells_pretty level h.1)⟩
    simp [prettyMembers, toList_quoted]
  | (name, value) :: next :: members, level, h, _ => by
    obtain ⟨cs, htext, hmembers⟩ := spellsMembers_pretty level h.2 (List.cons_ne_nil _ _)
    refine ⟨_, ?_, .next gap_blank (spells_pretty level h.1) (gap_newline level) hmembers⟩
    simp [prettyMembers, toList_quoted, htext]

end

theorem parse?_compact {j : Json} (h : j.IsPlain) : parse? j.compact = some j :=
  parse?_of_spells (spells_compact h) rfl

theorem parse?_pretty {j : Json} (h : j.IsPlain) : parse? (j.pretty 0) = some j :=
  parse?_of_spells (spells_pretty 0 h) rfl

end EmailTemplates.Json
