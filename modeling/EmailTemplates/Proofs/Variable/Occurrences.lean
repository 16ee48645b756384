import EmailTemplates.Proofs.Variable.Names

namespace EmailTemplates

namespace Token

def front? (cs : List Char) : Option (List Char) :=
  (read? cs).map Prod.fst

theorem front?_eq_some {cs name : List Char} :
    front? cs = some name ↔ isName name = true ∧ chars name <+: cs := by
  rw [front?, Option.map_eq_some_iff]
  constructor
  · rintro ⟨⟨_, rest⟩, hread, rfl⟩
    obtain ⟨hname, hcs⟩ := eq_of_read? hread
    exact ⟨hname, rest, hcs.symm⟩
  · rintro ⟨hname, rest, rfl⟩
    exact ⟨(name, rest), read?_chars hname rest, rfl⟩

theorem front?_eq_none {cs : List Char} : front? cs = none ↔ read? cs = none :=
  Option.map_eq_none_iff

theorem read?_eq_none_of_single {cs : List Char} (h : cs.head? ≠ some '{') :
    read? ('{' :: cs) = none := by
  cases hread : read? ('{' :: cs) with
  | none => rfl
  | some p =>
    obtain ⟨name, rest⟩ := p
    have hcs := (eq_of_read? hread).2
    rw [(List.cons.inj hcs).2] at h
    exact absurd rfl h

theorem filterMap_tails_cons {c : Char} {cs : List Char} (h : read? (c :: cs) = none) :
    (c :: cs).tails.filterMap front? = cs.tails.filterMap front? := by
  rw [List.tails_cons, List.filterMap_cons_none (front?_eq_none.mpr h)]

theorem filterMap_tails_append {cs : List Char} (h : '{' ∉ cs) (rest : List Char) :
    (cs ++ rest).tails.filterMap front? = rest.tails.filterMap front? := by
  induction cs with
  | nil => rfl
  | cons c cs ih =>
    obtain ⟨hc, hcs⟩ := not_or.mp (mt List.mem_cons.mpr h)
    rw [List.cons_append, filterMap_tails_cons (read?_eq_none_of_head (Ne.symm hc) _), ih hcs]

theorem filterMap_tails_chars {name : List Char} (h : isName name = true) (rest : List Char) :
    (chars name ++ rest).tails.filterMap front? = name :: rest.tails.filterMap front? := by
  have hbrace := opening_not_mem_name h
  have hchars : chars name ++ rest = '{' :: '{' :: (name ++ ['}', '}'] ++ rest) := rfl
  have hfront : front? (chars name ++ rest) = some name :=
    front?_eq_some.mpr ⟨h, List.prefix_append _ _⟩
  have hsecond : (name ++ ['}', '}'] ++ rest).head? ≠ some '{' := by
    cases name with
    | nil => exact nofun
    | cons c name =>
      intro hhead
      exact hbrace (Option.some.inj hhead ▸ List.mem_cons_self)
  rw [hchars] at hfront ⊢
  rw [List.tails_cons, List.filterMap_cons_some hfront,
    filterMap_tails_cons (read?_eq_none_of_single hsecond), filterMap_tails_append hbrace]

theorem names_eq_filterMap_tails (cs : List Char) : names cs = cs.tails.filterMap front? := by
  induction cs using text_induction with
  | nil =>
    rw [names_nil]
    rfl
  | token name rest h ih => rw [names_chars h, filterMap_tails_chars h, ih]
  | char c cs h ih => rw [names_cons h, filterMap_tails_cons h, ih]

end Token

namespace Variable

section

variable {α β : Type} [BEq β] {f : α → Option β} {m n : β}

theorem findIdx_lt_findIdx {xs : List α}
    (h : (xs.filterMap f).idxOf m < (xs.filterMap f).idxOf n) :
    xs.findIdx (f · == some m) < xs.findIdx (f · == some n) := by
  induction xs with
  | nil => exact absurd h (Nat.lt_irrefl _)
  | cons x xs ih =>
    rw [List.findIdx_cons, List.findIdx_cons]
    cases hx : f x with
    | none =>
      rw [List.filterMap_cons_none hx] at h
      simpa using ih h
    | some k =>
      rw [List.filterMap_cons_some hx, List.idxOf_cons, List.idxOf_cons] at h
      rw [Option.some_beq_some, Option.some_beq_some]
      cases hn : k == n with
      | true =>
        rw [hn, cond_true] at h
        exact absurd h (Nat.not_lt_zero _)
      | false =>
        rw [hn, cond_false] at h
        cases hm : k == m with
        | true => exact Nat.succ_pos _
        | false =>
          rw [hm, cond_false] at h
          exact Nat.succ_lt_succ (ih (Nat.lt_of_succ_lt_succ h))

end

theorem addNew_concat (seen names : List String) (name : String) :
    addNew seen (names ++ [name]) =
      if (addNew seen names).contains name then addNew seen names
      else addNew seen names ++ [name] := by
  rw [addNew, List.foldl_append]
  rfl

theorem pairwise_addNew (names : List String) :
    (addNew [] names).Pairwise fun m n => names.idxOf m < names.idxOf n := by
  induction names using List.reverseRecOn with
  | nil => exact .nil
  | append_singleton names name ih =>
    have hmem {n : String} : n ∈ addNew [] names ↔ n ∈ names := by simp [mem_addNew]
    have hold : (addNew [] names).Pairwise fun m n =>
        (names ++ [name]).idxOf m < (names ++ [name]).idxOf n := by
      refine ih.imp_of_mem fun {m n} hm hn hlt => ?_
      rwa [List.idxOf_append_of_mem (hmem.mp hm), List.idxOf_append_of_mem (hmem.mp hn)]
    rw [addNew_concat]
    by_cases hname : name ∈ names
    · rwa [if_pos (List.contains_iff_mem.mpr (hmem.mpr hname))]
    · have hnew : ¬ (addNew [] names).contains name = true := by
        rwa [List.contains_iff_mem, hmem]
      rw [if_neg hnew, List.pairwise_append]
      refine ⟨hold, List.pairwise_singleton _ _, fun m hm n hn => ?_⟩
      cases List.mem_singleton.mp hn
      rw [List.idxOf_append_of_mem (hmem.mp hm), List.idxOf_append_of_notMem hname]
      exact Nat.lt_add_right _ (List.idxOf_lt_length_of_mem (hmem.mp hm))

def place (name text : String) : Nat :=
  text.toList.tails.findIdx (token name).toList.isPrefixOf

def front? (cs : List Char) : Option String :=
  (Token.front? cs).map .ofList

theorem occurrences_eq_filterMap_tails (text : String) :
    occurrences text = text.toList.tails.filterMap front? := by
  rw [occurrences, Token.names_eq_filterMap_tails, List.map_filterMap]
  rfl

theorem front?_eq_some {cs : List Char} {name : String} :
    front? cs = some name ↔ isValidName name = true ∧ (token name).toList <+: cs := by
  rw [front?, Option.map_eq_some_iff, isValidName, token, String.toList_ofList,
    ← Token.front?_eq_some]
  constructor
  · rintro ⟨cs, h, rfl⟩
    rwa [String.toList_ofList]
  · intro h
    exact ⟨name.toList, h, String.ofList_toList⟩

theorem place_eq_findIdx {name : String} (h : isValidName name = true) (text : String) :
    place name text = text.toList.tails.findIdx (front? · == some name) := by
  have hprefix : (token name).toList.isPrefixOf = (front? · == some name) := by
    funext cs
    rw [Bool.eq_iff_iff, List.isPrefixOf_iff_prefix, beq_iff_eq, front?_eq_some]
    exact (and_iff_right h).symm
  rw [place, hprefix]

theorem isValidName_iff {name : String} :
    isValidName name = true ↔ name ≠ "" ∧ name.toList.all Text.isNameChar = true := by
  rw [isValidName, Token.isName, Bool.and_eq_true]
  refine and_congr_left fun _ => ?_
  simp

theorem extract_finds_all (text : String) : (extract text).Nodup ∧
    (∀ name, name ∈ extract text ↔ (name ≠ "" ∧ name.toList.all Text.isNameChar = true) ∧
      '{' :: '{' :: name.toList ++ ['}', '}'] <:+: text.toList) ∧
    (extract text).Pairwise fun m n => place m text < place n text := by
  refine ⟨nodup_addNew .nil, fun name => ?_, ?_⟩
  · rw [mem_extract, mem_occurrences, isValidName_iff, token, String.toList_ofList]
    rfl
  · refine (pairwise_addNew (occurrences text)).imp_of_mem fun {m n} hm hn hlt => ?_
    have hvalid {name : String} (h : name ∈ extract text) : isValidName name = true :=
      isValidName_of_mem_occurrences (mem_extract.mp h)
    rw [place_eq_findIdx (hvalid hm), place_eq_findIdx (hvalid hn)]
    rw [occurrences_eq_filterMap_tails] at hlt
    exact findIdx_lt_findIdx hlt

example : extract "\x7b\x7b\x7bb\x7d\x7d\x7d \x7b\x7ba\x7b\x7bc\x7d\x7d\x7b\x7ba\x7d\x7d\x7b\x7bb\x7d\x7d" =
    ["b", "c", "a"] := by decide +kernel

end Variable

end EmailTemplates
