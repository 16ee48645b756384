import EmailTemplates.Variable.Token
import Mathlib.Data.List.Infix
import Mathlib.Data.List.TakeWhile

namespace EmailTemplates.Token

open EmailTemplates.Text (isNameChar)

theorem read?_chars {name : List Char} (h : isName name = true) (rest : List Char) :
    read? (chars name ++ rest) = some (name, rest) := by
  obtain ⟨hne, hall⟩ := Bool.and_eq_true_iff.mp h
  have hname : ∀ c ∈ name, isNameChar c = true := List.all_eq_true.mp hall
  cases name with
  | nil => simp at hne
  | cons c name =>
    have hclose : isNameChar '}' = false := by decide
    have ht : ((c :: name) ++ '}' :: '}' :: rest).takeWhile isNameChar = c :: name := by
      rw [List.takeWhile_append_of_pos hname]
      simp [hclose]
    have hd : ((c :: name) ++ '}' :: '}' :: rest).dropWhile isNameChar = '}' :: '}' :: rest := by
      rw [List.dropWhile_append_of_pos hname]
      simp [hclose]
    have hcs : chars (c :: name) ++ rest = '{' :: '{' :: ((c :: name) ++ '}' :: '}' :: rest) := by
      simp [chars]
    rw [hcs, read?]
    simp only [ht, hd]

theorem eq_of_read? {cs name rest : List Char} (h : read? cs = some (name, rest)) :
    isName name = true ∧ cs = chars name ++ rest := by
  unfold read? at h
  split at h
  · rename_i cs
    split at h
    · rename_i c name' rest' ht hd
      simp only [Option.some.injEq, Prod.mk.injEq] at h
      obtain ⟨rfl, rfl⟩ := h
      have hall : ∀ x ∈ c :: name', isNameChar x = true := by
        intro x hx
        rw [← ht] at hx
        exact List.mem_takeWhile_imp hx
      have hcs := List.takeWhile_append_dropWhile (p := isNameChar) (l := cs)
      rw [ht, hd] at hcs
      refine ⟨?_, ?_⟩
      · simpa [isName] using hall
      · rw [← hcs]
        simp [chars]
    · simp at h
  · simp at h

theorem read?_eq_none_of_head {c : Char} (hc : c ≠ '{') (cs : List Char) :
    read? (c :: cs) = none := by
  cases h : read? (c :: cs) with
  | none => rfl
  | some p =>
    obtain ⟨name, rest⟩ := p
    have := (eq_of_read? h).2
    simp [chars] at this
    exact absurd this.1 hc

@[simp] theorem pieces_nil : pieces [] = [] := by
  rw [pieces]
  simp [read?]

theorem pieces_of_read? {cs name rest : List Char} (h : read? cs = some (name, rest)) :
    pieces cs = .reference name :: pieces rest := by
  rw [pieces]
  split
  · rename_i n r h'
    rw [h] at h'
    simp only [Option.some.injEq, Prod.mk.injEq] at h'
    rw [h'.1, h'.2]
  · rename_i h'
    rw [h] at h'
    simp at h'

@[simp] theorem pieces_chars {name : List Char} (h : isName name = true) (rest : List Char) :
    pieces (chars name ++ rest) = .reference name :: pieces rest :=
  pieces_of_read? (read?_chars h rest)

theorem pieces_cons {c : Char} {cs : List Char} (h : read? (c :: cs) = none) :
    pieces (c :: cs) = .char c :: pieces cs := by
  rw [pieces]
  split
  · rename_i n r h'
    rw [h] at h'
    simp at h'
  · rfl

@[elab_as_elim]
theorem text_induction {motive : List Char → Prop} (nil : motive [])
    (token : ∀ name rest, isName name = true → motive rest → motive (chars name ++ rest))
    (char : ∀ c cs, read? (c :: cs) = none → motive cs → motive (c :: cs))
    (cs : List Char) : motive cs := by
  induction hn : cs.length using Nat.strong_induction_on generalizing cs with
  | _ n ih =>
    cases h : read? cs with
    | some p =>
      obtain ⟨name, rest⟩ := p
      have hlt := length_of_read? h
      obtain ⟨hname, rfl⟩ := eq_of_read? h
      exact token name rest hname (ih rest.length (hn ▸ hlt) rest rfl)
    | none =>
      cases cs with
      | nil => exact nil
      | cons c cs => exact char c cs h (ih cs.length (by simp [← hn]) cs rfl)

def breaks (c : Char) : Bool :=
  !isNameChar c && c != '{' && c != '}'

theorem not_mem_chars_of_breaks {name : List Char} (h : isName name = true) {c : Char}
    (hc : breaks c = true) : c ∉ chars name := by
  simp only [breaks, Bool.and_eq_true, Bool.not_eq_true', bne_iff_ne, ne_eq] at hc
  have hname : ∀ x ∈ name, isNameChar x = true :=
    List.all_eq_true.mp (Bool.and_eq_true_iff.mp h).2
  intro hm
  simp only [chars, List.mem_cons, List.mem_append, List.not_mem_nil, or_false] at hm
  rcases hm with (h1 | h1 | h1) | h1 | h1
  · exact hc.1.2 h1
  · exact hc.1.2 h1
  · have := hname c h1
    rw [hc.1.1] at this
    simp at this
  · exact hc.2 h1
  · exact hc.2 h1

theorem read?_append_of_breaks {cs : List Char} {c : Char} (hc : breaks c = true)
    (rest : List Char) (h : read? cs = none) : read? (cs ++ c :: rest) = none := by
  cases hr : read? (cs ++ c :: rest) with
  | none => rfl
  | some p =>
    obtain ⟨name, r⟩ := p
    obtain ⟨hname, heq⟩ := eq_of_read? hr
    rcases List.append_eq_append_iff.mp heq with ⟨a, ha, hb⟩ | ⟨a, ha, hb⟩
    · exfalso
      cases a with
      | nil =>
        rw [List.append_nil] at ha
        rw [← ha, ← List.append_nil (chars name), read?_chars hname] at h
        simp at h
      | cons x a =>
        have hx : c = x := by simpa using congrArg List.head? hb
        refine not_mem_chars_of_breaks hname hc ?_
        rw [ha, hx]
        simp
    · exfalso
      rw [ha, read?_chars hname] at h
      simp at h

theorem pieces_append_of_breaks {c : Char} (hc : breaks c = true) (cs rest : List Char) :
    pieces (cs ++ c :: rest) = pieces cs ++ pieces (c :: rest) := by
  induction cs using text_induction with
  | nil => simp
  | token name cs hname ih =>
    rw [List.append_assoc, pieces_chars hname, pieces_chars hname, ih, List.cons_append]
  | char x cs h ih =>
    rw [pieces_cons h, List.cons_append, List.cons_append, pieces_cons, ih]
    exact read?_append_of_breaks hc rest h

theorem pieces_append_of_not_mem {cs : List Char} (h : '{' ∉ cs) (rest : List Char) :
    pieces (cs ++ rest) = cs.map .char ++ pieces rest := by
  induction cs with
  | nil => rfl
  | cons c cs ih =>
    simp only [List.mem_cons, not_or] at h
    rw [List.cons_append, pieces_cons (read?_eq_none_of_head (Ne.symm h.1) _), ih h.2]
    rfl

theorem opening_not_mem_name {name : List Char} (h : isName name = true) :
    '{' ∉ name ++ ['}', '}'] := by
  have hall := List.all_eq_true.mp (Bool.and_eq_true_iff.mp h).2
  intro hm
  rcases List.mem_append.mp hm with hm | hm
  · exact absurd (hall _ hm) (by decide)
  · simp at hm

theorem read?_append_braces {cs : List Char} (hne : cs ≠ []) (h : read? cs = none)
    (rest : List Char) : read? (cs ++ '{' :: '{' :: rest) = none := by
  cases hr : read? (cs ++ '{' :: '{' :: rest) with
  | none => rfl
  | some p =>
    exfalso
    obtain ⟨name, r⟩ := p
    obtain ⟨hname, heq⟩ := eq_of_read? hr
    have hbrace := opening_not_mem_name hname
    rcases List.append_eq_append_iff.mp heq with ⟨a, ha, hb⟩ | ⟨a, ha, -⟩
    · match cs, a with
      | [], _ => exact hne rfl
      | c :: cs, [] =>
        rw [List.append_nil] at ha
        rw [← ha, ← List.append_nil (chars name), read?_chars hname] at h
        cases h
      | [c], x :: a =>
        -- The token would have to open with the first of the two braces.
        simp only [chars, List.cons_append, List.nil_append, List.cons.injEq] at ha hb
        obtain ⟨d, name, rfl⟩ := List.exists_cons_of_ne_nil
          (List.isEmpty_eq_false_iff.mp (by simpa using (Bool.and_eq_true_iff.mp hname).1))
        rw [← ha.2.2, List.cons_append, List.cons_append, List.cons.injEq] at hb
        rw [← hb.2.1] at hbrace
        exact hbrace List.mem_cons_self
      | c :: d :: cs, x :: a =>
        simp only [chars, List.cons_append, List.cons.injEq] at ha hb
        rw [ha.2.2, ← hb.1] at hbrace
        exact hbrace (List.mem_append_right cs List.mem_cons_self)
    · rw [ha, read?_chars hname] at h
      cases h

theorem pieces_append_braces (cs rest : List Char) :
    pieces (cs ++ '{' :: '{' :: rest) = pieces cs ++ pieces ('{' :: '{' :: rest) := by
  induction cs using text_induction with
  | nil => rw [List.nil_append, pieces_nil, List.nil_append]
  | token name cs hname ih =>
    rw [List.append_assoc, pieces_chars hname, pieces_chars hname, ih, List.cons_append]
  | char c cs hc ih =>
    have hnone := read?_append_braces (List.cons_ne_nil c cs) hc rest
    rw [List.cons_append] at hnone ⊢
    rw [pieces_cons hnone, pieces_cons hc, ih, List.cons_append]

theorem pieces_newline : pieces ['\n'] = [.char '\n'] := by
  rw [pieces_cons (read?_eq_none_of_head (by decide) []), pieces_nil]

@[simp] theorem names_nil : names [] = [] := by
  rw [names, pieces_nil, List.filterMap_nil]

@[simp] theorem names_chars {name : List Char} (h : isName name = true) (rest : List Char) :
    names (chars name ++ rest) = name :: names rest := by
  rw [names, pieces_chars h]
  rfl

theorem names_cons {c : Char} {cs : List Char} (h : read? (c :: cs) = none) :
    names (c :: cs) = names cs := by
  rw [names, pieces_cons h]
  rfl

theorem names_of_not_mem {cs : List Char} (h : '{' ∉ cs) : names cs = [] := by
  induction cs with
  | nil => exact names_nil
  | cons c cs ih =>
    rw [List.mem_cons, not_or] at h
    rw [names_cons (read?_eq_none_of_head (Ne.symm h.1) cs), ih h.2]

theorem names_append_of_not_mem {cs : List Char} (h : '{' ∉ cs) (rest : List Char) :
    names (cs ++ rest) = names rest := by
  induction cs with
  | nil => rfl
  | cons c cs ih =>
    rw [List.mem_cons, not_or] at h
    rw [List.cons_append, names_cons (read?_eq_none_of_head (Ne.symm h.1) _), ih h.2]

theorem names_append_of_breaks {c : Char} (hc : breaks c = true) (cs rest : List Char) :
    names (cs ++ c :: rest) = names cs ++ names (c :: rest) := by
  rw [names, pieces_append_of_breaks hc, List.filterMap_append]
  rfl

theorem pieces_of_names_eq_nil {cs : List Char} (h : names cs = []) :
    pieces cs = cs.map .char := by
  induction cs using text_induction with
  | nil => exact pieces_nil
  | token name rest hname ih =>
    rw [names_chars hname] at h
    cases h
  | char c cs hr ih =>
    rw [names_cons hr] at h
    rw [pieces_cons hr, ih h, List.map_cons]

theorem mem_names_of_infix {cs name : List Char} (hname : isName name = true)
    (h : chars name <:+: cs) : name ∈ names cs := by
  obtain ⟨s, t, rfl⟩ := h
  have hpieces : pieces (s ++ (chars name ++ t)) = pieces s ++ .reference name :: pieces t := by
    rw [← pieces_chars hname]
    exact pieces_append_braces s _
  rw [names, List.append_assoc, hpieces, List.filterMap_append]
  exact List.mem_append_right _ List.mem_cons_self

theorem infix_of_mem_names {cs name : List Char} (h : name ∈ names cs) :
    isName name = true ∧ chars name <:+: cs := by
  induction cs using text_induction with
  | nil => simp at h
  | token other rest hname ih =>
    rw [names_chars hname, List.mem_cons] at h
    rcases h with rfl | h
    · exact ⟨hname, List.prefix_append _ _ |>.isInfix⟩
    · exact ⟨(ih h).1, (ih h).2.trans (List.suffix_append _ _).isInfix⟩
  | char c cs hc ih =>
    rw [names_cons hc] at h
    exact ⟨(ih h).1, (ih h).2.trans (List.suffix_cons c cs).isInfix⟩

theorem names_subset_of_infix {cs ds : List Char} (h : cs <:+: ds) : names cs ⊆ names ds := by
  intro name hmem
  obtain ⟨hname, hin⟩ := infix_of_mem_names hmem
  exact mem_names_of_infix hname (hin.trans h)

end EmailTemplates.Token
