import EmailTemplates.Proofs.Source.Search

namespace EmailTemplates.Source

open EmailTemplates.Text (Slice byteLength isBlank isNameChar isWord)

variable {cs rest : List Char}

structure IsIdentifier (cs : List Char) : Prop where
  ne_nil : cs ≠ []
  chars : ∀ c ∈ cs, isNameChar c = true
  head : ∀ c ∈ cs.head?, c.isDigit = false

theorem isWord_of_isNameChar {c : Char} (h : isNameChar c = true) : isWord c = true := by
  rw [isNameChar] at h
  simp [isWord, h]

theorem identifier_append (h : IsIdentifier cs) (n : Nat) (hr : ∀ c ∈ rest.head?, isWord c = false) :
    identifier ⟨n, cs ++ rest⟩ = some (⟨n, cs⟩, ⟨n + byteLength cs, rest⟩) := by
  have hrun := Slice.run_append n h.ne_nil (fun c hc => isWord_of_isNameChar (h.chars c hc)) hr
  cases cs with
  | nil => exact absurd rfl h.ne_nil
  | cons c cs =>
    have hname := h.chars c List.mem_cons_self
    have hdigit := h.head c rfl
    have hhead : (c.isAlpha || c == '_') = true := by
      simpa [isNameChar, Char.isAlphanum, hdigit] using hname
    rw [identifier]
    simp only [List.cons_append, List.head?_cons, Option.any_some, hhead, if_true]
    exact hrun

theorem identifier_eq_none (h : ∀ c ∈ cs.head?, isNameChar c = false) (n : Nat) :
    identifier ⟨n, cs⟩ = none := by
  rw [identifier]
  cases cs with
  | nil => rfl
  | cons c cs =>
    have hc := h c rfl
    simp only [isNameChar, Char.isAlphanum, Bool.or_eq_false_iff] at hc
    simp [hc.1.1, hc.2]

theorem isIdentifier_constant {name : String} (h : name ∈ "header" :: constantNames) :
    IsIdentifier name.toList := by
  have hne : ∀ name ∈ "header" :: constantNames, name.toList ≠ [] := by decide
  have hchars : ∀ name ∈ "header" :: constantNames, ∀ c ∈ name.toList, isNameChar c = true := by
    decide
  have hhead : ∀ name ∈ "header" :: constantNames, ∀ c ∈ name.toList.head?, c.isDigit = false := by
    decide
  exact ⟨hne name h, hchars name h, hhead name h⟩

namespace Scalar

def readUnindented : Slice.Reader Scalar := fun s => (s.expectText "export").bind fun s =>
  s.skipBlanks?.bind fun s => (s.expectText "const").bind fun s => s.skipBlanks?.bind fun s =>
    (identifier s).bind fun x => (skipType x.2.skipBlanks).bind fun s => (s.expect '=').bind fun s =>
      (Quoted.read s.skipBlanks).bind fun p => some (⟨x.1.toString, p.1⟩, p.2)

theorem read_eq (s : Slice) : read s = readUnindented (s.dropWhile isIndent) := rfl

theorem ledBy_readUnindented : LedBy readUnindented ["export", "const"] :=
  ledBy_words (fun _ => rfl) (ledBy_word fun _ => rfl)

theorem read_of_not_opensWith (h : opensWith ["export", "const"] (cs.dropWhile isIndent) = false)
    (n : Nat) : read ⟨n, cs⟩ = none :=
  ledBy_readUnindented.eq_none h

theorem read_const {name : String} (h : name ∈ "header" :: constantNames) (n : Nat)
    (hhead : ∀ c ∈ cs.head?, isBlank c = false) :
    ∃ m, read ⟨n, "export".toList ++ ' ' :: ("const".toList ++ ' ' ::
      (name.toList ++ ' ' :: '=' :: ' ' :: cs))⟩ =
        (Quoted.read ⟨m, cs⟩).bind fun p => some (⟨name, p.1⟩, p.2) := by
  have hname := isIdentifier_constant h
  have hindent (tail : List Char) : ∀ c ∈ ("export".toList ++ tail).head?, isIndent c = false :=
    Slice.head_append (by decide) (by decide) tail
  have hconst (tail : List Char) : ∀ c ∈ ("const".toList ++ tail).head?, isBlank c = false :=
    Slice.head_append (by decide) (by decide) tail
  have hblank : ∀ c ∈ (name.toList ++ ' ' :: '=' :: ' ' :: cs).head?, isBlank c = false :=
    Slice.head_append hname.ne_nil (fun c hc => Text.isBlank_of_isNameChar (hname.chars c hc)) _
  have htype (m : Nat) : skipType ⟨m, '=' :: ' ' :: cs⟩ = some ⟨m, '=' :: ' ' :: cs⟩ := by
    rw [skipType, Slice.expect_of_ne (by decide)]
  rw [read_eq, Slice.sliceDropWhile_self n (hindent _), readUnindented, Slice.expectText_append, Option.bind_some,
    Slice.skipBlanks?_blank _ (hconst _), Option.bind_some, Slice.expectText_append, Option.bind_some,
    Slice.skipBlanks?_blank _ hblank, Option.bind_some,
    identifier_append hname _ (Slice.head_cons (by decide) _), Option.bind_some,
    Slice.skipBlanks_blank _ (Slice.head_cons (by decide) _), htype, Option.bind_some,
    Slice.expect_cons, Option.bind_some, Slice.skipBlanks_blank _ hhead]
  simp only [Slice.toString, String.ofList_toList]
  exact ⟨_, rfl⟩

def pair (x : Scalar) : String × String :=
  (x.name, x.value)

end Scalar

theorem scalarsFrom_of_none (h : '\n' ∉ cs) {n : Nat}
    (hread : Scalar.read ⟨n, cs ++ '\n' :: rest⟩ = none) :
    ∃ m, scalarsFrom ⟨n, cs ++ '\n' :: rest⟩ = scalarsFrom ⟨m, rest⟩ := by
  cases cs with
  | nil => exact ⟨_, Slice.findAllInLines_of_none fun _ => hread⟩
  | cons c cs =>
    obtain ⟨hc, hcs⟩ := not_or.mp (mt List.mem_cons.mpr h)
    have hline : (c == '\n') = false := by simpa using Ne.symm hc
    rw [List.cons_append] at hread ⊢
    rw [scalarsFrom, Slice.findAllInLines_of_none fun _ => hread, hline,
      Slice.findAllInLines_line hcs]
    exact ⟨_, rfl⟩

namespace Line

def pair? : Line → Option (String × String)
  | constant name value => some (name, value)
  | _ => none

theorem scalarsFrom_constant {name value : String} (h : name ∈ constantNames) (n : Nat) :
    ∃ k m, scalarsFrom ⟨n, (constant name value).chars ++ '\n' :: rest⟩ =
      ⟨name, ⟨k, Quoted.escape value.toList⟩⟩ :: scalarsFrom ⟨m, rest⟩ := by
  have hquote : ∀ c ∈ (Quoted.encode value.toList ++ ';' :: '\n' :: rest).head?,
      isBlank c = false := by
    intro c hc
    obtain rfl : '\'' = c := Option.some.inj hc
    decide
  obtain ⟨k, hk⟩ := Scalar.read_const (List.mem_cons_of_mem _ h) n hquote
  rw [Quoted.read_encode, Option.bind_some, ← constant_append] at hk
  have hline := @Slice.findAllInLines_line Scalar Scalar.read [';'] rest (by decide)
    (k + byteLength (Quoted.encode value.toList))
  rw [scalarsFrom, Slice.findAllInLines_of_some Scalar.advances_read hk]
  exact ⟨_, _, congrArg _ hline⟩

theorem read_interface {name body : List Char} (n : Nat) :
    Scalar.read ⟨n, (interface name body).chars ++ '\n' :: rest⟩ = none := by
  rw [interface_append]
  exact Scalar.read_of_not_opensWith rfl n

theorem read_header (n : Nat) : Scalar.read ⟨n, header.chars ++ '\n' :: rest⟩ = none := by
  obtain ⟨m, hm⟩ := @Scalar.read_const ('{' :: '\n' :: rest) "header" List.mem_cons_self n
    (Slice.head_cons (by decide) _)
  rw [header_append, hm, Quoted.read]
  simp

theorem not_mem_interface {words : List String} {name body : List Char}
    (h : (interface name body).IsFair words) : '\n' ∉ (interface name body).chars := by
  have hname : '\n' ∉ name := fun hmem => absurd (h.2.1 _ hmem) (by decide)
  refine not_mem_append_cons (by decide) (by decide) (not_mem_append_cons (by decide) (by decide)
    (not_mem_append_cons hname (by decide) ?_))
  rcases h.2.2 with rfl | rfl <;> decide

theorem read_loose {words : List String} (h : (loose cs).IsFair words) (n : Nat) :
    Scalar.read ⟨n, cs ++ '\n' :: rest⟩ = none := by
  have hdrop : (cs ++ '\n' :: rest).dropWhile isIndent = cs.dropWhile isIndent ++ '\n' :: rest :=
    dropWhile_append_of_barrier (by decide) _ _
  have hclosed : Closed ["export", "const"] (cs.dropWhile isIndent) :=
    (h.2.2.1.mono (by simp)).suffix (List.dropWhile_suffix _)
  refine Scalar.read_of_not_opensWith ?_ n
  rw [hdrop, Bool.eq_false_iff]
  intro hopens
  have hdeclares := opensWith_of_append_cons isKeyword_declaration (by decide) (fun _ => hclosed) hopens
  rw [h.2.1] at hdeclares
  cases hdeclares

theorem scalarsFrom_written {words : List String} {lines : List Line}
    (h : ∀ l ∈ lines, l.IsFair words) (n : Nat)
    (rest : List Char) : ∃ m, (scalarsFrom ⟨n, written lines ++ rest⟩).map Scalar.pair =
      lines.filterMap pair? ++ (scalarsFrom ⟨m, rest⟩).map Scalar.pair := by
  induction lines generalizing n with
  | nil => exact ⟨n, rfl⟩
  | cons l lines ih =>
    obtain ⟨hl, hlines⟩ := List.forall_mem_cons.mp h
    have hundeclared {cs : List Char} (hcs : '\n' ∉ cs) (hread : Scalar.read
        ⟨n, cs ++ '\n' :: (written lines ++ rest)⟩ = none) : ∃ m, (scalarsFrom
          ⟨n, cs ++ '\n' :: (written lines ++ rest)⟩).map Scalar.pair =
            lines.filterMap pair? ++ (scalarsFrom ⟨m, rest⟩).map Scalar.pair := by
      obtain ⟨k, hk⟩ := scalarsFrom_of_none hcs hread
      obtain ⟨m, hm⟩ := ih hlines k
      exact ⟨m, (congrArg (List.map Scalar.pair) hk).trans hm⟩
    rw [written_cons]
    cases l with
    | loose cs => exact hundeclared hl.1 (read_loose hl n)
    | constant name value =>
      obtain ⟨j, k, hk⟩ := @scalarsFrom_constant (written lines ++ rest) _ _ hl.1 n
      obtain ⟨m, hm⟩ := ih hlines k
      have hpair : Scalar.pair ⟨name, ⟨j, Quoted.escape value.toList⟩⟩ = (name, value) := by
        rw [Scalar.pair, Scalar.value, Quoted.unescape_escape, String.ofList_toList]
      exact ⟨m, (congrArg (List.map Scalar.pair) hk).trans (congrArg₂ List.cons hpair hm)⟩
    | interface name body => exact hundeclared (not_mem_interface hl) (read_interface n)
    | header => exact hundeclared (by decide) (read_header n)

end Line

end EmailTemplates.Source
