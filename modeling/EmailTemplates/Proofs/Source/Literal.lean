import EmailTemplates.Proofs.Outcome
import EmailTemplates.Proofs.Text.Blank
import EmailTemplates.Proofs.Text.Slice
import EmailTemplates.Proofs.Variable.Pieces
import EmailTemplates.Source.Literal

namespace EmailTemplates.Source.Literal

open EmailTemplates.Text (Slice byteLength)
open Outcome (map_add_map_add)

variable {c : Char} {cs ds rest name : List Char}

def escapeAt (c : Char) (cs : List Char) : List Char :=
  if c = '\\' ∨ c = '`' ∨ c = '$' ∧ cs.head? = some '{' then ['\\', c] else [c]

theorem escape_cons (c : Char) (cs : List Char) : escape (c :: cs) = escapeAt c cs ++ escape cs := by
  rw [escape.eq_def, escapeAt]
  split
  · rename_i h
    cases h
  · rename_i h
    cases h
    simp
  · rename_i h
    cases h
    simp
  · rename_i ds h
    cases h
    simp [escape]
  · rename_i d ds h1 h2 h3 h
    cases h
    have hc : ¬ (c = '\\' ∨ c = '`' ∨ c = '$' ∧ cs.head? = some '{') := by
      rintro (rfl | rfl | ⟨rfl, hd⟩)
      · exact h1 rfl
      · exact h2 rfl
      · obtain ⟨tail, rfl⟩ := List.head?_eq_some_iff.mp hd
        exact h3 tail rfl rfl
    rw [if_neg hc]
    rfl

def isSpecial (c : Char) : Bool :=
  c == '\\' || c == '`' || c == '$'

theorem escapeAt_of_not_special (h : isSpecial c = false) (cs : List Char) :
    escapeAt c cs = [c] := by
  simp only [isSpecial, Bool.or_eq_false_iff, beq_eq_false_iff_ne, ne_eq] at h
  simp [escapeAt, h]

theorem escape_append (h : ∀ c ∈ cs, isSpecial c = false) :
    escape (cs ++ rest) = cs ++ escape rest := by
  induction cs with
  | nil => rfl
  | cons c cs ih =>
    obtain ⟨hc, hcs⟩ := List.forall_mem_cons.mp h
    rw [List.cons_append, escape_cons, escapeAt_of_not_special hc, ih hcs]
    rfl

theorem not_special_of_isNameChar (h : Text.isNameChar c = true) : isSpecial c = false := by
  simp only [isSpecial, Bool.or_eq_false_iff, beq_eq_false_iff_ne, ne_eq]
  refine ⟨⟨?_, ?_⟩, ?_⟩ <;>
  · rintro rfl
    revert h
    decide

theorem not_special_of_mem_chars (h : Token.isName name = true) :
    ∀ c ∈ Token.chars name, isSpecial c = false := by
  intro c hc
  by_contra hs
  refine Token.not_mem_chars_of_breaks h ?_ hc
  simp only [isSpecial, Bool.not_eq_false, Bool.or_eq_true, beq_iff_eq] at hs
  rcases hs with (rfl | rfl) | rfl <;> decide

theorem prefix_of_escape {w : List Char} (h : ∀ c ∈ w, isSpecial c = false)
    (he : escape cs = w ++ rest) : ∃ cs', cs = w ++ cs' := by
  induction w generalizing cs with
  | nil => exact ⟨cs, rfl⟩
  | cons x w ih =>
    obtain ⟨hx, hw⟩ := List.forall_mem_cons.mp h
    cases cs with
    | nil => simp [escape] at he
    | cons c cs =>
      rw [escape_cons, escapeAt] at he
      split at he
      · have hmark : '\\' = x := (List.cons.inj he).1
        rw [← hmark] at hx
        simp [isSpecial] at hx
      · obtain ⟨rfl, htail⟩ := List.cons.inj he
        obtain ⟨cs', rfl⟩ := ih hw htail
        exact ⟨cs', rfl⟩

@[simp] theorem encode_nil : encode [] = [] := by
  simp [encode, interpolate, escape]

theorem encode_chars (h : Token.isName name = true) (rest : List Char) :
    encode (Token.chars name ++ rest) = interpolation name ++ encode rest := by
  rw [encode, escape_append (not_special_of_mem_chars h), interpolate, Token.pieces_chars h]
  rfl

theorem encode_cons (h : Token.read? (c :: cs) = none) :
    encode (c :: cs) = escapeAt c cs ++ encode cs := by
  have hchar {d : Char} {ds : List Char} (hd : Token.read? (d :: ds) = none) :
      interpolate (d :: ds) = d :: interpolate ds := by
    rw [interpolate, Token.pieces_cons hd]
    rfl
  rw [encode, escape_cons, escapeAt]
  split
  · rename_i hs
    have hc : c ≠ '{' := by
      rintro rfl
      revert hs
      simp
    change interpolate ('\\' :: c :: escape cs) = '\\' :: c :: encode cs
    rw [hchar (Token.read?_eq_none_of_head (by decide) _),
      hchar (Token.read?_eq_none_of_head hc _), encode]
  · change interpolate (c :: escape cs) = c :: encode cs
    refine hchar ?_
    cases hr : Token.read? (c :: escape cs) with
    | none => rfl
    | some p =>
      obtain ⟨name, r⟩ := p
      obtain ⟨hname, heq⟩ := Token.eq_of_read? hr
      cases hn : Token.chars name with
      | nil => simp [Token.chars] at hn
      | cons x w =>
        have hspecial := not_special_of_mem_chars hname
        rw [hn, List.cons_append, List.cons.injEq] at heq
        obtain ⟨rfl, he⟩ := heq
        rw [hn] at hspecial
        obtain ⟨cs', rfl⟩ := prefix_of_escape (List.forall_mem_cons.mp hspecial).2 he
        rw [← List.cons_append, ← hn, Token.read?_chars hname] at h
        cases h

theorem encode_append (hb : Token.breaks c = true) (hs : isSpecial c = false) (cs rest : List Char) :
    encode (cs ++ c :: rest) = encode cs ++ c :: encode rest := by
  have hbrace : c ≠ '{' := by
    rintro rfl
    revert hb
    decide
  induction cs using Token.text_induction with
  | nil =>
    rw [List.nil_append, encode_cons (Token.read?_eq_none_of_head hbrace rest),
      escapeAt_of_not_special hs, encode_nil]
    rfl
  | token name cs hname ih =>
    rw [List.append_assoc, encode_chars hname, encode_chars hname, ih, List.append_assoc]
  | char x cs hx ih =>
    have hx' : Token.read? (x :: (cs ++ c :: rest)) = none := by
      rw [← List.cons_append]
      exact Token.read?_append_of_breaks hb rest hx
    have hhead : escapeAt x (cs ++ c :: rest) = escapeAt x cs := by
      cases cs with
      | nil => simp [escapeAt, hbrace]
      | cons d cs => rfl
    rw [List.cons_append, encode_cons hx', encode_cons hx, hhead, ih, List.append_assoc]

theorem encode_cons_of_plain (hs : isSpecial c = false) (hc : c ≠ '{') (cs : List Char) :
    encode (c :: cs) = c :: encode cs := by
  rw [encode_cons (Token.read?_eq_none_of_head hc cs), escapeAt_of_not_special hs]
  rfl

theorem encode_append_of_plain (h : ∀ c ∈ cs, isSpecial c = false ∧ c ≠ '{') (rest : List Char) :
    encode (cs ++ rest) = cs ++ encode rest := by
  induction cs with
  | nil => rfl
  | cons c cs ih =>
    obtain ⟨⟨hs, hc⟩, hcs⟩ := List.forall_mem_cons.mp h
    rw [List.cons_append, encode_cons_of_plain hs hc, ih hcs, List.cons_append]

def dataName (name : List Char) : List Char :=
  'd' :: 'a' :: 't' :: 'a' :: '.' :: name

theorem interpolation_eq (name : List Char) :
    interpolation name = '$' :: '{' :: (dataName name ++ ['}']) := by
  have hopen : "$\x7bdata.".toList = ['$', '{', 'd', 'a', 't', 'a', '.'] := rfl
  unfold interpolation
  rw [hopen]
  simp [dataName]

theorem head?_encode (h : (encode cs).head? = some '{') : cs.head? = some '{' := by
  induction cs using Token.text_induction with
  | nil => simp at h
  | token name cs hname =>
    rw [encode_chars hname, interpolation_eq] at h
    simp at h
  | char c cs hc =>
    rw [encode_cons hc, escapeAt] at h
    split at h
    · simp at h
    · simpa using h

theorem expressionLength_append (h : ∀ c ∈ cs, c ≠ '{' ∧ c ≠ '}') (rest : List Char) :
    expressionLength 0 (cs ++ '}' :: rest) = some cs.length := by
  induction cs with
  | nil => rfl
  | cons c cs ih =>
    obtain ⟨⟨ho, hc⟩, hcs⟩ := List.forall_mem_cons.mp h
    rw [List.cons_append, expressionLength.eq_def]
    split
    · rename_i heq
      cases heq
    · rename_i heq
      exact absurd (List.cons.inj heq).1 ho
    · rename_i heq
      exact absurd (List.cons.inj heq).1 hc
    · rename_i heq
      exact absurd (List.cons.inj heq).1 hc
    · rename_i heq _ _
      obtain ⟨rfl, rfl⟩ := List.cons.inj heq
      rw [ih hcs]
      rfl

theorem mem_of_mem_encode (hb : Token.breaks c = true) (hs : isSpecial c = false) (hd : c ≠ '.')
    (h : c ∈ encode cs) : c ∈ cs := by
  induction cs using Token.text_induction with
  | nil => simp at h
  | token name cs hname ih =>
    rw [encode_chars hname, List.mem_append] at h
    rcases h with h | h
    · exfalso
      have hnames : ∀ x ∈ name, Text.isNameChar x = true :=
        List.all_eq_true.mp (Bool.and_eq_true_iff.mp hname).2
      simp only [interpolation_eq, dataName, List.cons_append, List.mem_cons, List.mem_append,
        List.not_mem_nil, or_false] at h
      rcases h with rfl | rfl | rfl | rfl | rfl | rfl | rfl | h | rfl
      · revert hs
        decide
      iterate 5
        revert hb
        decide
      · exact hd rfl
      · have hx := hnames c h
        simp [Token.breaks, hx] at hb
      · revert hb
        decide
    · exact List.mem_append_right _ (ih h)
  | char x cs hx ih =>
    rw [encode_cons hx, List.mem_append] at h
    rcases h with h | h
    · rw [escapeAt] at h
      split at h
      · simp only [List.mem_cons, List.not_mem_nil, or_false] at h
        rcases h with rfl | rfl
        · simp [isSpecial] at hs
        · exact List.mem_cons_self
      · rw [List.mem_singleton.mp h]
        exact List.mem_cons_self
    · exact List.mem_cons_of_mem _ (ih h)

theorem dataName_no_brace (h : Token.isName name = true) :
    ∀ c ∈ dataName name, c ≠ '{' ∧ c ≠ '}' := by
  have hname : ∀ c ∈ name, Text.isNameChar c = true :=
    List.all_eq_true.mp (Bool.and_eq_true_iff.mp h).2
  intro c hc
  simp only [dataName, List.mem_cons] at hc
  rcases hc with rfl | rfl | rfl | rfl | rfl | hc
  iterate 5 decide
  constructor <;>
  · rintro rfl
    have := hname _ hc
    revert this
    decide

theorem nameOf?_dataName (h : Token.isName name = true) :
    nameOf? (dataName name) = some name := by
  have hname : ∀ c ∈ name, Text.isNameChar c = true :=
    List.all_eq_true.mp (Bool.and_eq_true_iff.mp h).2
  have htrim : Text.trim (dataName name) = dataName name := by
    refine Text.trim_of_not_blank fun c hc => ?_
    simp only [dataName, List.mem_cons] at hc
    rcases hc with rfl | rfl | rfl | rfl | rfl | hc
    iterate 5 decide
    exact Text.isBlank_of_isNameChar (hname c hc)
  rw [nameOf?, htrim]
  simp [dataName, h]

theorem pieces_of_nextPiece {s : Slice} {p : Piece} {k : Nat} (hs : s.chars = c :: cs)
    (h : nextPiece s = (p, k)) : pieces s = p :: pieces (s.drop (k + 1)) := by
  rw [pieces.eq_def]
  split
  · rename_i hnil
    rw [hs] at hnil
    cases hnil
  · simp only [h]

theorem pieces_nil (n : Nat) : pieces ⟨n, []⟩ = [] := by
  rw [pieces.eq_def]

theorem pieces_interpolation (h : Token.isName name = true) (n : Nat) (rest : List Char) :
    pieces ⟨n, interpolation name ++ rest⟩ =
      .reference name :: pieces ⟨n + byteLength (interpolation name), rest⟩ := by
  have hlen := expressionLength_append (dataName_no_brace h) rest
  have hchars : interpolation name ++ rest = '$' :: '{' :: (dataName name ++ '}' :: rest) := by
    rw [interpolation_eq]
    simp
  have hnext : nextPiece ⟨n, interpolation name ++ rest⟩ =
      (.reference name, (dataName name).length + 2) := by
    rw [nextPiece, hchars]
    simp only [hlen, List.take_left, nameOf?_dataName h]
  have hdrop := Slice.drop_append n (interpolation name) rest
  have hsize : (interpolation name).length = (dataName name).length + 2 + 1 := by
    rw [interpolation_eq]
    simp
  rw [hsize] at hdrop
  rw [pieces_of_nextPiece hchars hnext, hdrop]

theorem pieces_escapeAt (n : Nat) (c : Char) (h : rest.head? = some '{' → cs.head? = some '{') :
    ∃ m, pieces ⟨n, escapeAt c cs ++ rest⟩ = .char c :: pieces ⟨m, rest⟩ := by
  rw [escapeAt]
  split
  · rename_i hs
    have hnext : nextPiece ⟨n, '\\' :: c :: rest⟩ = (.char c, 1) := by
      rcases hs with rfl | rfl | ⟨rfl, _⟩ <;> rfl
    have hdrop := Slice.drop_append n ['\\', c] rest
    exact ⟨_, (pieces_of_nextPiece rfl hnext).trans (by rw [← hdrop]; rfl)⟩
  · rename_i hs
    simp only [not_or, not_and] at hs
    have hnext : nextPiece ⟨n, c :: rest⟩ = (.char c, 0) := by
      rw [nextPiece]
      split
      · rename_i heq
        cases heq
      · rename_i heq
        exact absurd (List.cons.inj heq).1 hs.1
      · rename_i heq
        obtain ⟨rfl, rfl⟩ := List.cons.inj heq
        exact absurd (h rfl) (hs.2.2 rfl)
      · rename_i heq
        obtain ⟨rfl, rfl⟩ := List.cons.inj heq
        rfl
    have hdrop := Slice.drop_append n [c] rest
    exact ⟨_, (pieces_of_nextPiece rfl hnext).trans (by rw [← hdrop]; rfl)⟩

theorem pieces_encode (n : Nat) (cs : List Char) :
    text (pieces ⟨n, encode cs⟩) = cs ∧ unsupported (pieces ⟨n, encode cs⟩) = [] := by
  induction cs using Token.text_induction generalizing n with
  | nil =>
    rw [encode_nil, pieces_nil]
    exact ⟨rfl, rfl⟩
  | token name cs hname ih =>
    obtain ⟨htext, hun⟩ := ih (n + byteLength (interpolation name))
    rw [encode_chars hname, pieces_interpolation hname]
    exact ⟨congrArg (Token.chars name ++ ·) htext, hun⟩
  | char c cs hc ih =>
    rw [encode_cons hc]
    obtain ⟨m, hm⟩ := pieces_escapeAt n c (@head?_encode cs)
    obtain ⟨htext, hun⟩ := ih m
    rw [hm]
    exact ⟨congrArg (c :: ·) htext, hun⟩

theorem bodyLength_interpolation (h : Token.isName name = true) (rest : List Char) :
    bodyLength (interpolation name ++ rest) =
      (bodyLength rest).map (· + (interpolation name).length) := by
  have hlen := expressionLength_append (dataName_no_brace h) rest
  have hchars : interpolation name ++ rest = '$' :: '{' :: (dataName name ++ '}' :: rest) := by
    rw [interpolation_eq]
    simp
  have hdrop : (dataName name ++ '}' :: rest).drop ((dataName name).length + 1) = rest := by
    simp
  have hsize : (interpolation name).length = (dataName name).length + 3 := by
    rw [interpolation_eq]
    simp
  rw [hchars, bodyLength, hlen]
  simp only [Option.bind_eq_bind, Option.bind_some, hdrop, hsize]

theorem bodyLength_escapeAt (c : Char) (h : rest.head? = some '{' → cs.head? = some '{') :
    bodyLength (escapeAt c cs ++ rest) = (bodyLength rest).map (· + (escapeAt c cs).length) := by
  rw [escapeAt]
  split
  · rename_i hs
    change bodyLength ('\\' :: c :: rest) = _
    rw [bodyLength]
    rfl
  · rename_i hs
    simp only [not_or, not_and] at hs
    change bodyLength (c :: rest) = _
    rw [bodyLength.eq_def]
    split
    · rename_i heq
      cases heq
    · rename_i heq
      exact absurd (List.cons.inj heq).1 hs.2.1
    · rename_i heq
      exact absurd (List.cons.inj heq).1 hs.1
    · rename_i heq
      obtain ⟨rfl, rfl⟩ := List.cons.inj heq
      exact absurd (h rfl) (hs.2.2 rfl)
    · rename_i heq
      obtain ⟨rfl, rfl⟩ := List.cons.inj heq
      rfl

theorem bodyLength_encode (h : rest.head? ≠ some '{') (cs : List Char) :
    bodyLength (encode cs ++ rest) = (bodyLength rest).map (· + (encode cs).length) := by
  induction cs using Token.text_induction with
  | nil => simp
  | token name cs hname ih =>
    rw [encode_chars hname, List.append_assoc, bodyLength_interpolation hname, ih, map_add_map_add,
      List.length_append]
  | char c cs hc ih =>
    have hhead : (encode cs ++ rest).head? = some '{' → cs.head? = some '{' := by
      intro hh
      cases he : encode cs with
      | nil =>
        rw [he] at hh
        exact absurd hh h
      | cons d ds =>
        rw [he] at hh
        exact head?_encode (by rw [he]; exact hh)
    rw [encode_cons hc, List.append_assoc, bodyLength_escapeAt c hhead, ih, map_add_map_add,
      List.length_append]

end EmailTemplates.Source.Literal
