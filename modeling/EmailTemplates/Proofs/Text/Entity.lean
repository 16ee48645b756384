import EmailTemplates.Markup.Basic
import EmailTemplates.Proofs.Variable.Pieces

namespace EmailTemplates

namespace Text

def Marks (mark : Char) (g : Char → List Char) : Prop :=
  ∀ c, g c = [c] ∨ ∃ tail, g c = mark :: tail

theorem Marks.append_of_flatMap {mark : Char} {g : Char → List Char} (h : Marks mark g)
    {p rest cs : List Char} (hp : mark ∉ p) (he : cs.flatMap g = p ++ rest) :
    ∃ cs', cs = p ++ cs' ∧ cs'.flatMap g = rest := by
  induction p generalizing cs with
  | nil => exact ⟨cs, rfl, he⟩
  | cons x p ih =>
    rw [List.mem_cons, not_or] at hp
    cases cs with
    | nil => simp at he
    | cons c cs =>
      rw [List.flatMap_cons] at he
      rcases h c with hc | ⟨tail, hc⟩
      · rw [hc, List.singleton_append, List.cons_append, List.cons.injEq] at he
        obtain ⟨rfl, he⟩ := he
        obtain ⟨cs', rfl, hr⟩ := ih hp.2 he
        exact ⟨cs', rfl, hr⟩
      · rw [hc, List.cons_append, List.cons_append, List.cons.injEq] at he
        exact absurd he.1 hp.1

theorem marks_escapeChar : Marks '&' escapeChar := by
  intro c
  unfold escapeChar
  split
  iterate 5 exact .inr ⟨_, rfl⟩
  exact .inl rfl

@[simp] theorem escape_nil : escape [] = [] := rfl

@[simp] theorem escape_cons (c : Char) (cs : List Char) :
    escape (c :: cs) = escapeChar c ++ escape cs :=
  List.flatMap_cons

@[simp] theorem escape_append (cs ds : List Char) : escape (cs ++ ds) = escape cs ++ escape ds :=
  List.flatMap_append

theorem toList_escaped (s : String) : (escaped s).toList = escape s.toList :=
  String.toList_ofList

theorem escapeChar_of_not_breaks {c : Char} (h : Token.breaks c = false) : escapeChar c = [c] := by
  unfold escapeChar
  split
  iterate 5
    revert h
    decide
  rfl

theorem not_mem_escapeChar {c : Char} (h : c ≠ '{') : '{' ∉ escapeChar c := by
  unfold escapeChar
  split
  iterate 5 decide
  simpa using Ne.symm h

theorem opening_not_mem_escape {cs : List Char} (h : '{' ∉ cs) : '{' ∉ escape cs := by
  intro hm
  obtain ⟨c, hc, hbrace⟩ := List.mem_flatMap.mp hm
  refine not_mem_escapeChar ?_ hbrace
  rintro rfl
  exact h hc

theorem escape_chars {name : List Char} (h : Token.isName name = true) :
    escape (Token.chars name) = Token.chars name := by
  have hone : ∀ c ∈ Token.chars name, escapeChar c = [c] := by
    intro c hc
    refine escapeChar_of_not_breaks (Bool.eq_false_iff.mpr fun hb => ?_)
    exact Token.not_mem_chars_of_breaks h hb hc
  rw [escape, List.flatMap_congr hone, List.flatMap_singleton']

theorem pieces_escape (cs : List Char) :
    Token.pieces (escape cs) = (Token.pieces cs).flatMap Markup.escapePiece := by
  induction cs using Token.text_induction with
  | nil => rw [escape_nil, Token.pieces_nil, List.flatMap_nil]
  | token name rest h ih =>
    rw [escape_append, escape_chars h, Token.pieces_chars h, Token.pieces_chars h, ih,
      List.flatMap_cons]
    rfl
  | char c cs h ih =>
    rw [escape_cons, Token.pieces_cons h, List.flatMap_cons, ← ih, Markup.escapePiece]
    by_cases hc : c = '{'
    · subst hc
      have hnone : Token.read? ('{' :: escape cs) = none := by
        cases hr : Token.read? ('{' :: escape cs) with
        | none => rfl
        | some p =>
          obtain ⟨name, r⟩ := p
          obtain ⟨hname, heq⟩ := Token.eq_of_read? hr
          have hmark : '&' ∉ Token.chars name :=
            Token.not_mem_chars_of_breaks hname (by decide)
          have hesc : escape ('{' :: cs) = Token.chars name ++ r := heq
          obtain ⟨cs', hcs, -⟩ := marks_escapeChar.append_of_flatMap hmark hesc
          rw [hcs, Token.read?_chars hname] at h
          simp at h
      exact Token.pieces_cons hnone
    · exact Token.pieces_append_of_not_mem (not_mem_escapeChar hc) _

theorem pieces_escape_of_names_eq_nil {cs : List Char} (h : Token.names cs = []) :
    Token.pieces (escape cs) = (escape cs).map .char := by
  rw [pieces_escape, Token.pieces_of_names_eq_nil h, List.flatMap_map, escape, List.map_flatMap]
  rfl

def isDelimiter (c : Char) : Bool :=
  ['<', '>', '"', '\''].contains c

theorem isDelimiter_of_mem_escapeChar {c d : Char} (h : d ∈ escapeChar c) :
    isDelimiter d = false := by
  unfold escapeChar at h
  split at h
  iterate 5
    revert d
    decide
  rename_i hlt hgt hquote hapostrophe
  cases List.mem_singleton.mp h
  simpa [isDelimiter] using ⟨hlt, hgt, hquote, hapostrophe⟩

theorem isDelimiter_of_mem_escape {cs : List Char} {c : Char} (h : c ∈ escape cs) :
    isDelimiter c = false := by
  obtain ⟨d, -, hd⟩ := List.mem_flatMap.mp h
  exact isDelimiter_of_mem_escapeChar hd

theorem not_mem_escape {c : Char} (h : isDelimiter c = true) (cs : List Char) :
    c ∉ escape cs :=
  fun hm => Bool.false_ne_true ((isDelimiter_of_mem_escape hm).symm.trans h)

theorem unescape_escapeChar (c : Char) (cs : List Char) :
    unescape (escapeChar c ++ cs) = c :: unescape cs := by
  unfold escapeChar
  split
  iterate 5 rfl
  rename_i h _ _ _ _
  exact unescape.eq_6 c cs (fun _ h' _ => h h') (fun _ h' _ => h h') (fun _ h' _ => h h')
    (fun _ h' _ => h h') (fun _ h' _ => h h')

theorem unescape_escape (cs : List Char) : unescape (escape cs) = cs := by
  induction cs with
  | nil => rfl
  | cons c cs ih => rw [escape_cons, unescape_escapeChar, ih]

theorem exists_unescape_cons (c : Char) (cs : List Char) :
    ∃ d ds, unescape (c :: cs) = d :: unescape ds ∧ ds <:+ cs ∧
      (Token.breaks d = false → d = c ∧ ds = cs) := by
  generalize hl : c :: cs = l
  fun_cases unescape l with
  | case1 ds =>
    cases hl
    exact ⟨_, ds, rfl, List.suffix_append ['a', 'm', 'p', ';'] ds, fun h => absurd h (by decide)⟩
  | case2 ds =>
    cases hl
    exact ⟨_, ds, rfl, List.suffix_append ['l', 't', ';'] ds, fun h => absurd h (by decide)⟩
  | case3 ds =>
    cases hl
    exact ⟨_, ds, rfl, List.suffix_append ['g', 't', ';'] ds, fun h => absurd h (by decide)⟩
  | case4 ds =>
    cases hl
    exact ⟨_, ds, rfl, List.suffix_append ['q', 'u', 'o', 't', ';'] ds,
      fun h => absurd h (by decide)⟩
  | case5 ds =>
    cases hl
    exact ⟨_, ds, rfl, List.suffix_append ['#', '3', '9', ';'] ds, fun h => absurd h (by decide)⟩
  | case6 d ds =>
    cases hl
    exact ⟨_, _, rfl, List.suffix_refl _, fun _ => ⟨rfl, rfl⟩⟩
  | case7 => cases hl

theorem prefix_of_unescape {w cs : List Char} (hw : ∀ c ∈ w, Token.breaks c = false)
    (h : w <+: unescape cs) : w <+: cs := by
  induction w generalizing cs with
  | nil => exact List.nil_prefix
  | cons x w ih =>
    obtain ⟨hx, hrest⟩ := List.forall_mem_cons.mp hw
    cases cs with
    | nil => exact absurd (List.prefix_nil.mp h) (List.cons_ne_nil x w)
    | cons c cs =>
      obtain ⟨d, ds, heq, -, hplain⟩ := exists_unescape_cons c cs
      rw [heq] at h
      obtain ⟨rfl, hw'⟩ := List.cons_prefix_cons.mp h
      obtain ⟨rfl, rfl⟩ := hplain hx
      exact List.cons_prefix_cons.mpr ⟨rfl, ih hrest hw'⟩

theorem infix_of_unescape {w cs : List Char} (hw : ∀ c ∈ w, Token.breaks c = false)
    (h : w <:+: unescape cs) : w <:+: cs := by
  induction hn : cs.length using Nat.strong_induction_on generalizing cs with
  | _ n ih =>
    cases cs with
    | nil => exact h
    | cons c cs =>
      obtain ⟨d, ds, heq, hds, -⟩ := exists_unescape_cons c cs
      have hlt : ds.length < n := hn ▸ Nat.lt_succ_of_le hds.length_le
      have hcs := h
      rw [heq] at hcs
      rcases List.infix_cons_iff.mp hcs with hcs | hcs
      · exact (prefix_of_unescape hw (heq ▸ hcs)).isInfix
      · exact (ih _ hlt hcs rfl).trans (hds.isInfix.trans (List.suffix_cons c cs).isInfix)

theorem names_unescape_subset (cs : List Char) : Token.names (unescape cs) ⊆ Token.names cs := by
  intro name hmem
  obtain ⟨hname, hin⟩ := Token.infix_of_mem_names hmem
  refine Token.mem_names_of_infix hname (infix_of_unescape (fun c hc => ?_) hin)
  by_contra hb
  exact Token.not_mem_chars_of_breaks hname (Bool.not_eq_false _ ▸ hb) hc

end Text

end EmailTemplates
