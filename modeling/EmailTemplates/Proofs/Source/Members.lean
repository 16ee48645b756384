import EmailTemplates.Proofs.Source.Scalars
import EmailTemplates.Proofs.Source.Usable

namespace EmailTemplates.Source

open EmailTemplates.Text (Slice byteLength isBlank isNameChar isWord)

variable {cs rest : List Char}

theorem isNameChar_of_isValidName {name : String} (h : Variable.isValidName name = true) :
    ∀ c ∈ name.toList, isNameChar c = true :=
  List.all_eq_true.mp (Bool.and_eq_true_iff.mp h).2

def beginsWithDigit (name : String) : Bool :=
  name.toList.head?.any Char.isDigit

theorem not_letter_of_isDigit {c : Char} (h : c.isDigit = true) :
    (c.isAlpha || c == '_') = false := by
  simp only [Char.isDigit, Bool.and_eq_true, decide_eq_true_eq, ge_iff_le,
    UInt32.le_iff_toNat_le] at h
  simp only [Char.isAlpha, Char.isUpper, Char.isLower, Bool.or_eq_false_iff,
    Bool.and_eq_false_iff, decide_eq_false_iff_not, ge_iff_le, UInt32.le_iff_toNat_le,
    beq_eq_false_iff_ne, ne_eq]
  refine ⟨?_, ?_⟩
  · simp at h ⊢
    omega
  · rintro rfl
    revert h
    decide

theorem isIdentifier_of_isValidName {name : String} (h : Variable.isValidName name = true)
    (hd : beginsWithDigit name = false) : IsIdentifier name.toList := by
  have hne := (Bool.and_eq_true_iff.mp h).1
  refine ⟨by simpa using hne, isNameChar_of_isValidName h, fun c hc => ?_⟩
  rwa [beginsWithDigit, Option.mem_def.mp hc, Option.any_some] at hd

theorem identifier_eq_none_of_digit {name : String} (h : beginsWithDigit name = true) (n : Nat)
    (rest : List Char) : identifier ⟨n, name.toList ++ rest⟩ = none := by
  rw [beginsWithDigit] at h
  rw [identifier]
  cases hname : name.toList with
  | nil => simp [hname] at h
  | cons c cs =>
    rw [hname] at h
    have hletter := not_letter_of_isDigit h
    simp [hletter]

theorem isIndent_of_isNameChar {c : Char} (h : isNameChar c = true) : isIndent c = false := by
  rw [← Bool.not_eq_true]
  intro hindent
  simp only [isIndent, Bool.or_eq_true, beq_iff_eq] at hindent
  rcases hindent with rfl | rfl <;> revert h <;> decide

namespace Member

theorem length_skipType {s s' : Slice} (h : skipType s = some s') :
    s'.chars.length < s.chars.length := by
  unfold skipType at h
  dsimp only at h
  split at h
  · have l1 := Slice.length_dropWhile Text.isBlank s
    have l2 := Slice.length_dropWhile (fun c => c != ';' && c != ',' && c != '\n') s.skipBlanks
    rw [Option.orElse_eq_orElse, Option.orElse_eq_or, Option.or_eq_some_iff] at h
    simp only [Slice.skipBlanks] at l2 h
    rcases h with h | ⟨-, h⟩
    · have := Slice.length_expect h
      omega
    · have := Slice.length_expect h
      omega
  · cases h

theorem length_readKind {s a s' : Slice} (h : readKind s = some (a, s')) :
    s'.chars.length < s.chars.length := by
  obtain ⟨s1, h1, h⟩ := Option.bind_eq_some_iff.mp h
  have l1 := Slice.length_expectText h1
  have l2 := Slice.length_dropWhile isIndent s1
  have l3 := Slice.length_run h
  omega

def mark (s : Slice) : Bool × Slice :=
  match s.expect '?' with
  | some s => (true, s)
  | none => (false, s)

theorem read_eq (s : Slice) : read s = (identifier (s.dropWhile isIndent)).bind fun x =>
    ((mark x.2).2.skipBlanks.expect ':').bind fun s => (skipType s).bind fun s =>
      match readKind (s.dropWhile isIndent) with
      | some (kind, rest) => some (⟨x.1.toString, (mark x.2).1, some kind⟩, rest)
      | none => some (⟨x.1.toString, (mark x.2).1, none⟩, s.dropWhile isIndent) := rfl

theorem length_mark (s : Slice) : (mark s).2.chars.length ≤ s.chars.length := by
  unfold mark
  split
  · rename_i s' h
    exact (Slice.length_expect h).le
  · exact Nat.le_refl _

theorem advances_read : Slice.Advances read := by
  intro s m rest h
  rw [read_eq] at h
  obtain ⟨⟨name, s1⟩, h1, h⟩ := Option.bind_eq_some_iff.mp h
  obtain ⟨s2, h2, h⟩ := Option.bind_eq_some_iff.mp h
  obtain ⟨s3, h3, h⟩ := Option.bind_eq_some_iff.mp h
  have l0 := Slice.length_dropWhile isIndent s
  have l1 := length_identifier h1
  have lm := length_mark s1
  have d2 := Slice.length_dropWhile Text.isBlank (mark s1).2
  have l2 := Slice.length_expect h2
  have l3 := length_skipType h3
  have d3 := Slice.length_dropWhile isIndent s3
  simp only [Slice.skipBlanks] at l2
  dsimp only at h
  split at h
  · rename_i kind rest' hk
    have lk := length_readKind hk
    cases h
    omega
  · cases h
    omega

theorem exists_mark (optional : Bool) (n : Nat) (cs : List Char) :
    ∃ m, mark ⟨n, (if optional then ['?'] else []) ++ ':' :: cs⟩ = (optional, ⟨m, ':' :: cs⟩) := by
  cases optional with
  | true =>
    have h := Slice.expect_cons n '?' (':' :: cs)
    exact ⟨_, by rw [mark]; simp only [if_true, List.singleton_append, h]; rfl⟩
  | false =>
    have h : (⟨n, ':' :: cs⟩ : Slice).expect '?' = none := Slice.expect_of_ne (by decide)
    exact ⟨n, by rw [mark]; simp [h]⟩

theorem skipType_string (n : Nat) (cs : List Char) :
    ∃ m, skipType ⟨n, ' ' :: ("string".toList ++ ';' :: cs)⟩ = some ⟨m, cs⟩ := by
  have hblank : ∀ c ∈ ("string".toList ++ ';' :: cs).head?, isBlank c = false :=
    Slice.head_append (by decide) (by decide) _
  have hchars : ∀ c ∈ "string".toList, (c != ';' && c != ',' && c != '\n') = true := by decide
  have hend : ∀ c ∈ (';' :: cs).head?, (c != ';' && c != ',' && c != '\n') = false := by simp
  have htake := Slice.sliceTakeWhile_append (n + byteLength [' ']) hchars hend
  have hdrop := Slice.sliceDropWhile_append (n + byteLength [' ']) hchars hend
  have hne : ("string".toList != []) = true := by decide
  unfold skipType
  simp only [Slice.skipBlanks_blank n hblank, htake, hdrop, hne, Bool.true_or, if_true,
    Slice.expect_cons]
  exact ⟨_, rfl⟩

theorem readKind_kind (kind : VariableKind) (n : Nat) (rest : List Char) :
    ∃ k m, readKind ⟨n, "//".toList ++ ' ' :: (kind.id.toList ++ '\n' :: rest)⟩ =
      some (⟨k, kind.id.toList⟩, ⟨m, '\n' :: rest⟩) := by
  have hne : kind.id.toList ≠ [] := by cases kind <;> decide
  have hchars : ∀ c ∈ kind.id.toList, (isWord c || c == '-') = true := by cases kind <;> decide
  have hindent : ∀ c ∈ kind.id.toList, isIndent c = false := by cases kind <;> decide
  have hend : ∀ c ∈ ('\n' :: rest).head?, (isWord c || c == '-') = false :=
    Slice.head_cons (by decide) rest
  have hdrop (m : Nat) : (⟨m, ' ' :: (kind.id.toList ++ '\n' :: rest)⟩ : Slice).dropWhile isIndent =
      ⟨m + byteLength [' '], kind.id.toList ++ '\n' :: rest⟩ :=
    @Slice.sliceDropWhile_append [' '] _ isIndent m (by decide) (Slice.head_append hne hindent _)
  rw [readKind, Slice.expectText_append, Option.bind_eq_bind, Option.bind_some, hdrop,
    Slice.run_append _ hne hchars hend]
  exact ⟨_, _, rfl⟩

def chars (v : VariableDeclaration) : List Char :=
  ' ' :: ' ' :: (v.name.toList ++ ((if v.optional then ['?'] else []) ++ ':' :: ' ' ::
    ("string".toList ++ ';' :: ' ' :: ("//".toList ++ ' ' :: v.kind.id.toList))))

theorem read_chars {v : VariableDeclaration} (h : IsIdentifier v.name.toList) (n : Nat)
    (rest : List Char) : ∃ k m, read ⟨n, chars v ++ '\n' :: rest⟩ =
      some (⟨v.name, v.optional, some ⟨k, v.kind.id.toList⟩⟩, ⟨m, '\n' :: rest⟩) := by
  have hsplit (name marked word sign kind : List Char) :
      ' ' :: ' ' :: (name ++ (marked ++ ':' :: ' ' :: (word ++ ';' :: ' ' :: (sign ++ ' ' :: kind)))) ++
        '\n' :: rest = [' ', ' '] ++ (name ++ (marked ++ ':' :: ' ' :: (word ++ ';' :: ' ' ::
          (sign ++ ' ' :: (kind ++ '\n' :: rest))))) := by
    simp
  have hchars : chars v ++ '\n' :: rest = _ := hsplit _ _ _ _ _
  have hname : ∀ c ∈ v.name.toList, isIndent c = false := fun c hc =>
    isIndent_of_isNameChar (h.chars c hc)
  have hend (cs : List Char) :
      ∀ c ∈ ((if v.optional then ['?'] else []) ++ ':' :: cs).head?, isWord c = false := by
    cases v.optional <;> simp <;> decide
  have hindent (m : Nat) (cs : List Char) : (⟨m, [' ', ' '] ++ (v.name.toList ++ cs)⟩ : Slice).dropWhile
      isIndent = ⟨m + byteLength [' ', ' '], v.name.toList ++ cs⟩ :=
    Slice.sliceDropWhile_append m (by decide) (Slice.head_append h.ne_nil hname _)
  have hslash (cs : List Char) : ∀ c ∈ ("//".toList ++ cs).head?, isIndent c = false :=
    Slice.head_append (by decide) (by decide) _
  have hsign (m : Nat) (cs : List Char) : (⟨m, ' ' :: ("//".toList ++ cs)⟩ : Slice).dropWhile
      isIndent = ⟨m + byteLength [' '], "//".toList ++ cs⟩ :=
    @Slice.sliceDropWhile_append [' '] _ isIndent m (by decide) (hslash cs)
  rw [hchars, read_eq, hindent, identifier_append h _ (hend _), Option.bind_some]
  obtain ⟨a, ha⟩ := exists_mark v.optional
    (n + byteLength [' ', ' '] + byteLength v.name.toList)
    (' ' :: ("string".toList ++ ';' :: ' ' :: ("//".toList ++ ' ' :: (v.kind.id.toList ++ '\n' :: rest))))
  obtain ⟨b, hb⟩ := skipType_string (a + ':'.utf8Size)
    (' ' :: ("//".toList ++ ' ' :: (v.kind.id.toList ++ '\n' :: rest)))
  obtain ⟨k, m, hk⟩ := readKind_kind v.kind (b + byteLength [' ']) rest
  rw [ha, Slice.skipBlanks_self _ (Slice.head_cons (by decide) _), Slice.expect_cons,
    Option.bind_some, hb, Option.bind_some, hsign, hk]
  simp only [Slice.toString, String.ofList_toList]
  exact ⟨_, _, rfl⟩

def isMemberChar (c : Char) : Bool :=
  isNameChar c || [' ', '?', ':', ';', '/', '-'].contains c

theorem isMemberChar_chars {v : VariableDeclaration}
    (h : ∀ c ∈ v.name.toList, isNameChar c = true) : ∀ c ∈ chars v, isMemberChar c = true := by
  have hname : ∀ c ∈ v.name.toList, isMemberChar c = true := fun c hc => by
    simp [isMemberChar, h c hc]
  have hmark : ∀ c ∈ if v.optional then ['?'] else [], isMemberChar c = true := by
    cases v.optional <;> decide
  have hkind : ∀ c ∈ v.kind.id.toList, isMemberChar c = true := by cases v.kind <;> decide
  simp only [chars, List.forall_mem_cons, List.forall_mem_append]
  exact ⟨by decide, by decide, hname, hmark, by decide, by decide, by decide, by decide, by decide,
    by decide, by decide, hkind⟩

theorem findAll_unread {v : VariableDeclaration} (h : Variable.isValidName v.name = true)
    (hd : beginsWithDigit v.name = true) (n : Nat) (rest : List Char) :
    ∃ m, Slice.findAllInLines.go read true ⟨n, chars v ++ '\n' :: rest⟩ =
      Slice.findAllInLines.go read true ⟨m, rest⟩ := by
  have hne := (Bool.and_eq_true_iff.mp h).1
  have hname := isNameChar_of_isValidName h
  have hindent (cs : List Char) : (⟨n, ' ' :: ' ' :: (v.name.toList ++ cs)⟩ : Slice).dropWhile
      isIndent = ⟨n + byteLength [' ', ' '], v.name.toList ++ cs⟩ :=
    @Slice.sliceDropWhile_append [' ', ' '] _ isIndent n (by decide)
      (Slice.head_append (by simpa using hne) (fun c hc => isIndent_of_isNameChar (hname c hc)) _)
  have hread : read ⟨n, chars v ++ '\n' :: rest⟩ = none := by
    rw [chars, List.cons_append, List.cons_append, List.append_assoc, read_eq, hindent,
      identifier_eq_none_of_digit hd, Option.bind_none]
  have hbreak : '\n' ∉ chars v := fun hmem => by
    have hchar := isMemberChar_chars hname _ hmem
    revert hchar
    decide
  obtain ⟨tail, htail⟩ : ∃ tail, chars v = ' ' :: tail := ⟨_, rfl⟩
  rw [htail, List.cons_append] at hread ⊢
  rw [htail] at hbreak
  rw [Slice.findAllInLines_of_none fun _ => hread]
  exact ⟨_, Slice.findAllInLines_line (fun hmem => hbreak (List.mem_cons_of_mem _ hmem)) _⟩

theorem findAll_chars {vs : List VariableDeclaration}
    (h : ∀ v ∈ vs, Variable.isValidName v.name = true) (n : Nat) :
    (Slice.findAllInLines.go read true ⟨n, vs.flatMap fun v => chars v ++ ['\n']⟩).map declaration =
      (vs.filter fun v => !beginsWithDigit v.name).map fun v => (v, []) := by
  induction vs generalizing n with
  | nil =>
    have hread : read ⟨n, []⟩ = none := rfl
    rw [List.flatMap_nil, Slice.findAllInLines.go.eq_def, if_pos rfl, hread]
    rfl
  | cons v vs ih =>
    obtain ⟨hv, hvs⟩ := List.forall_mem_cons.mp h
    have hcons : (v :: vs).flatMap (fun v => chars v ++ ['\n']) =
        chars v ++ '\n' :: vs.flatMap fun v => chars v ++ ['\n'] := by
      simp
    rw [hcons]
    by_cases hd : beginsWithDigit v.name = true
    · obtain ⟨m, hm⟩ := findAll_unread hv hd n (vs.flatMap fun v => chars v ++ ['\n'])
      rw [hm, ih hvs, List.filter_cons_of_neg (by simpa using hd)]
    · have hv' := isIdentifier_of_isValidName hv (Bool.not_eq_true _ ▸ hd)
      obtain ⟨k, m, hk⟩ := read_chars hv' n (vs.flatMap fun v => chars v ++ ['\n'])
      have hdeclaration : declaration ⟨v.name, v.optional, some ⟨k, v.kind.id.toList⟩⟩ = (v, []) := by
        simp [declaration, Slice.toString, VariableKind.ofId?_id]
      have hline := @Slice.findAllInLines_line Member read [] (vs.flatMap fun v => chars v ++ ['\n'])
        (by simp) m
      rw [List.nil_append] at hline
      rw [Slice.findAllInLines_of_some advances_read hk, hline, List.map_cons, hdeclaration, ih hvs,
        List.filter_cons_of_pos (by simpa using hd), List.map_cons]

end Member

def interfaceBody (vs : List VariableDeclaration) : List Char :=
  if vs.isEmpty then [] else '\n' :: vs.flatMap fun v => Member.chars v ++ ['\n']

theorem isMemberChar_interfaceBody {vs : List VariableDeclaration}
    (h : ∀ v ∈ vs, ∀ c ∈ v.name.toList, isNameChar c = true) :
    ∀ c ∈ interfaceBody vs, Member.isMemberChar c = true ∨ c = '\n' := by
  intro c hc
  unfold interfaceBody at hc
  split at hc
  · cases hc
  · rcases List.mem_cons.mp hc with rfl | hc
    · exact .inr rfl
    · obtain ⟨v, hv, hc⟩ := List.mem_flatMap.mp hc
      rcases List.mem_append.mp hc with hc | hc
      · exact .inl (Member.isMemberChar_chars (h v hv) c hc)
      · exact .inr (List.mem_singleton.mp hc)

theorem not_mem_interfaceBody {vs : List VariableDeclaration}
    (h : ∀ v ∈ vs, ∀ c ∈ v.name.toList, isNameChar c = true) : '\x7d' ∉ interfaceBody vs :=
  fun hmem => (isMemberChar_interfaceBody h _ hmem).elim (by decide) (by decide)

theorem findAll_interfaceBody {vs : List VariableDeclaration}
    (h : ∀ v ∈ vs, Variable.isValidName v.name = true) (n : Nat) :
    ((⟨n, interfaceBody vs⟩ : Slice).findAllInLines Member.read).map declaration =
      (vs.filter fun v => !beginsWithDigit v.name).map fun v => (v, []) := by
  unfold interfaceBody
  split
  · rename_i hnil
    rw [List.isEmpty_iff.mp hnil]
    exact @Member.findAll_chars [] (by simp) n
  · have hread : Member.read ⟨n, '\n' :: vs.flatMap fun v => Member.chars v ++ ['\n']⟩ = none := rfl
    rw [Slice.findAllInLines, Slice.findAllInLines_of_none fun _ => hread]
    exact Member.findAll_chars h _

theorem distinctMembers_of_nodup {ms : List Member} (h : (ms.map (·.name)).Nodup) :
    distinctMembers ms = ms := by
  suffices hgo : ∀ seen : List Member, ((seen ++ ms).map (·.name)).Nodup →
      ms.foldl (fun seen m => if seen.any (·.name == m.name) then seen else seen ++ [m]) seen =
        seen ++ ms from hgo [] h
  clear h
  induction ms with
  | nil => simp
  | cons m ms ih =>
    intro seen h
    have hnew : seen.any (·.name == m.name) = false := by
      rw [List.any_eq_false]
      intro x hx hname
      rw [List.map_append, List.nodup_append] at h
      exact h.2.2 x.name (List.mem_map_of_mem hx) m.name (by simp) (beq_iff_eq.mp hname)
    rw [List.foldl_cons, if_neg (by simp [hnew]), ih _ (by simpa using h)]
    simp

theorem readInterface_eq {name inner : List Char} (hne : name ≠ [])
    (hname : ∀ c ∈ name, isNameChar c = true) (hinner : '\x7d' ∉ inner) (n : Nat) :
    ∃ k m, readInterface ⟨n, "export".toList ++ ' ' :: ("interface".toList ++ ' ' ::
      (name ++ ' ' :: '{' :: (inner ++ '\x7d' :: rest)))⟩ = some (⟨k, inner⟩, ⟨m, rest⟩) := by
  have heq (s : Slice) : readInterface s = (s.expectText "export").bind fun s =>
      s.skipBlanks?.bind fun s => (s.expectText "interface").bind fun s => s.skipBlanks?.bind fun s =>
        (s.run isWord).bind fun x => (x.2.skipBlanks.expect '{').bind fun s =>
          s.splitAt? "\x7d" := rfl
  have hword (cs : List Char) : ∀ c ∈ ("interface".toList ++ cs).head?, isBlank c = false :=
    Slice.head_append (by decide) (by decide) _
  have hblank (cs : List Char) : ∀ c ∈ (name ++ cs).head?, isBlank c = false :=
    Slice.head_append hne (fun c hc => Text.isBlank_of_isNameChar (hname c hc)) _
  rw [heq, Slice.expectText_append, Option.bind_some, Slice.skipBlanks?_blank _ (hword _),
    Option.bind_some, Slice.expectText_append, Option.bind_some, Slice.skipBlanks?_blank _ (hblank _),
    Option.bind_some, Slice.run_append _ hne (fun c hc => isWord_of_isNameChar (hname c hc))
      (Slice.head_cons (by decide) _), Option.bind_some,
    Slice.skipBlanks_blank _ (Slice.head_cons (by decide) _), Slice.expect_cons, Option.bind_some]
  exact ⟨_, _, Slice.splitAt?_char rfl hinner _⟩

def interfaceLines (name : List Char) (vs : List VariableDeclaration) : List Line :=
  if vs.isEmpty then [.interface name ['\x7d']]
  else .interface name [] :: (vs.map fun v => .loose (Member.chars v)) ++ [.loose ['\x7d']]

theorem written_interfaceLines (name : List Char) (vs : List VariableDeclaration)
    (rest : List Char) : Line.written (interfaceLines name vs) ++ rest =
      "export".toList ++ ' ' :: ("interface".toList ++ ' ' ::
        (name ++ ' ' :: '{' :: (interfaceBody vs ++ '\x7d' :: '\n' :: rest))) := by
  have hmembers : Line.written (vs.map fun v => .loose (Member.chars v)) =
      vs.flatMap fun v => Member.chars v ++ ['\n'] := List.flatMap_map _ _ _
  have hend : Line.written [.loose ['\x7d']] = ['\x7d', '\n'] := rfl
  unfold interfaceLines interfaceBody
  split
  · rw [Line.written_cons, Line.interface_append]
    rfl
  · rw [List.cons_append, Line.written_cons, Line.interface_append, Line.written_append, hmembers,
      hend]
    simp only [List.append_assoc, List.cons_append, List.nil_append]

theorem interfaceMembers?_written {pre : List Line}
    (hpre : ∀ l ∈ pre, l.IsFair ["export", "interface"]) {name : List Char} (hne : name ≠ [])
    (hname : ∀ c ∈ name, isNameChar c = true) {vs : List VariableDeclaration}
    (hvs : ∀ v ∈ vs, ∀ c ∈ v.name.toList, isNameChar c = true) (n : Nat) (rest : List Char) :
    ∃ k, interfaceMembers? ⟨n, Line.written pre ++ (Line.written (interfaceLines name vs) ++ rest)⟩ =
      some ((⟨k, interfaceBody vs⟩ : Slice).findAllInLines Member.read) := by
  obtain ⟨k, m, hread⟩ := @readInterface_eq ('\n' :: rest) _ _ hne hname
    (not_mem_interfaceBody hvs) (n + byteLength (Line.written pre))
  rw [← written_interfaceLines] at hread
  have hfind := (Slice.find_append (Line.passes_written ledBy_readInterface (by decide) hpre) n).trans
    (Slice.find_of_some hread)
  refine ⟨k, ?_⟩
  rw [interfaceMembers?, hfind]
  rfl

theorem interface_written {pre : List Line}
    (hpre : ∀ l ∈ pre, l.IsFair ["export", "interface"]) {name : List Char} (hne : name ≠ [])
    (hname : ∀ c ∈ name, isNameChar c = true) {vs : List VariableDeclaration}
    (hvs : ∀ v ∈ vs, Variable.isValidName v.name = true) (hnodup : (vs.map (·.name)).Nodup)
    (n : Nat) (rest : List Char) :
    interface ⟨n, Line.written pre ++ (Line.written (interfaceLines name vs) ++ rest)⟩ =
      (some (vs.filter fun v => !beginsWithDigit v.name), []) := by
  obtain ⟨k, hmembers⟩ := interfaceMembers?_written hpre hne hname
    (fun v hv => isNameChar_of_isValidName (hvs v hv)) n rest
  have hbody := findAll_interfaceBody hvs k
  have hnames : ((⟨k, interfaceBody vs⟩ : Slice).findAllInLines Member.read).map (·.name) =
      (vs.filter fun v => !beginsWithDigit v.name).map (·.name) := by
    have hmap := congrArg (List.map fun d => d.1.name) hbody
    simpa [Function.comp_def, name_declaration] using hmap
  have hdistinct : ((vs.filter fun v => !beginsWithDigit v.name).map (·.name)).Nodup :=
    hnodup.sublist (List.filter_sublist.map _)
  rw [interface, hmembers]
  simp only [distinctMembers_of_nodup (hnames ▸ hdistinct), hbody]
  simp [Function.comp_def]

end EmailTemplates.Source
