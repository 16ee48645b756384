import EmailTemplates.Proofs.Source.Declared

namespace EmailTemplates

namespace Source.Literal

variable {c : Char} {cs name w : List Char}

theorem prefix_of_prefix_encode (hw : ∀ c ∈ w, isSpecial c = false) (h : w <+: encode cs) :
    w <+: cs := by
  induction w generalizing cs with
  | nil => exact List.nil_prefix
  | cons x w ih =>
    obtain ⟨hx, hw⟩ := List.forall_mem_cons.mp hw
    induction cs using Token.text_induction with
    | nil =>
      rw [encode_nil] at h
      exact h
    | token name rest hname =>
      rw [encode_chars hname, interpolation_eq] at h
      cases (List.cons_prefix_cons.mp h).1
      cases hx
    | char c cs hc =>
      rw [encode_cons hc, escapeAt] at h
      split at h
      · cases (List.cons_prefix_cons.mp h).1
        cases hx
      · obtain ⟨rfl, htail⟩ := List.cons_prefix_cons.mp h
        exact List.cons_prefix_cons.mpr ⟨rfl, ih hw htail⟩

theorem read?_cons_encode (h : Token.read? (c :: cs) = none) :
    Token.read? (c :: encode cs) = none := by
  refine Option.eq_none_iff_forall_ne_some.mpr ?_
  rintro ⟨name, rest⟩ hread
  obtain ⟨hname, heq⟩ := Token.eq_of_read? hread
  obtain ⟨rfl, htail⟩ := List.cons.inj heq
  have hinner := (List.forall_mem_cons.mp (not_special_of_mem_chars hname)).2
  obtain ⟨rest', hcs⟩ := prefix_of_prefix_encode hinner ⟨rest, htail.symm⟩
  have htoken : '{' :: cs = Token.chars name ++ rest' := by rw [← hcs]; rfl
  rw [htoken, Token.read?_chars hname] at h
  cases h

theorem names_interpolation (h : Token.isName name = true) (rest : List Char) :
    Token.names (interpolation name ++ rest) = Token.names rest := by
  have hopen : Token.read? ('{' :: (dataName name ++ ['}'] ++ rest)) = none := rfl
  have hinside : '{' ∉ dataName name ++ ['}'] := by
    rw [List.mem_append, not_or]
    exact ⟨fun hmem => (dataName_no_brace h _ hmem).1 rfl, by decide⟩
  rw [interpolation_eq, List.cons_append, List.cons_append,
    Token.names_cons (Token.read?_eq_none_of_head (by decide) _), Token.names_cons hopen,
    Token.names_append_of_not_mem hinside]

theorem names_encode (cs : List Char) : Token.names (encode cs) = [] := by
  induction cs using Token.text_induction with
  | nil => rw [encode_nil, Token.names_nil]
  | token name rest hname ih => rw [encode_chars hname, names_interpolation hname, ih]
  | char c cs hc ih =>
    rw [encode_cons hc, escapeAt]
    split
    · rename_i hspecial
      have hmem : '{' ∉ ['\\', c] := by
        rcases hspecial with rfl | rfl | ⟨rfl, -⟩ <;> decide
      rw [Token.names_append_of_not_mem hmem, ih]
    · rw [List.singleton_append, Token.names_cons (read?_cons_encode hc), ih]

theorem reference_mem_pieces_encode (n : Nat) (cs name : List Char) :
    .reference name ∈ pieces ⟨n, encode cs⟩ ↔ name ∈ Token.names cs := by
  induction cs using Token.text_induction generalizing n with
  | nil => simp [pieces_nil]
  | token other rest hother ih =>
    rw [encode_chars hother, pieces_interpolation hother, Token.names_chars hother, List.mem_cons,
      List.mem_cons, ih, Piece.reference.injEq]
  | char c cs hc ih =>
    obtain ⟨m, hm⟩ := pieces_escapeAt n c (@head?_encode cs)
    rw [encode_cons hc, hm, Token.names_cons hc, List.mem_cons, ih]
    exact or_iff_right nofun

end Source.Literal

namespace Source

theorem exists_added (t : Template) : ∃ added, allDeclarations t = t.declarations ++ added ∧
    (added.map (·.name)).Sublist t.variableNames ∧ (added.map (·.name)).Nodup ∧
      ∀ n, n ∈ added.map (·.name) ↔ n ∈ t.variableNames ∧ n ∉ t.declarations.map (·.name) := by
  have hnames : ((t.variableNames.filter fun n => !t.declares n).map inferred).map (·.name) =
      t.variableNames.filter fun n => !t.declares n := map_name_inferred _
  refine ⟨(t.variableNames.filter fun n => !t.declares n).map inferred, rfl, ?_⟩
  rw [hnames]
  refine ⟨List.filter_sublist, (Variable.nodup_addNew .nil).filter _, fun n => ?_⟩
  rw [List.mem_filter, Template.declares]
  simp

theorem mem_allDeclarations {t : Template} {n : String} (h : n ∈ t.variableNames) :
    n ∈ (allDeclarations t).map (·.name) := by
  rw [allDeclarations_eq]
  exact mem_withInferred h

end Source

namespace Template

open Source
open Source.Line (written written_append)

/-- A module with this interface and this content between the backticks of its template literal,
which reads nothing that the interface does not declare. -/
structure ClosedModule (t : Template) (source : String) (members : List VariableDeclaration)
    (content : List Char) : Prop where
  text : ∃ before between, source.toList =
    before ++ (interfaceText (interfaceName t.slug) members).toList ++ between ++
      contentHead (interfaceName t.slug).toList (content ++ "`;\n\x7d\n".toList)
  ends : Literal.bodyLength (content ++ "`;\n\x7d\n".toList) = some content.length
  declared : ∀ k n, .reference n ∈ Literal.pieces ⟨k, content⟩ →
    String.ofList n ∈ members.map (·.name)
  interpolated : ∀ k, Literal.unsupported (Literal.pieces ⟨k, content⟩) = [] ∧
    ∀ n : String, .reference n.toList ∈ Literal.pieces ⟨k, content⟩ ↔
      ∃ b ∈ t.blocks, n ∈ b.fields.flatMap Field.occurrences
  members : ∃ added, members = t.declarations ++ added ∧
    (added.map (·.name)).Sublist t.variableNames ∧ (added.map (·.name)).Nodup ∧
      ∀ n, n ∈ added.map (·.name) ↔ n ∈ t.variableNames ∧ n ∉ t.declarations.map (·.name)
  tokenFree : ∀ n, Variable.isValidName n = true → ¬ Token.chars n.toList <:+: content

theorem generate_declares_what_it_reads {t : Template} {source : String}
    (h : t.generate = .ok source) : ∃ members content, t.ClosedModule source members content := by
  obtain ⟨-, ms, hms, rfl⟩ := generate_eq_ok.mp h
  obtain ⟨cs, hcs, hnames⟩ := exists_encode_contentText hms
  have hend : "`;\n\x7d\n".toList = '`' :: [';', '\n', '\x7d', '\n'] := rfl
  have hreads (k : Nat) (n : String) : .reference n.toList ∈ Literal.pieces ⟨k, Literal.encode cs⟩ ↔
      ∃ b ∈ t.blocks, n ∈ b.fields.flatMap Field.occurrences :=
    (Literal.reference_mem_pieces_encode k cs _).trans (hnames n)
  refine ⟨allDeclarations t, Literal.encode cs, ⟨written (interfaceHead t), written
    (constantBlock (subjectPairs t) ++ (headerLines t.header ++ constantBlock (footerPairs t))),
      ?_⟩, ?_, ?_, ?_, exists_added t, ?_⟩
  · rw [toList_moduleText_lines, toList_interfaceText, tailText, headLines, ← hcs, hend]
    simp only [interfaceHead, nameChars, written_append, List.append_assoc, List.cons_append]
  · rw [hend, Literal.bodyLength_encode (by simp)]
    simp [Literal.bodyLength]
  · intro k n hn
    obtain ⟨b, hb, hmem⟩ := (hreads k (.ofList n)).mp (by rwa [String.toList_ofList])
    exact mem_allDeclarations (mem_variableNames.mpr (.inr (.inl ⟨b, hb, hmem⟩)))
  · exact fun k => ⟨(Literal.pieces_encode k cs).2, hreads k⟩
  · intro n hn hin
    have hmem := Token.mem_names_of_infix hn hin
    rw [Literal.names_encode] at hmem
    cases hmem

theorem generate_declares_what_it_reads_codeWelcome :
    ∃ source members content, codeWelcome.generate = .ok source ∧
      codeWelcome.ClosedModule source members content := by
  obtain ⟨source, h⟩ := generate_codeWelcome
  obtain ⟨members, content, hclosed⟩ := generate_declares_what_it_reads h
  exact ⟨source, members, content, h, hclosed⟩

end Template

end EmailTemplates
