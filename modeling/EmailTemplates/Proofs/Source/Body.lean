import EmailTemplates.Proofs.Source.Calm
import EmailTemplates.Proofs.Source.Module

namespace EmailTemplates.Source

open EmailTemplates.Text (Slice byteLength isBlank isNameChar)
open Line (written)
open Outcome (map_add_map_add)

variable {cs rest : List Char}

theorem skipParameters_eq (h : ')' ∉ cs) (n : Nat) (hr : ∀ c ∈ rest.head?, isBlank c = false) :
    ∃ m, ContentStart.skipParameters ⟨n, '(' :: (cs ++ ')' :: rest)⟩ = some ⟨m, rest⟩ := by
  have heq (s : Slice) : ContentStart.skipParameters s = (s.expect '(').bind fun s =>
      (s.splitAt? ")").bind fun x => some x.2.skipBlanks := rfl
  rw [heq, Slice.expect_cons, Option.bind_some, Slice.splitAt?_char rfl h, Option.bind_some,
    Slice.skipBlanks_self _ hr]
  exact ⟨_, rfl⟩

theorem skipWordType_string (n : Nat) (rest : List Char) :
    ∃ m, skipWordType ⟨n, ':' :: ' ' :: ("string".toList ++ ' ' :: '{' :: rest)⟩ =
      some ⟨m, '{' :: rest⟩ := by
  have hword : ∀ c ∈ ("string".toList ++ ' ' :: '{' :: rest).head?, isBlank c = false :=
    Slice.head_append (by decide) (by decide) _
  rw [skipWordType, Slice.expect_cons]
  simp only [Slice.skipBlanks_blank _ hword]
  rw [Slice.run_append _ (by decide) (by decide) (Slice.head_cons (by decide) _), Option.map_some,
    Slice.skipBlanks_blank _ (Slice.head_cons (by decide) _)]
  exact ⟨_, rfl⟩

theorem readFunction_eq {name : List Char} (h : ∀ c ∈ name, isNameChar c = true) (n : Nat)
    (rest : List Char) :
    ∃ m, ContentStart.readFunction ⟨n, functionHead name rest⟩ = some ((), ⟨m, rest⟩) := by
  have heq (s : Slice) : ContentStart.readFunction s = (s.expectText "function").bind fun s =>
      s.skipBlanks?.bind fun s => (s.expectText "renderContent").bind fun s =>
        (ContentStart.skipParameters s.skipBlanks).bind fun s => (skipWordType s).bind fun s =>
          (s.expect '{').bind fun s => (s.skipBlanks.expectText "return").bind fun s =>
            (s.skipBlanks.expect '`').bind fun s => some ((), s) := rfl
  have hcall (cs : List Char) : ∀ c ∈ ("renderContent".toList ++ cs).head?, isBlank c = false :=
    Slice.head_append (by decide) (by decide) _
  have hreturn (cs : List Char) : ∀ c ∈ ("return".toList ++ cs).head?, isBlank c = false :=
    Slice.head_append (by decide) (by decide) _
  have hclose : ')' ∉ "data: ".toList ++ name := fun hmem => by
    rcases List.mem_append.mp hmem with hmem | hmem
    · exact absurd hmem (by decide)
    · have hchar := h _ hmem
      revert hchar
      decide
  have hskip (m : Nat) (cs : List Char) : (⟨m, '\n' :: ' ' :: ' ' :: ("return".toList ++ cs)⟩ :
      Slice).skipBlanks = ⟨m + byteLength ['\n', ' ', ' '], "return".toList ++ cs⟩ :=
    @Slice.skipBlanks_append ['\n', ' ', ' '] _ m (by decide) (hreturn cs)
  unfold functionHead
  rw [heq, Slice.expectText_append, Option.bind_some, Slice.skipBlanks?_blank _ (hcall _),
    Option.bind_some, Slice.expectText_append, Option.bind_some,
    Slice.skipBlanks_self _ (Slice.head_cons (by decide) _)]
  obtain ⟨a, ha⟩ := @skipParameters_eq _ (':' :: ' ' :: ("string".toList ++ ' ' :: '{' :: '\n' ::
    ' ' :: ' ' :: ("return".toList ++ ' ' :: '`' :: rest))) hclose
    (n + byteLength "function".toList + byteLength [' '] + byteLength "renderContent".toList)
    (Slice.head_cons (by decide) _)
  obtain ⟨b, hb⟩ := skipWordType_string a ('\n' :: ' ' :: ' ' :: ("return".toList ++ ' ' :: '`' :: rest))
  rw [ha, Option.bind_some, hb, Option.bind_some, Slice.expect_cons, Option.bind_some, hskip,
    Slice.expectText_append, Option.bind_some, Slice.skipBlanks_blank _ (Slice.head_cons (by decide) _),
    Slice.expect_cons, Option.bind_some]
  exact ⟨_, rfl⟩

theorem passes_export (name rest : List Char) : Slice.Passes ContentStart.read
    ("export".toList ++ [' ']) (functionHead name rest) := by
  have hopen : ∀ words ∈ contentPhrases, ∀ v ∈ ("export".toList ++ [' ']).tails, v ≠ [] →
      opensWith words (v ++ "function renderContent".toList) = false := by
    decide +kernel
  have hpasses {read : Slice.Reader Unit} {words : List String} (hread : LedBy read words)
      (hwords : words ∈ contentPhrases) :
      Slice.Passes read ("export".toList ++ [' ']) (functionHead name rest) := by
    refine Slice.passes_of_forall fun us vs huv hne n => hread.eq_none ?_
    rw [Bool.eq_false_iff]
    intro h
    have hhead : functionHead name rest = "function renderContent".toList ++ '(' :: _ := rfl
    rw [hhead, ← List.append_assoc] at h
    have hopens := opensWith_of_append_cons (isKeyword_of_mem_phrases words (by simp [phrases, hwords]))
      (by decide) (fun hb => by cases hb) h
    rw [hopen words hwords vs ((List.mem_tails _ _).mpr ⟨us, huv.symm⟩) hne] at hopens
    cases hopens
  exact passes_orElse (hpasses ledBy_readFunction (by decide)) (hpasses ledBy_readConstant (by decide))

theorem contentBody_written {lines : List Line}
    (h : ∀ words ∈ contentPhrases, ∀ l ∈ lines, l.IsFair words) {name body : List Char}
    (hname : ∀ c ∈ name, isNameChar c = true)
    (hbody : Literal.bodyLength (body ++ '`' :: rest) = some body.length) (n : Nat) :
    ∃ m, contentBody ⟨n, written lines ++ contentHead name (body ++ '`' :: rest)⟩ =
      .ok ⟨m, body⟩ := by
  obtain ⟨m, hfunction⟩ := readFunction_eq hname
    (n + byteLength (written lines) + byteLength ("export".toList ++ [' '])) (body ++ '`' :: rest)
  have hread : ContentStart.read ⟨n + byteLength (written lines) +
      byteLength ("export".toList ++ [' ']), functionHead name (body ++ '`' :: rest)⟩ =
        some ((), ⟨m, body ++ '`' :: rest⟩) := by
    rw [ContentStart.read, hfunction]
    rfl
  have hfind := (Slice.find_append (passes_export name _) (n + byteLength (written lines))).trans
    (Slice.find_of_some hread)
  have hhead : contentHead name (body ++ '`' :: rest) =
      "export".toList ++ [' '] ++ functionHead name (body ++ '`' :: rest) := List.append_cons _ _ _
  have htake := Slice.take_append m body ('`' :: rest)
  rw [contentBody, Slice.find_append (Line.passes_contentStart h), hhead, hfind]
  simp only [hbody]
  exact ⟨m, congrArg Except.ok htake⟩

theorem scalarsFrom_nil (n : Nat) : scalarsFrom ⟨n, []⟩ = [] := by
  have hread : Scalar.read ⟨n, []⟩ = none := rfl
  rw [scalarsFrom, Slice.findAllInLines.go.eq_def, if_pos rfl, hread]

theorem scalarsFrom_contentHead {name : List Char} (hname : ∀ c ∈ name, isNameChar c = true)
    (n : Nat) (rest : List Char) :
    ∃ m, scalarsFrom ⟨n, contentHead name rest⟩ = scalarsFrom ⟨m, "  return `".toList ++ rest⟩ := by
  have hreturn : ("  return `" : String).toList = ' ' :: ' ' :: ("return".toList ++ [' ', '`']) := rfl
  have hsplit (as bs cs ds es fs : List Char) : as ++ ' ' :: (bs ++ ' ' :: (cs ++ '(' ::
      (ds ++ name ++ ')' :: ':' :: ' ' :: (es ++ ' ' :: '{' :: '\n' :: ' ' :: ' ' ::
        (fs ++ ' ' :: '`' :: rest))))) = as ++ ' ' :: (bs ++ ' ' :: (cs ++ '(' ::
          (ds ++ name ++ ')' :: ':' :: ' ' :: (es ++ [' ', '{'])))) ++
            '\n' :: (' ' :: ' ' :: (fs ++ [' ', '`']) ++ rest) := by
    simp
  have hline : contentHead name rest = _ ++ '\n' :: _ := hsplit _ _ _ _ _ _
  have hbreak : '\n' ∉ "data: ".toList ++ name := fun hmem => by
    rcases List.mem_append.mp hmem with hmem | hmem
    · exact absurd hmem (by decide)
    · have hchar := hname _ hmem
      revert hchar
      decide
  have hread : Scalar.read ⟨n, contentHead name rest⟩ = none :=
    Scalar.read_of_not_opensWith rfl n
  rw [hline] at hread ⊢
  rw [hreturn]
  refine scalarsFrom_of_none ?_ hread
  refine not_mem_append_cons (by decide) (by decide) (not_mem_append_cons (by decide) (by decide)
    (not_mem_append_cons (by decide) (by decide) (not_mem_append_cons hbreak (by decide) ?_)))
  decide

theorem scalars_written {words : List String} {lines : List Line} (h : ∀ l ∈ lines, l.IsFair words)
    {name : List Char} (hname : ∀ c ∈ name, isNameChar c = true) (hcs : Calm cs) :
    (scalars ⟨0, written lines ++ contentHead name ('\n' :: (cs ++
      '`' :: [';', '\n', '\x7d', '\n']))⟩).map Scalar.pair = lines.filterMap Line.pair? := by
  obtain ⟨a, ha⟩ := Line.scalarsFrom_written h 0
    (contentHead name ('\n' :: (cs ++ '`' :: [';', '\n', '\x7d', '\n'])))
  obtain ⟨b, hb⟩ := scalarsFrom_contentHead hname a
    ('\n' :: (cs ++ '`' :: [';', '\n', '\x7d', '\n']))
  obtain ⟨c, hc⟩ := @scalarsFrom_quiet "  return `".toList (quiet_of_free (by decide)) b
    (cs ++ '`' :: [';', '\n', '\x7d', '\n'])
  obtain ⟨d, hd⟩ := hcs.scalarsFrom c ('`' :: [';', '\n', '\x7d', '\n'])
  obtain ⟨e, he⟩ := @scalarsFrom_quiet ['`', ';'] (quiet_of_free (by decide)) d ['\x7d', '\n']
  obtain ⟨f, hf⟩ := @scalarsFrom_quiet ['\x7d'] (quiet_of_free (by decide)) e []
  have hnone := hb.trans (hc.trans (hd.trans (he.trans (hf.trans (scalarsFrom_nil f)))))
  rw [hnone, List.map_nil, List.append_nil] at ha
  exact ha

end EmailTemplates.Source
