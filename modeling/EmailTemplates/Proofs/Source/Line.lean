import EmailTemplates.Proofs.Source.Phrase
import EmailTemplates.Proofs.Source.Quiet

namespace EmailTemplates.Source

open EmailTemplates.Text (isBlank)

variable {words : List String} {cs ds : List Char} {c : Char}

def constantNames : List String :=
  ["slug", "name", "description", "context", "colorScheme", "subject", "preheader", "footer",
   "footerNote"]

inductive Line where
  | loose (cs : List Char)
  | constant (name value : String)
  | interface (name body : List Char)
  | header

namespace Line

def chars : Line → List Char
  | loose cs => cs
  | constant name value => "export".toList ++ ' ' :: ("const".toList ++ ' ' :: (name.toList ++
      ' ' :: '=' :: ' ' :: (Quoted.encode value.toList ++ [';'])))
  | interface name body =>
    "export".toList ++ ' ' :: ("interface".toList ++ ' ' :: (name ++ ' ' :: '{' :: body))
  | header =>
    "export".toList ++ ' ' :: ("const".toList ++ ' ' :: ("header".toList ++ [' ', '=', ' ', '{']))

@[simp] theorem chars_loose (cs : List Char) : (loose cs).chars = cs := rfl

def IsFair (words : List String) : Line → Prop
  | loose cs => '\n' ∉ cs ∧ opensWith ["export", "const"] (cs.dropWhile isIndent) = false ∧
      Closed ("export" :: "const" :: words) cs ∧ Absent words cs
  | constant name value => name ∈ constantNames ∧ Absent words value.toList
  | interface name body => words ≠ ["export", "interface"] ∧
      (∀ c ∈ name, Text.isNameChar c = true) ∧ (body = [] ∨ body = ['\x7d'])
  | header => words ≠ ["export", "const", "header"]

def written (lines : List Line) : List Char :=
  lines.flatMap fun l => l.chars ++ ['\n']

theorem written_cons (l : Line) (lines : List Line) (rest : List Char) :
    written (l :: lines) ++ rest = l.chars ++ '\n' :: (written lines ++ rest) := by
  simp [written]

theorem written_append (ls ms : List Line) : written (ls ++ ms) = written ls ++ written ms :=
  List.flatMap_append

end Line

theorem not_mem_append_cons {c d : Char} {ds : List Char} (hcs : c ∉ cs) (hd : c ≠ d)
    (hds : c ∉ ds) : c ∉ cs ++ d :: ds := by
  simp [hcs, hd, hds]

theorem not_mem_encode (value : List Char) : '\n' ∉ Quoted.encode value := by
  simp [Quoted.encode, Quoted.not_mem_escape]

theorem Absent.around (hw : ∀ w ∈ words, IsKeyword w.toList) (hc : c.isAlpha = false)
    (hb : isBlank c = false) (hcs : Absent words cs) (hds : Absent words ds) :
    Absent words (cs ++ c :: ds) :=
  hcs.append_cons hw hc (fun h => by rw [hb] at h; cases h) hds

theorem absent_encode (hw : ∀ w ∈ words, IsKeyword w.toList) {value : List Char}
    (hv : Absent words value) (hc : c.isAlpha = false) :
    Absent words (Quoted.encode value ++ [c]) := by
  have hchars : Quoted.encode value ++ [c] = '\'' :: (Quoted.escape value ++ '\'' :: [c]) := by
    simp [Quoted.encode]
  have hnil : Absent words [] := hv.suffix List.nil_suffix
  rw [hchars]
  exact .cons hw (by decide) (.around hw (by decide) (by decide) (hv.escape hw) (hnil.cons hw hc))

namespace Line

variable (hwords : words ∈ phrases)
include hwords

theorem absent_constant {name value : String} (hname : name ∈ constantNames)
    (hv : Absent words value.toList) : Absent words (constant name value).chars := by
  have hw := isKeyword_of_mem_phrases words hwords
  have hopen : ∀ words ∈ phrases, ∀ name ∈ constantNames,
      Absent words ("export".toList ++ ' ' :: ("const".toList ++ ' ' :: (name.toList ++ [' ']))) := by
    decide +kernel
  have hsplit (as bs cs ds : List Char) : as ++ ' ' :: (bs ++ ' ' :: (cs ++ ' ' :: '=' :: ds)) =
      as ++ ' ' :: (bs ++ ' ' :: (cs ++ [' '])) ++ '=' :: ds := by
    simp
  have hchars : (constant name value).chars = _ ++ '=' :: _ := hsplit _ _ _ _
  rw [hchars]
  exact .around hw (by decide) (by decide) (hopen words hwords name hname)
    (.cons hw (by decide) (absent_encode hw hv (by decide)))

theorem absent_interface {name body : List Char} (hne : words ≠ ["export", "interface"])
    (hname : ∀ c ∈ name, isBlank c = false) (hbody : body = [] ∨ body = ['\x7d']) :
    Absent words (interface name body).chars := by
  have hw := isKeyword_of_mem_phrases words hwords
  have hopen : ∀ words ∈ phrases, words ≠ ["export", "interface"] →
      Absent words ("export".toList ++ ' ' :: "interface".toList) := by
    decide +kernel
  have hword : ∀ words ∈ phrases, words ≠ ["export", "interface"] → ∀ w ∈ words,
      ¬ w.toList <:+ "export".toList ++ ' ' :: "interface".toList := by
    decide +kernel
  have hclosed : Closed words ("export".toList ++ ' ' :: "interface".toList) :=
    ⟨by decide, hword words hwords hne⟩
  have hend : Absent words body := by
    have hall : ∀ words ∈ phrases, Absent words [] ∧ Absent words ['\x7d'] := by decide
    rcases hbody with rfl | rfl
    · exact (hall words hwords).1
    · exact (hall words hwords).2
  have hsplit (as bs : List Char) : as ++ ' ' :: (bs ++ ' ' :: (name ++ ' ' :: '{' :: body)) =
      as ++ ' ' :: bs ++ ' ' :: (name ++ [' '] ++ '{' :: body) := by
    simp
  have hchars : (interface name body).chars = _ ++ ' ' :: _ := hsplit _ _
  rw [hchars]
  refine .append_cons hw (by decide) (fun _ => hclosed) (hopen words hwords hne) ?_
  exact .around hw (by decide) (by decide)
    (absent_word_append hw (several_of_mem_phrases words hwords) hname (by decide)) hend

theorem absent_header (hne : words ≠ ["export", "const", "header"]) : Absent words header.chars := by
  have hall : ∀ words ∈ phrases, words ≠ ["export", "const", "header"] →
      Absent words header.chars := by
    decide +kernel
  exact hall words hwords hne

theorem IsFair.absent {l : Line} (h : l.IsFair words) : Absent words l.chars := by
  cases l with
  | loose cs => exact h.2.2.2
  | constant name value => exact absent_constant hwords h.1 h.2
  | interface name body =>
    exact absent_interface hwords h.1 (fun c hc => Text.isBlank_of_isNameChar (h.2.1 c hc)) h.2.2
  | header => exact absent_header hwords h

theorem IsFair.closed {l : Line} (h : l.IsFair words) : Closed words l.chars := by
  have hw := isKeyword_of_mem_phrases words hwords
  have hend {cs ds : List Char} {c : Char} (heq : cs = ds ++ [c]) (hc : c.isAlpha = false)
      (hb : isBlank c = false) : Closed words cs := heq ▸ closed_append_singleton hw hc hb
  cases l with
  | loose cs => exact h.2.2.1.mono fun w hmem => by simp [hmem]
  | constant name value =>
    have hsplit (as bs cs ds : List Char) : as ++ ' ' :: (bs ++ ' ' :: (cs ++ ' ' :: '=' :: ' ' ::
        (ds ++ [';']))) = as ++ ' ' :: (bs ++ ' ' :: (cs ++ ' ' :: '=' :: ' ' :: ds)) ++ [';'] := by
      simp
    exact hend (hsplit _ _ _ _) (by decide) (by decide)
  | interface name body =>
    have hsplit (as bs cs ds : List Char) : as ++ ' ' :: (bs ++ ' ' :: (cs ++ ' ' :: '{' :: ds)) =
        as ++ ' ' :: (bs ++ ' ' :: (cs ++ [' '])) ++ '{' :: ds := by
      simp
    have hchars : (interface name body).chars = _ ++ '{' :: body := hsplit _ _ _ _
    rcases h.2.2 with rfl | rfl
    · exact hend hchars (by decide) (by decide)
    · exact hend (hchars.trans (List.append_cons _ _ _)) (by decide) (by decide)
  | header =>
    have hsplit (as bs cs : List Char) : as ++ ' ' :: (bs ++ ' ' :: (cs ++ [' ', '=', ' ', '{'])) =
        as ++ ' ' :: (bs ++ ' ' :: (cs ++ [' ', '=', ' '])) ++ ['{'] := by
      simp
    exact hend (hsplit _ _ _) (by decide) (by decide)

end Line

end EmailTemplates.Source
