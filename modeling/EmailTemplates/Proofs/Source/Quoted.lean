import EmailTemplates.Proofs.Outcome
import EmailTemplates.Proofs.Text.Entity
import EmailTemplates.Proofs.Text.Slice
import EmailTemplates.Source.Declaration

namespace EmailTemplates.Source.Quoted

open EmailTemplates.Text (Slice byteLength)
open Outcome (map_add_map_add)

variable {c : Char} {cs rest : List Char}

@[simp] theorem escape_nil : escape [] = [] := rfl

@[simp] theorem escape_cons (c : Char) (cs : List Char) :
    escape (c :: cs) = escapeChar c ++ escape cs :=
  List.flatMap_cons

theorem marks_escapeChar : Text.Marks '\\' escapeChar := by
  intro c
  unfold escapeChar
  split
  iterate 4 exact .inr ⟨_, rfl⟩
  exact .inl rfl

def marked : List Char :=
  ['\\', '\'', 'n', 't']

theorem ne_newline_of_mem_marked {d : Char} (h : d ∈ marked) : d ≠ '\n' := by
  rintro rfl
  exact absurd h (by decide)

theorem escapeChar_cases (c : Char) :
    (escapeChar c = [c] ∧ c ≠ '\\' ∧ c ≠ '\'' ∧ c ≠ '\n') ∨
      ∃ d ∈ marked, escapeChar c = ['\\', d] := by
  unfold escapeChar
  split
  iterate 4 exact .inr ⟨_, by decide, rfl⟩
  rename_i h1 h2 h3 h4
  exact .inl ⟨rfl, h1, h2, h3⟩

theorem unescape_escapeChar (c : Char) (cs : List Char) :
    unescape (escapeChar c ++ cs) = c :: unescape cs := by
  unfold escapeChar
  split
  iterate 4 rfl
  rename_i h1 h2 h3 h4
  exact unescape.eq_4 c cs (fun _ h _ => h1 h) (fun _ h _ => h1 h) (fun _ _ h _ => h1 h)

theorem unescape_escape (cs : List Char) : unescape (escape cs) = cs := by
  induction cs with
  | nil => rfl
  | cons c cs ih => rw [escape_cons, unescape_escapeChar, ih]

theorem not_mem_escape (cs : List Char) : '\n' ∉ escape cs := by
  intro h
  obtain ⟨c, _, hc⟩ := List.mem_flatMap.mp h
  rcases escapeChar_cases c with ⟨he, _, _, hn⟩ | ⟨d, hd, he⟩
  · rw [he, List.mem_singleton] at hc
    exact hn hc.symm
  · rw [he] at hc
    simp only [List.mem_cons, List.not_mem_nil, or_false] at hc
    rcases hc with hc | hc
    · revert hc
      decide
    · exact ne_newline_of_mem_marked hd hc.symm

theorem bodyLength_escape (cs rest : List Char) :
    bodyLength '\'' (escape cs ++ rest) = (bodyLength '\'' rest).map (· + (escape cs).length) := by
  induction cs with
  | nil => simp
  | cons c cs ih =>
    have hlen : bodyLength '\'' (escapeChar c ++ (escape cs ++ rest)) =
        (bodyLength '\'' (escape cs ++ rest)).map (· + (escapeChar c).length) := by
      rcases escapeChar_cases c with ⟨he, hb, hq, hn⟩ | ⟨d, hd, he⟩
      · rw [he, List.singleton_append, bodyLength.eq_def]
        split
        · rename_i heq
          cases heq
        · rename_i heq
          exact absurd (List.cons.inj heq).1 hb
        · rename_i heq
          obtain ⟨rfl, rfl⟩ := List.cons.inj heq
          simp [hb, hq, hn]
      · rw [he]
        simp only [List.cons_append, List.nil_append, bodyLength, ne_newline_of_mem_marked hd,
          if_false]
        rfl
    rw [escape_cons, List.append_assoc, hlen, ih, map_add_map_add, List.length_append]

theorem read_encode (n : Nat) (cs rest : List Char) :
    read ⟨n, encode cs ++ rest⟩ = some (⟨n + 1, escape cs⟩, ⟨n + byteLength (encode cs), rest⟩) := by
  have hbody : bodyLength '\'' (escape cs ++ '\'' :: rest) = some (escape cs).length := by
    rw [bodyLength_escape]
    simp [bodyLength]
  have hchars : encode cs ++ rest = '\'' :: (escape cs ++ '\'' :: rest) := by
    simp [encode]
  have hdrop := Slice.drop_append n (encode cs) rest
  have hlen : (encode cs).length = (escape cs).length + 2 := by
    simp [encode]
  have htake : ((⟨n, encode cs ++ rest⟩ : Slice).drop 1).take (escape cs).length =
      ⟨n + 1, escape cs⟩ := by
    rw [hchars, Slice.drop_one, Slice.take_append]
    rfl
  rw [hlen] at hdrop
  rw [read]
  simp only [hchars, hbody, true_or, if_true, Option.map_some]
  rw [← hchars, htake, hdrop]

theorem objectLength_escape (depth : Nat) (cs rest : List Char) :
    HeaderObject.bodyLength (some '\'') depth (escape cs ++ rest) =
      (HeaderObject.bodyLength (some '\'') depth rest).map (· + (escape cs).length) := by
  induction cs with
  | nil => simp
  | cons c cs ih =>
    have hlen : HeaderObject.bodyLength (some '\'') depth (escapeChar c ++ (escape cs ++ rest)) =
        (HeaderObject.bodyLength (some '\'') depth (escape cs ++ rest)).map
          (· + (escapeChar c).length) := by
      rcases escapeChar_cases c with ⟨he, hb, hq, hn⟩ | ⟨d, hd, he⟩
      · rw [he, List.singleton_append, HeaderObject.bodyLength.eq_def]
        simp only [hb, hq, if_false]
        rfl
      · rw [he]
        simp [HeaderObject.bodyLength]
    rw [escape_cons, List.append_assoc, hlen, ih, map_add_map_add, List.length_append]

theorem objectLength_encode (depth : Nat) (cs rest : List Char) :
    HeaderObject.bodyLength none depth (encode cs ++ rest) =
      (HeaderObject.bodyLength none depth rest).map (· + (encode cs).length) := by
  have hchars : encode cs ++ rest = '\'' :: (escape cs ++ '\'' :: rest) := by
    simp [encode]
  have hlen : (encode cs).length = (escape cs).length + 2 := by
    simp [encode]
  have hclose : HeaderObject.bodyLength (some '\'') depth ('\'' :: rest) =
      (HeaderObject.bodyLength none depth rest).map (· + 1) := by
    rw [HeaderObject.bodyLength.eq_def]
    simp
  rw [hchars, HeaderObject.bodyLength.eq_def]
  simp only [true_or, if_true]
  rw [objectLength_escape, hclose, map_add_map_add, map_add_map_add, hlen]
  congr 2
  funext k
  omega

end EmailTemplates.Source.Quoted
