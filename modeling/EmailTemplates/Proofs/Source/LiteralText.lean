import EmailTemplates.Proofs.Source.Bytewise
import EmailTemplates.Proofs.Source.Literal
import EmailTemplates.Proofs.Text.Replaced

namespace EmailTemplates.Source.Literal

open EmailTemplates.Text (Slice replaced utf8)

variable {cs rest : List Char}

def marked (c : Char) : List Char :=
  if c = '\\' ∨ c = '`' then ['\\', c] else [c]

theorem replaced_replaced (cs : List Char) :
    replaced ['`'] ['\\', '`'] (replaced ['\\'] ['\\', '\\'] cs) = cs.flatMap marked := by
  rw [Text.replaced_singleton, Text.replaced_singleton, List.flatMap_assoc]
  refine List.flatMap_congr fun c _ => ?_
  by_cases hbackslash : c = '\\'
  · rw [hbackslash]
    rfl
  · by_cases hbacktick : c = '`'
    · rw [hbacktick]
      rfl
    · simp [marked, hbackslash, hbacktick]

theorem head?_flatMap_marked (h : (cs.flatMap marked).head? = some '{') :
    cs.head? = some '{' := by
  cases cs with
  | nil => cases h
  | cons c cs =>
    rw [List.flatMap_cons, marked] at h
    split at h
    · cases h
    · exact h

theorem escape_eq_replaced (cs : List Char) : escape cs =
    replaced ['$', '{'] ['\\', '$', '{']
      (replaced ['`'] ['\\', '`'] (replaced ['\\'] ['\\', '\\'] cs)) := by
  rw [replaced_replaced]
  induction cs with
  | nil => exact (Text.replaced_nil _ _).symm
  | cons c cs ih =>
    rw [escape_cons, escapeAt, List.flatMap_cons, marked]
    by_cases hmark : c = '\\' ∨ c = '`'
    · have hdollar : c ≠ '$' := by rcases hmark with rfl | rfl <;> decide
      rw [if_pos (hmark.elim .inl (.inr ∘ .inl)), if_pos hmark, ih]
      change _ = replaced _ _ ('\\' :: c :: cs.flatMap marked)
      rw [Text.replaced_cons_of_head (by decide), Text.replaced_cons_of_head hdollar]
      rfl
    · obtain ⟨hbackslash, hbacktick⟩ := not_or.mp hmark
      rw [if_neg hmark, List.singleton_append]
      by_cases hopen : c = '$' ∧ cs.head? = some '{'
      · obtain ⟨rfl, hhead⟩ := hopen
        obtain ⟨ds, rfl⟩ := List.head?_eq_some_iff.mp hhead
        have hbrace : ('{' :: ds).flatMap marked = '{' :: ds.flatMap marked := List.flatMap_cons
        rw [hbrace, Text.replaced_cons_of_head (by decide)] at ih
        have hfound := Text.replaced_append (List.cons_ne_nil '$' ['{']) ['\\', '$', '{']
          (ds.flatMap marked)
        rw [if_pos (.inr (.inr ⟨rfl, rfl⟩)), ih, hbrace]
        exact hfound.symm
      · have hprefix : ¬ ['$', '{'] <+: c :: cs.flatMap marked := by
          intro hp
          obtain ⟨rfl, htail⟩ := List.cons_prefix_cons.mp hp
          obtain ⟨ds, hds⟩ := htail
          exact hopen ⟨rfl, head?_flatMap_marked (by rw [← hds]; rfl)⟩
        rw [if_neg (by tauto), ih, Text.replaced_cons hprefix]
        rfl

theorem bodyLength_encode_backtick (cs rest : List Char) :
    bodyLength (encode cs ++ '`' :: rest) = some (encode cs).length := by
  have hhead : ('`' :: rest).head? ≠ some '{' := by
    rw [List.head?_cons]
    decide
  rw [bodyLength_encode hhead, bodyLength, Option.map_some, Nat.zero_add]

theorem literalEnd_encode (cs rest : List Char) :
    Bytes.literalEnd (utf8 (encode cs ++ '`' :: rest)) = some (utf8 (encode cs)).length := by
  have hagree := Bytes.agree_literalEnd (encode cs ++ '`' :: rest)
  rw [bodyLength_encode_backtick] at hagree
  rw [Text.length_utf8]
  exact hagree.unique (.before rfl)

theorem encode_read_back (cs rest : List Char) (n : Nat) :
    encode cs = interpolate (replaced ['$', '{'] ['\\', '$', '{']
        (replaced ['`'] ['\\', '`'] (replaced ['\\'] ['\\', '\\'] cs))) ∧
      bodyLength (encode cs ++ '`' :: rest) = some (encode cs).length ∧
      Bytes.literalEnd (utf8 (encode cs ++ '`' :: rest)) = some (utf8 (encode cs)).length ∧
      text (pieces ⟨n, encode cs⟩) = cs ∧ unsupported (pieces ⟨n, encode cs⟩) = [] := by
  refine ⟨?_, bodyLength_encode_backtick cs rest, literalEnd_encode cs rest, pieces_encode n cs⟩
  rw [← escape_eq_replaced]
  rfl

example : encode "$\x7b\x7ba\x7d\x7d$$\x7b\x7ba\x7d\x7d\x7b\x7b\x7ba\x7d\x7d\x7d\\".toList =
    "\\$$\x7bdata.a\x7d$\\$$\x7bdata.a\x7d\x7b$\x7bdata.a\x7d\x7d\\\\".toList := by decide +kernel

end EmailTemplates.Source.Literal
