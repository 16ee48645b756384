import EmailTemplates.Proofs.Source.Bytewise
import EmailTemplates.Proofs.Source.Quoted

namespace EmailTemplates.Source

open EmailTemplates.Text (Slice byteLength utf8)

namespace Quoted

variable {quote c : Char} {n : Nat} {cs body rest : List Char}

inductive Body (quote : Char) : List Char → Prop
  | nil : Body quote []
  | plain {c : Char} {cs : List Char} : c ≠ quote → c ≠ '\\' → c ≠ '\n' →
      Body quote cs → Body quote (c :: cs)
  | pair {c : Char} {cs : List Char} : c ≠ '\n' → Body quote cs → Body quote ('\\' :: c :: cs)

def Begins (cs body rest : List Char) : Prop :=
  ∃ quote ∈ ['\'', '"'], cs = quote :: (body ++ quote :: rest) ∧ Body quote body

theorem bodyLength_cons (hc : c ≠ '\\') (hquote : c ≠ quote) (hline : c ≠ '\n')
    (cs : List Char) : bodyLength quote (c :: cs) = (bodyLength quote cs).map (· + 1) := by
  rw [bodyLength.eq_def]
  split
  · rename_i heq
    cases heq
  · rename_i heq
    exact absurd (List.cons.inj heq).1 hc
  · rename_i heq
    obtain ⟨rfl, rfl⟩ := List.cons.inj heq
    rw [if_neg hquote, if_neg (not_or.mpr ⟨hline, hc⟩)]

theorem bodyLength_quote (hquote : quote ≠ '\\') (cs : List Char) :
    bodyLength quote (quote :: cs) = some 0 := by
  rw [bodyLength.eq_def]
  split
  · rename_i heq
    cases heq
  · rename_i heq
    exact absurd (List.cons.inj heq).1 hquote
  · rename_i heq
    obtain ⟨rfl, rfl⟩ := List.cons.inj heq
    rw [if_pos rfl]

theorem Body.bodyLength_append (h : Body quote body) (hquote : quote ≠ '\\') (rest : List Char) :
    bodyLength quote (body ++ quote :: rest) = some body.length := by
  induction h with
  | nil => exact bodyLength_quote hquote rest
  | plain hne hc hline _ ih =>
    rw [List.cons_append, bodyLength_cons hc hne hline, ih]
    rfl
  | pair hline _ ih =>
    rw [List.cons_append, List.cons_append, bodyLength, if_neg hline, ih]
    rfl

theorem exists_body (h : bodyLength quote cs = some n) :
    ∃ body rest, cs = body ++ quote :: rest ∧ body.length = n ∧ Body quote body := by
  fun_induction bodyLength quote cs generalizing n with
  | case1 => cases h
  | case2 => cases h
  | case3 c cs hline ih =>
    obtain ⟨k, hk, rfl⟩ := Option.map_eq_some_iff.mp h
    obtain ⟨body, rest, rfl, rfl, hbody⟩ := ih hk
    exact ⟨'\\' :: c :: body, rest, rfl, rfl, .pair hline hbody⟩
  | case4 cs =>
    cases h
    exact ⟨[], cs, rfl, rfl, .nil⟩
  | case5 => cases h
  | case6 c cs _ hquote hnot ih =>
    obtain ⟨k, hk, rfl⟩ := Option.map_eq_some_iff.mp h
    obtain ⟨body, rest, rfl, rfl, hbody⟩ := ih hk
    obtain ⟨hline, hc⟩ := not_or.mp hnot
    exact ⟨c :: body, rest, rfl, rfl, .plain hquote hc hline hbody⟩

theorem read_of_begins {s : Slice} (h : Begins s.chars body rest) :
    ∃ raw tail, read s = some (raw, tail) ∧ raw.chars = body ∧ tail.chars = rest := by
  have hbackslash : ∀ quote ∈ ['\'', '"'], quote ≠ '\\' := by decide
  obtain ⟨quote, hquote, hs, hbody⟩ := h
  have hlength := hbody.bodyLength_append (hbackslash quote hquote) rest
  have hquotes : quote = '\'' ∨ quote = '"' := by simpa using hquote
  refine ⟨(s.drop 1).take body.length, s.drop (body.length + 2), ?_, ?_, ?_⟩
  · unfold read
    simp only [hs, hquotes, if_true, hlength, Option.map_some]
  · rw [Slice.chars_take, Slice.chars_drop, hs, List.drop_succ_cons, List.drop_zero,
      List.take_left]
  · rw [Slice.chars_drop, hs, List.drop_succ_cons, List.drop_append, Nat.add_sub_cancel_left,
      List.drop_of_length_le (Nat.le_succ _)]
    rfl

theorem exists_begins_of_read {s raw tail : Slice} (h : read s = some (raw, tail)) :
    ∃ body rest, Begins s.chars body rest := by
  unfold read at h
  split at h
  · cases h
  · rename_i quote cs hs
    split at h
    · rename_i hquote
      obtain ⟨n, hn, -⟩ := Option.map_eq_some_iff.mp h
      obtain ⟨body, rest, rfl, -, hbody⟩ := exists_body hn
      exact ⟨body, rest, quote, by simpa using hquote, hs, hbody⟩
    · cases h

theorem begins_iff_read {s : Slice} : Begins s.chars body rest ↔
    ∃ raw tail, read s = some (raw, tail) ∧ raw.chars = body ∧ tail.chars = rest := by
  constructor
  · exact read_of_begins
  · rintro ⟨raw, tail, hread, rfl, rfl⟩
    obtain ⟨body, rest, hbegins⟩ := exists_begins_of_read hread
    obtain ⟨raw', tail', hread', rfl, rfl⟩ := read_of_begins hbegins
    cases hread.symm.trans hread'
    exact hbegins

end Quoted

namespace Bytes

theorem objectEnd_encode (depth : Nat) (cs rest : List Char) :
    objectEnd none depth (utf8 (Quoted.encode cs ++ rest)) =
      (objectEnd none depth (utf8 rest)).map (· + (utf8 (Quoted.encode cs)).length) := by
  have hrest := @agree_objectEnd none nofun depth rest
  have hwhole := @agree_objectEnd none nofun depth (Quoted.encode cs ++ rest)
  rw [Quoted.objectLength_encode] at hwhole
  rw [Text.length_utf8]
  exact hwhole.unique (hrest.append (Quoted.encode cs))

end Bytes

namespace Quoted

theorem encode_read_exactly (cs rest : List Char) (n depth : Nat) :
    encode cs = '\'' :: (escape cs ++ ['\'']) ∧
      (∀ body tail, Begins (encode cs ++ rest) body tail ↔ body = escape cs ∧ tail = rest) ∧
      read ⟨n, encode cs ++ rest⟩ =
        some (⟨n + 1, escape cs⟩, ⟨n + byteLength (encode cs), rest⟩) ∧
      unescape (escape cs) = cs ∧
      HeaderObject.bodyLength none depth (encode cs ++ rest) =
        (HeaderObject.bodyLength none depth rest).map (· + (encode cs).length) ∧
      Bytes.objectEnd none depth (utf8 (encode cs ++ rest)) =
        (Bytes.objectEnd none depth (utf8 rest)).map (· + (utf8 (encode cs)).length) := by
  refine ⟨rfl, fun body tail => ?_, read_encode n cs rest, unescape_escape cs,
    objectLength_encode depth cs rest, Bytes.objectEnd_encode depth cs rest⟩
  have hbegins := @begins_iff_read body tail ⟨n, encode cs ++ rest⟩
  rw [read_encode] at hbegins
  rw [hbegins]
  constructor
  · rintro ⟨raw, tail, hread, rfl, rfl⟩
    cases hread
    exact ⟨rfl, rfl⟩
  · rintro ⟨rfl, rfl⟩
    exact ⟨_, _, rfl, rfl, rfl⟩

example : encode "\\' \\n é\x7d \x7b\\".toList = "'\\\\\\' \\\\n é\x7d \x7b\\\\'".toList := by decide

end Quoted

end EmailTemplates.Source
