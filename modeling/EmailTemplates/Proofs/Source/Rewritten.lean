import EmailTemplates.Proofs.Source.Depth
import EmailTemplates.Proofs.Source.InStep

namespace EmailTemplates.Source

open EmailTemplates.Text (Slice)
open Tag (between? named? Bounds Encloses)

variable {c : Char} {cs ds a b u v name e : List Char} {depth depth' : Nat}

structure Inert (cs : List Char) : Prop where
  head : ∃ c tail, cs = c :: tail ∧ Bounds c
  noOpen : '<' ∉ cs
  noClose : '>' ∉ cs
  last : cs.getLast? ≠ some '/'

inductive Rewrites : List Char → List Char → Prop
  | nil : Rewrites [] []
  | char (c : Char) {cs ds : List Char} : Rewrites cs ds → Rewrites (c :: cs) (c :: ds)
  | inert {u v cs ds : List Char} : Inert u → Inert v → Rewrites cs ds →
      Rewrites (u ++ cs) (v ++ ds)

namespace Rewrites

theorem append (h : Rewrites cs ds) (front : List Char) : Rewrites (front ++ cs) (front ++ ds) := by
  induction front with
  | nil => exact h
  | cons c front ih => exact ih.char c

theorem symm (h : Rewrites cs ds) : Rewrites ds cs := by
  induction h with
  | nil => exact .nil
  | char c _ ih => exact ih.char c
  | inert hu hv _ ih => exact .inert hv hu ih

theorem split {d : Char} (hd : d = '<' ∨ d = '>') (h : Rewrites (a ++ d :: b) ds) :
    ∃ a' b', ds = a' ++ d :: b' ∧ Rewrites a a' ∧ Rewrites b b' := by
  generalize hcs : a ++ d :: b = cs at h
  induction h generalizing a with
  | nil => simp at hcs
  | @char c cs ds hrest ih =>
    rcases List.append_eq_cons_iff.mp hcs with ⟨rfl, hb⟩ | ⟨a, rfl, rfl⟩
    · obtain ⟨rfl, rfl⟩ := List.cons.inj hb
      exact ⟨[], ds, rfl, .nil, hrest⟩
    · obtain ⟨a', b', rfl, ha, hb⟩ := ih rfl
      exact ⟨c :: a', b', rfl, ha.char c, hb⟩
  | @inert u v cs ds hu hv _ ih =>
    rcases Slice.mem_parts hcs.symm with ⟨after, hin, -⟩ | ⟨a, rfl, rfl⟩
    · have hmem : d ∈ u := by
        rw [hin]
        exact List.mem_append_right _ List.mem_cons_self
      rcases hd with rfl | rfl
      · exact absurd hmem hu.noOpen
      · exact absurd hmem hu.noClose
    · obtain ⟨a', b', rfl, ha, hb⟩ := ih rfl
      exact ⟨v ++ a', b', by simp, .inert hu hv ha, hb⟩

theorem not_mem {d : Char} (hd : d = '<' ∨ d = '>') (h : Rewrites cs ds) (hcs : d ∉ cs) :
    d ∉ ds := by
  intro hmem
  obtain ⟨a, b, rfl⟩ := List.append_of_mem hmem
  obtain ⟨a', b', rfl, -⟩ := h.symm.split hd
  exact hcs (List.mem_append_right a' List.mem_cons_self)

theorem takeWhile_angle (h : Rewrites cs ds) :
    Rewrites (cs.takeWhile (· != '>')) (ds.takeWhile (· != '>')) := by
  by_cases hmem : '>' ∈ cs
  · obtain ⟨inside, rest, rfl, hinside⟩ := List.eq_append_cons_of_mem hmem
    obtain ⟨inside', rest', rfl, hrewrites, -⟩ := h.split (.inr rfl)
    rwa [Tag.takeWhile_angle hinside,
      Tag.takeWhile_angle (hrewrites.not_mem (.inr rfl) hinside)]
  · rwa [Tag.takeWhile_of_not_mem hmem, Tag.takeWhile_of_not_mem (h.not_mem (.inr rfl) hmem)]

theorem head (h : Rewrites cs ds) {p : Char → Bool} (hp : ∀ c, Bounds c → p c = false) :
    ds.head?.any p = cs.head?.any p := by
  cases h with
  | nil => rfl
  | char => rfl
  | inert hu hv _ =>
    obtain ⟨c, u, rfl, hc⟩ := hu.head
    obtain ⟨d, v, rfl, hd⟩ := hv.head
    exact (hp d hd).trans (hp c hc).symm

theorem of_slash (h : Rewrites ('/' :: cs) ds) : ∃ tail, ds = '/' :: tail ∧ Rewrites cs tail := by
  generalize hcs : '/' :: cs = xs at h
  cases h with
  | nil => cases hcs
  | char c h =>
    obtain ⟨rfl, rfl⟩ := List.cons.inj hcs
    exact ⟨_, rfl, h⟩
  | inert hu =>
    obtain ⟨c, u, rfl, hc⟩ := hu.head
    exact absurd (List.cons.inj hcs).1.symm hc.notSlash

theorem named (h : Rewrites cs ds) :
    ds.takeWhile Char.isAlphanum = cs.takeWhile Char.isAlphanum ∧
      Rewrites (cs.dropWhile Char.isAlphanum) (ds.dropWhile Char.isAlphanum) := by
  induction h with
  | nil => exact ⟨rfl, .nil⟩
  | char c h ih =>
    cases hc : Char.isAlphanum c with
    | true => simpa [hc] using ih
    | false => simpa [hc] using h.char c
  | inert hu hv h =>
    obtain ⟨c, u, rfl, hc⟩ := hu.head
    obtain ⟨d, v, rfl, hd⟩ := hv.head
    simpa [hc.not_alphanum, hd.not_alphanum] using h.inert hu hv

theorem eq_nil_iff (h : Rewrites cs ds) : ds = [] ↔ cs = [] := by
  cases h with
  | nil => rfl
  | char => simp
  | inert hu hv =>
    obtain ⟨c, u, rfl, -⟩ := hu.head
    obtain ⟨d, v, rfl, -⟩ := hv.head
    simp

theorem of_angle (h : Rewrites ('<' :: cs) ds) : ∃ tail, ds = '<' :: tail ∧ Rewrites cs tail := by
  obtain ⟨front, tail, rfl, hfront, htail⟩ := h.split (a := []) (.inl rfl)
  rw [hfront.eq_nil_iff.mpr rfl]
  exact ⟨tail, rfl, htail⟩

theorem last (h : Rewrites cs ds) : ds.getLast? = some '/' ↔ cs.getLast? = some '/' := by
  induction h with
  | nil => rfl
  | @char c cs ds h ih =>
    by_cases hcs : cs = []
    · rw [hcs, h.eq_nil_iff.mpr hcs]
    · obtain ⟨x, cs, rfl⟩ := List.exists_cons_of_ne_nil hcs
      obtain ⟨y, ds, rfl⟩ := List.exists_cons_of_ne_nil fun hds => hcs (h.eq_nil_iff.mp hds)
      rwa [List.getLast?_cons_cons, List.getLast?_cons_cons]
  | inert hu hv _ ih => simp [List.getLast?_append, Option.or_eq_some_iff, hu.last, hv.last, ih]

theorem named?_eq (h : Rewrites cs ds) (closing : Bool) :
    named? closing ds = named? closing cs := by
  obtain ⟨hname, hbehind⟩ := h.named
  unfold named?
  dsimp only
  have hlast : ((ds.dropWhile Char.isAlphanum).getLast? == some '/') =
      ((cs.dropWhile Char.isAlphanum).getLast? == some '/') := by
    rw [Bool.eq_iff_iff, beq_iff_eq, beq_iff_eq, hbehind.last]
  rw [h.head fun c hc => hc.not_alpha, hbehind.head fun c hc => hc.notWord, hlast, hname]

theorem between?_eq (h : Rewrites cs ds) : between? ds = between? cs := by
  by_cases hslash : cs.head? = some '/'
  · obtain ⟨cs, rfl⟩ := List.head?_eq_some_iff.mp hslash
    obtain ⟨ds, rfl, hrest⟩ := h.of_slash
    exact hrest.named?_eq true
  · have hslash' : ds.head? ≠ some '/' := by
      intro hslash'
      obtain ⟨ds, rfl⟩ := List.head?_eq_some_iff.mp hslash'
      obtain ⟨cs, rfl, -⟩ := h.symm.of_slash
      exact hslash rfl
    rw [Tag.between?_of_ne hslash, Tag.between?_of_ne hslash']
    exact h.named?_eq false

end Rewrites

theorem Tag.Encloses.rewrites {tag : Tag} (h : tag.Encloses a) (hr : Rewrites a b) :
    tag.Encloses b where
  isTag := hr.between?_eq.trans h.isTag
  noAngle := hr.not_mem (.inr rfl) h.noAngle
  apart := by
    intro hclosing
    obtain ⟨front, back, rfl⟩ := hclosing
    rw [List.append_assoc] at hr
    obtain ⟨front', back', rfl, -, hback⟩ := hr.symm.split (.inl rfl)
    obtain ⟨tail, rfl, -⟩ := hback.of_slash
    exact h.apart ⟨front', tail, by simp⟩

theorem Leads.rewrites (h : Leads name depth cs depth') (hr : Rewrites cs ds) :
    Leads name depth ds depth' := by
  induction hlen : cs.length using Nat.strong_induction_on generalizing cs ds depth with
  | _ len ih =>
    subst hlen
    cases hr with
    | nil => exact h
    | @char c cs ds hr =>
      cases h with
      | char hc h => exact (ih _ (Nat.lt_succ_self _) h hr rfl).char hc
      | angle hnone h =>
        refine (ih _ (Nat.lt_succ_self _) h hr rfl).angle ?_
        rw [hr.takeWhile_angle.between?_eq, hnone]
      | tag hencloses hmoves h =>
        obtain ⟨inside, rest, rfl, hinside, hrest⟩ := hr.split (.inr rfl)
        exact (ih _ (by simp; omega) h hrest rfl).tag (hencloses.rewrites hinside) hmoves
    | @inert u v cs ds hu hv hr =>
      rw [leads_append_iff hu.noOpen] at h
      rw [leads_append_iff hv.noOpen]
      have hlt : cs.length < (u ++ cs).length := by
        obtain ⟨c, u, rfl, -⟩ := hu.head
        simp only [List.cons_append, List.length_cons, List.length_append]
        omega
      exact ih _ hlt h hr rfl

theorem inert_concat {d : Char} (hc : Bounds c) (hd : d ≠ '/') (hopen : '<' ∉ c :: cs ++ [d])
    (hclose : '>' ∉ c :: cs ++ [d]) : Inert (c :: cs ++ [d]) where
  head := ⟨c, cs ++ [d], rfl, hc⟩
  noOpen := hopen
  noClose := hclose
  last := by
    rw [List.getLast?_concat]
    simpa using hd

namespace Literal

theorem inert_chars (h : Token.isName name = true) : Inert (Token.chars name) := by
  have hchars : Token.chars name = '{' :: ('{' :: (name ++ ['}'])) ++ ['}'] := by
    simp [Token.chars]
  have hopen : '<' ∉ Token.chars name := Token.not_mem_chars_of_breaks h (by decide)
  have hclose : '>' ∉ Token.chars name := Token.not_mem_chars_of_breaks h (by decide)
  rw [hchars] at hopen hclose ⊢
  exact inert_concat ⟨by decide, by decide⟩ (by decide) hopen hclose

theorem trim_of_nameOf? (h : nameOf? e = some name) :
    Token.isName name = true ∧ (Text.trim e = name ∨ Text.trim e = dataName name) := by
  unfold nameOf? at h
  split at h
  · rename_i rest htrim
    rw [Option.ite_none_right_eq_some] at h
    obtain ⟨hname, heq⟩ := h
    obtain rfl := Option.some.inj heq
    exact ⟨hname, .inr htrim⟩
  · rw [Option.ite_none_right_eq_some] at h
    obtain ⟨hname, heq⟩ := h
    obtain rfl := Option.some.inj heq
    exact ⟨hname, .inl rfl⟩

theorem not_mem_of_nameOf? (h : nameOf? e = some name) (hb : Token.breaks c = true)
    (hblank : Text.isBlank c = false) (hdot : c ≠ '.') : c ∉ e := by
  obtain ⟨hname, htrim⟩ := trim_of_nameOf? h
  have hnot : c ∉ name := fun hmem =>
    Token.not_mem_chars_of_breaks hname hb (by simp [Token.chars, hmem])
  have hdata : c ∉ ['d', 'a', 't', 'a', '.'] := by
    simp only [List.mem_cons, List.not_mem_nil, or_false, not_or]
    refine ⟨?_, ?_, ?_, ?_, hdot⟩ <;>
    · rintro rfl
      revert hb
      decide
  rw [← Text.mem_trim_iff hblank]
  rcases htrim with htrim | htrim
  · rwa [htrim]
  · rw [htrim, show dataName name = ['d', 'a', 't', 'a', '.'] ++ name from rfl]
    exact List.not_mem_append hdata hnot

theorem inert_interpolation (h : nameOf? e = some name) : Inert ('$' :: '{' :: (e ++ ['}'])) := by
  have hopen : '<' ∉ e := not_mem_of_nameOf? h (by decide) (by decide) (by decide)
  have hclose : '>' ∉ e := not_mem_of_nameOf? h (by decide) (by decide) (by decide)
  exact @inert_concat '$' ('{' :: e) '}' ⟨by decide, by decide⟩ (by decide) (by simp [hopen])
    (by simp [hclose])

theorem inert_of_special (h : isSpecial c = true) : Inert [c] ∧ Inert ['\\', c] := by
  simp only [isSpecial, Bool.or_eq_true, beq_iff_eq] at h
  rcases h with (rfl | rfl) | rfl
  iterate 3
    exact ⟨⟨⟨_, _, rfl, by decide, by decide⟩, by decide, by decide, by decide⟩,
      ⟨⟨_, _, rfl, by decide, by decide⟩, by decide, by decide, by decide⟩⟩

theorem rewrites_encode (cs : List Char) : Rewrites cs (encode cs) := by
  induction cs using Token.text_induction with
  | nil =>
    rw [encode_nil]
    exact .nil
  | token name rest hname ih =>
    rw [encode_chars hname, interpolation_eq]
    exact .inert (inert_chars hname) (inert_interpolation (nameOf?_dataName hname)) ih
  | char c cs hc ih =>
    rw [encode_cons hc, escapeAt]
    split
    · rename_i hspecial
      have hc : isSpecial c = true := by
        rcases hspecial with rfl | rfl | ⟨rfl, -⟩ <;> rfl
      exact .inert (inert_of_special hc).1 (inert_of_special hc).2 ih
    · exact ih.char c

theorem rewrites_text (h : '\\' ∉ cs) (n : Nat) : Rewrites cs (text (pieces ⟨n, cs⟩)) := by
  induction hlen : cs.length using Nat.strong_induction_on generalizing cs n with
  | _ len ih =>
    subst hlen
    cases cs with
    | nil =>
      rw [pieces_nil]
      exact .nil
    | cons c cs =>
      obtain ⟨hc, hcs⟩ := List.mem_cons.not.mp h |> not_or.mp
      have hchar (hnext : nextPiece ⟨n, c :: cs⟩ = (.char c, 0)) :
          Rewrites (c :: cs) (text (pieces ⟨n, c :: cs⟩)) := by
        rw [pieces_of_nextPiece rfl hnext, Slice.drop_one]
        exact (ih _ (Nat.lt_succ_self _) hcs _ rfl).char c
      by_cases hopen : c = '$' ∧ cs.head? = some '{'
      · obtain ⟨rfl, hhead⟩ := hopen
        obtain ⟨cs, rfl⟩ := List.head?_eq_some_iff.mp hhead
        cases hlength : expressionLength 0 cs with
        | none =>
          exact hchar (by simp [nextPiece, hlength])
        | some k =>
          obtain ⟨e, rest, rfl, rfl, he⟩ := exists_closes hlength
          have hcode : '$' :: '{' :: (e ++ '}' :: rest) = '$' :: '{' :: (e ++ ['}']) ++ rest := by
            simp
          have hdrop := Slice.drop_append n ('$' :: '{' :: (e ++ ['}'])) rest
          have hsize : ('$' :: '{' :: (e ++ ['}'])).length = e.length + 2 + 1 := by simp
          rw [hsize, ← hcode] at hdrop
          have hrest := ih rest.length (by simp; omega) (fun hmem => h (by simp [hmem]))
            (n + Text.byteLength ('$' :: '{' :: (e ++ ['}']))) rfl
          rw [pieces_of_nextPiece rfl (nextPiece_interpolation he n rest), hdrop, hcode]
          cases hname : nameOf? e with
          | some name =>
            exact .inert (inert_interpolation hname) (inert_chars (trim_of_nameOf? hname).1) hrest
          | none => exact hrest.append _
      · exact hchar (nextPiece_char (Ne.symm hc) (fun hdollar hhead => hopen ⟨hdollar, hhead⟩) n)

end Literal

end EmailTemplates.Source
