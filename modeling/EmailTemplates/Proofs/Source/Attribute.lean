import EmailTemplates.Proofs.Source.Tag
import EmailTemplates.Proofs.Text.Blank

namespace EmailTemplates.Source.Attribute

open EmailTemplates.Text (Slice byteLength isBlank)
open Outcome

theorem advances_read : Slice.Advances read := by
  intro s a rest h
  obtain ⟨⟨name, s1⟩, h1, h⟩ := Option.bind_eq_some_iff.mp h
  obtain ⟨s2, h2, h⟩ := Option.bind_eq_some_iff.mp h
  obtain ⟨s3, h3, h⟩ := Option.bind_eq_some_iff.mp h
  obtain ⟨s4, h4, h⟩ := Option.bind_eq_some_iff.mp h
  cases h
  have l1 := Slice.length_run h1
  have l2 := Slice.length_expect h2
  have l3 := Slice.length_expect h3
  have l4 := Slice.length_expect h4
  have d2 : s1.skipBlanks.chars.length ≤ s1.chars.length := Slice.length_dropWhile _ _
  have d3 : s2.skipBlanks.chars.length ≤ s2.chars.length := Slice.length_dropWhile _ _
  have d4 := Slice.length_dropWhile (· != '"') s3
  omega

theorem read_eq_none {n : Nat} {cs : List Char}
    (h : ((cs.dropWhile isNameChar).dropWhile isBlank).head? ≠ some '=') :
    read ⟨n, cs⟩ = none := by
  cases hr : read ⟨n, cs⟩ with
  | none => rfl
  | some p =>
    obtain ⟨⟨name, s1⟩, h1, hr⟩ := Option.bind_eq_some_iff.mp hr
    obtain ⟨s2, h2, -⟩ := Option.bind_eq_some_iff.mp hr
    have hhead : s1.skipBlanks.chars.head? = some '=' := Slice.head?_of_expect h2
    have hrun : s1.chars = cs.dropWhile isNameChar := (Slice.chars_of_run h1).2
    rw [Slice.skipBlanks, Slice.chars_dropWhile, hrun] at hhead
    exact absurd hhead h

theorem read_eq_none_of_head {c : Char} (h : isNameChar c = false) (n : Nat) (cs : List Char) :
    read ⟨n, c :: cs⟩ = none := by
  rw [read, Slice.run]
  simp [h]

theorem read_written {name value : List Char} (hne : name ≠ [])
    (hname : ∀ c ∈ name, isNameChar c = true) (hv : '"' ∉ value) (n : Nat) (rest : List Char) :
    ∃ k m, read ⟨n, name ++ '=' :: '"' :: (value ++ '"' :: rest)⟩ =
      some ((⟨n, name⟩, ⟨k, value⟩), ⟨m, rest⟩) := by
  have hrun : Slice.run isNameChar ⟨n, name ++ '=' :: '"' :: (value ++ '"' :: rest)⟩ =
      some (⟨n, name⟩, ⟨n + byteLength name, '=' :: '"' :: (value ++ '"' :: rest)⟩) := by
    exact Slice.run_append n hne hname (Slice.head_cons (by decide) _)
  have hin : ∀ c ∈ value, (c != '"') = true := by
    intro c hc
    rw [bne_iff_ne]
    rintro rfl
    exact hv hc
  have hr : ∀ c ∈ ('"' :: rest).head?, (c != '"') = false := by simp
  have hblank (k : Nat) (c : Char) (cs : List Char) (hc : isBlank c = false) :
      (⟨k, c :: cs⟩ : Slice).skipBlanks = ⟨k, c :: cs⟩ :=
    Slice.skipBlanks_self k (by simpa using hc)
  refine ⟨n + byteLength name + '='.utf8Size + '"'.utf8Size,
    n + byteLength name + '='.utf8Size + '"'.utf8Size + byteLength value + '"'.utf8Size, ?_⟩
  rw [read, hrun]
  simp only [Option.bind_eq_bind, Option.bind_some, hblank _ '=' _ (by decide),
    hblank _ '"' _ (by decide), Slice.expect_cons, Slice.sliceTakeWhile_append _ hin hr,
    Slice.sliceDropWhile_append _ hin hr]
  rfl

def pairs (s : Slice) : List (List Char × List Char) :=
  (Slice.findAll read s).map fun (name, value) => (name.chars, value.chars)

theorem value?_eq (name : String) (markup : List Char) :
    value? name markup =
      ((pairs ⟨0, markup⟩).find? fun p => p.1.map Char.toLower == name.toList).map Prod.snd := by
  rw [value?, pairs, List.find?_map, Option.map_map]
  rfl

def written (as : List (List Char × List Char)) : List Char :=
  as.flatMap fun a => ' ' :: (a.1 ++ '=' :: '"' :: (a.2 ++ ['"']))

structure IsWritable (a : List Char × List Char) : Prop where
  nonempty : a.1 ≠ []
  name : ∀ c ∈ a.1, isNameChar c = true
  noQuote : '"' ∉ a.2
  noAngle : '>' ∉ a.2

theorem isInside_written {as : List (List Char × List Char)} (h : ∀ a ∈ as, IsWritable a) :
    Tag.IsInside (written as) where
  head := by
    cases as with
    | nil => simp [written]
    | cons a as =>
      have hblank : Text.isWord ' ' = false := by decide
      simp [written, hblank]
  noAngle := by
    intro hmem
    obtain ⟨a, ha, hin⟩ := List.mem_flatMap.mp hmem
    have hw := h a ha
    simp only [List.mem_cons, List.mem_append, List.not_mem_nil, or_false] at hin
    rcases hin with h | h | h | h | h | h
    · revert h
      decide
    · have := hw.name _ h
      revert this
      decide
    · revert h
      decide
    · revert h
      decide
    · exact hw.noAngle h
    · revert h
      decide

theorem getLast?_written (as : List (List Char × List Char)) :
    (written as).getLast? ≠ some '/' := by
  cases as using List.reverseRecOn with
  | nil => simp [written]
  | append_singleton as a =>
    have hlast : written (as ++ [a]) =
        (written as ++ ' ' :: (a.1 ++ '=' :: '"' :: a.2)) ++ ['"'] := by
      simp [written]
    rw [hlast, List.getLast?_concat]
    decide

theorem pairs_of_none {n : Nat} {c : Char} {cs : List Char} (h : ∀ n, read ⟨n, c :: cs⟩ = none) :
    ∃ m, pairs ⟨n, c :: cs⟩ = pairs ⟨m, cs⟩ := by
  have hpass : Slice.Passes read [c] cs := ⟨h, trivial⟩
  have hfind := Slice.findAll_append advances_read hpass n
  exact ⟨_, congrArg (List.map _) hfind⟩

theorem isBlank_of_isNameChar {c : Char} (h : isNameChar c = true) :
    isBlank c = false ∧ c ≠ '=' := by
  simp only [isNameChar, Bool.or_eq_true, beq_iff_eq] at h
  rcases h with h | rfl
  · have hc : Text.isNameChar c = true := by simp [Text.isNameChar, Char.isAlphanum, h]
    refine ⟨Text.isBlank_of_isNameChar hc, ?_⟩
    rintro rfl
    revert h
    decide
  · decide

theorem written_cons_append (a : List Char × List Char) (as : List (List Char × List Char))
    (rest : List Char) :
    written (a :: as) ++ rest =
      ' ' :: (a.1 ++ '=' :: '"' :: (a.2 ++ '"' :: (written as ++ rest))) := by
  simp [written]

theorem pairs_written {as : List (List Char × List Char)} (h : ∀ a ∈ as, IsWritable a) (n : Nat)
    (rest : List Char) : ∃ m, pairs ⟨n, written as ++ rest⟩ = as ++ pairs ⟨m, rest⟩ := by
  induction as generalizing n with
  | nil => exact ⟨n, rfl⟩
  | cons a as ih =>
    obtain ⟨ha, has⟩ := List.forall_mem_cons.mp h
    obtain ⟨m, hm⟩ := @pairs_of_none n ' '
      (a.1 ++ '=' :: '"' :: (a.2 ++ '"' :: (written as ++ rest)))
      fun k => read_eq_none_of_head (by decide) k _
    obtain ⟨k, l, hread⟩ := read_written ha.nonempty ha.name ha.noQuote m
      (written as ++ rest)
    obtain ⟨j, hj⟩ := ih has l
    refine ⟨j, ?_⟩
    rw [written_cons_append, hm, pairs, Slice.findAll_of_some advances_read hread, List.map_cons]
    exact congrArg (a :: ·) hj

theorem head?_behind_name {t : List Char} {as : List (List Char × List Char)}
    (ht : ∀ c ∈ t, c.isAlphanum = true) (h : ∀ a ∈ as, IsWritable a) (rest : List Char) :
    (((t ++ (written as ++ '>' :: rest)).dropWhile isNameChar).dropWhile isBlank).head? ≠
      some '=' := by
  induction t with
  | nil =>
    cases as with
    | nil =>
      have hn : isNameChar '>' = false := by decide
      have hb : isBlank '>' = false := by decide
      simp [written, hn, hb]
    | cons a as =>
      have hn : isNameChar ' ' = false := by decide
      have hb : isBlank ' ' = true := by decide
      cases ha : a.1 with
      | nil => exact absurd ha (h a List.mem_cons_self).nonempty
      | cons c cs =>
        obtain ⟨hc, heq⟩ := isBlank_of_isNameChar ((h a List.mem_cons_self).name c (by simp [ha]))
        rw [List.nil_append, written_cons_append, ha]
        simp [hn, hb, hc, heq]
  | cons x t ih =>
    obtain ⟨hx, ht⟩ := List.forall_mem_cons.mp ht
    by_cases hn : isNameChar x = true
    · simpa [hn] using ih ht
    · have hb : isBlank x = false := Text.isBlank_of_isNameChar (by simp [Text.isNameChar, hx])
      have heq : x ≠ '=' := by
        rintro rfl
        revert hx
        decide
      simp [hn, hb, heq]

theorem pairs_tag {t : List Char} {as : List (List Char × List Char)}
    (ht : ∀ c ∈ t, c.isAlphanum = true) (h : ∀ a ∈ as, IsWritable a) (n : Nat) (rest : List Char) :
    ∃ m, pairs ⟨n, Tag.written false t (written as) ++ rest⟩ = as ++ pairs ⟨m, rest⟩ := by
  have hpass : Slice.Passes read ('<' :: t) (written as ++ '>' :: rest) := by
    refine ⟨fun k => read_eq_none_of_head (by decide) k _, ?_⟩
    refine Slice.passes_of_forall fun u v huv _ k => read_eq_none ?_
    exact head?_behind_name (fun c hc => ht c (by simp [huv, hc])) h rest
  obtain ⟨m, hm⟩ := pairs_written h (n + byteLength ('<' :: t)) ('>' :: rest)
  obtain ⟨k, hk⟩ := pairs_of_none fun l => read_eq_none_of_head (c := '>') (by decide) l rest
  have hchars : Tag.written false t (written as) ++ rest =
      '<' :: t ++ (written as ++ '>' :: rest) := by
    simp [Tag.written]
  refine ⟨k, ?_⟩
  rw [hchars, pairs, Slice.findAll_append advances_read hpass]
  exact hm.trans (congrArg (as ++ ·) hk)

end EmailTemplates.Source.Attribute
