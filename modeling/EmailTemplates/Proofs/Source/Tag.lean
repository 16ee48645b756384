import EmailTemplates.Proofs.Outcome
import EmailTemplates.Proofs.Text.Slice
import EmailTemplates.Source.Segment

namespace EmailTemplates.Source

open EmailTemplates.Text (Slice byteLength byteLength_cons)
open Outcome

namespace Tag

theorem length_upToAngle {s a rest : Slice} (h : upToAngle s = some (a, rest)) :
    rest.chars.length ≤ s.chars.length := by
  unfold upToAngle at h
  dsimp only at h
  split at h
  · cases h
  · cases h
    exact (Slice.length_drop _ _).trans (Slice.length_dropWhile _ _)

theorem advances_read : Slice.Advances read := by
  intro s tag rest h
  obtain ⟨s1, h1, h⟩ := Option.bind_eq_some_iff.mp h
  obtain ⟨-, h⟩ := unless_none_eq_some.mp h
  obtain ⟨⟨name, s2⟩, h2, h⟩ := Option.bind_eq_some_iff.mp h
  obtain ⟨-, h⟩ := unless_none_eq_some.mp h
  obtain ⟨⟨a, s3⟩, h3, h⟩ := Option.bind_eq_some_iff.mp h
  cases h
  have l1 := Slice.length_expect h1
  have l2 := Slice.length_run h2
  have l3 := length_upToAngle h3
  have l4 : (if (s1.chars.head? == some '/') = true then s1.drop 1 else s1).chars.length ≤
      s1.chars.length := by
    split
    · exact Slice.length_drop _ _
    · exact Nat.le_refl _
  omega

def isTagName (t : List Char) : Bool :=
  t.head?.any Char.isAlpha && t.all Char.isAlphanum

structure IsInside (inside : List Char) : Prop where
  head : ∀ c ∈ inside.head?, Text.isWord c = false
  noAngle : '>' ∉ inside

theorem isInside_nil : IsInside [] :=
  ⟨by simp, by simp⟩

theorem forall_ne_angle {cs : List Char} (h : '>' ∉ cs) : ∀ c ∈ cs, (c != '>') = true := by
  intro c hc
  rw [bne_iff_ne]
  rintro rfl
  exact h hc

theorem upToAngle_append {inside : List Char} (h : '>' ∉ inside) (n : Nat) (rest : List Char) :
    ∃ m, upToAngle ⟨n, inside ++ '>' :: rest⟩ = some (⟨n, inside⟩, ⟨m, rest⟩) := by
  have hin := forall_ne_angle h
  have hr : ∀ c ∈ ('>' :: rest).head?, (c != '>') = false := by simp
  refine ⟨n + byteLength inside + '>'.utf8Size, ?_⟩
  rw [upToAngle, Slice.sliceDropWhile_append n hin hr, Slice.sliceTakeWhile_append n hin hr]
  simp only [Slice.isEmpty, List.isEmpty_cons, Bool.false_eq_true, if_false, Slice.drop_one]

theorem endsName_append {inside : List Char} (h : IsInside inside) (n : Nat) (rest : List Char) :
    endsName ⟨n, inside ++ '>' :: rest⟩ = true := by
  cases inside with
  | nil => exact (by decide : (!Text.isWord '>') = true)
  | cons c inside => simp [endsName, h.head c rfl]

theorem not_isAlphanum_head {inside : List Char} (h : IsInside inside) (rest : List Char) :
    ∀ c ∈ (inside ++ '>' :: rest).head?, Char.isAlphanum c = false := by
  cases inside with
  | nil => exact Slice.head_cons (by decide) rest
  | cons c inside =>
    have hc := h.head c rfl
    simp only [Text.isWord, Bool.or_eq_false_iff] at hc
    exact Slice.head_cons hc.1.1 _

def written (closing : Bool) (t inside : List Char) : List Char :=
  '<' :: ((if closing then ['/'] else []) ++ (t ++ (inside ++ ['>'])))

theorem written_append (closing : Bool) (t inside rest : List Char) :
    written closing t inside ++ rest =
      '<' :: ((if closing then ['/'] else []) ++ (t ++ (inside ++ '>' :: rest))) := by
  simp [written]

theorem read_written {t inside : List Char} (ht : isTagName t = true) (hi : IsInside inside)
    (closing : Bool) (n : Nat) (rest : List Char) :
    ∃ m, read ⟨n, written closing t inside ++ rest⟩ =
      some (⟨closing, t.map Char.toLower, inside.getLast? == some '/'⟩, ⟨m, rest⟩) := by
  rw [written_append]
  obtain ⟨hhead, hall⟩ := Bool.and_eq_true_iff.mp ht
  cases t with
  | nil => simp at hhead
  | cons a t =>
    have ha : a.isAlpha = true := by simpa using hhead
    have hslash : a ≠ '/' := by
      rintro rfl
      revert ha
      decide
    have hrun (k : Nat) : Slice.run Char.isAlphanum ⟨k, a :: (t ++ (inside ++ '>' :: rest))⟩ =
        some (⟨k, a :: t⟩, ⟨k + byteLength (a :: t), inside ++ '>' :: rest⟩) :=
      Slice.run_append k (List.cons_ne_nil a t) (List.all_eq_true.mp hall)
        (not_isAlphanum_head hi rest)
    cases closing with
    | false =>
      obtain ⟨m, hm⟩ := upToAngle_append hi.noAngle
        (n + '<'.utf8Size + byteLength (a :: t)) rest
      refine ⟨m, ?_⟩
      simp only [Bool.false_eq_true, if_false, List.nil_append]
      rw [read, Slice.expect_cons]
      simp [hslash, ha, hrun, endsName_append hi, hm, -byteLength_cons]
    | true =>
      obtain ⟨m, hm⟩ := upToAngle_append hi.noAngle
        (n + '<'.utf8Size + '/'.utf8Size + byteLength (a :: t)) rest
      refine ⟨m, ?_⟩
      simp only [if_true, List.singleton_append]
      rw [read, Slice.expect_cons]
      simp [Slice.drop_one, ha, hrun, endsName_append hi, hm, -byteLength_cons]

theorem read_eq_none {c : Char} (h : c ≠ '<') (n : Nat) (cs : List Char) :
    read ⟨n, c :: cs⟩ = none := by
  rw [read, Slice.expect_of_ne h]
  rfl

end Tag

namespace Segment

theorem afterClosing_of_some {name : List Char} {depth : Nat} {s s' rest : Slice} {tag : Tag}
    (h : s.find Tag.read = some (s', tag, rest)) :
    afterClosing name depth s =
      if tag.name ≠ name ∨ tag.selfClosing then afterClosing name depth rest
      else if !tag.closing then afterClosing name (depth + 1) rest
      else match depth with
        | 0 => some rest
        | depth + 1 => afterClosing name depth rest := by
  have hlt := Slice.length_of_find Tag.advances_read h
  rw [afterClosing, h]
  exact if_pos hlt

theorem afterClosing_congr {name : List Char} {depth : Nat} {s s' : Slice}
    (h : s.find Tag.read = s'.find Tag.read) :
    afterClosing name depth s = afterClosing name depth s' := by
  cases hf : s'.find Tag.read with
  | none => rw [afterClosing, afterClosing, h, hf]
  | some p =>
    obtain ⟨s₁, tag, rest⟩ := p
    rw [afterClosing_of_some (h.trans hf), afterClosing_of_some hf]

def Skips (name cs : List Char) : Prop :=
  ∀ depth n rest, ∃ m, afterClosing name depth ⟨n, cs ++ rest⟩ = afterClosing name depth ⟨m, rest⟩

variable {name cs ds : List Char}

theorem skips_nil : Skips name [] :=
  fun _ n _ => ⟨n, rfl⟩

theorem Skips.append (hc : Skips name cs) (hd : Skips name ds) : Skips name (cs ++ ds) := by
  intro depth n rest
  obtain ⟨m, hm⟩ := hc depth n (ds ++ rest)
  obtain ⟨k, hk⟩ := hd depth m rest
  exact ⟨k, by rw [List.append_assoc, hm, hk]⟩

def SkipsTo (name cs : List Char) : Prop :=
  ∀ depth n rest, ∃ m, afterClosing name depth ⟨n, cs ++ '<' :: rest⟩ =
    afterClosing name depth ⟨m, '<' :: rest⟩

theorem Skips.skipsTo (h : Skips name cs) : SkipsTo name cs :=
  fun depth n rest => h depth n ('<' :: rest)

theorem SkipsTo.append_skips (hc : SkipsTo name cs) (hd : Skips name ds)
    (hhead : ds.head? = some '<') : Skips name (cs ++ ds) := by
  obtain ⟨ds, rfl⟩ := List.head?_eq_some_iff.mp hhead
  intro depth n rest
  obtain ⟨m, hm⟩ := hc depth n (ds ++ rest)
  obtain ⟨k, hk⟩ := hd depth m rest
  exact ⟨k, by rw [List.append_assoc, List.cons_append, hm, ← List.cons_append, hk]⟩

theorem passes_tag_of_not_mem (h : '<' ∉ cs) (rest : List Char) :
    Slice.Passes Tag.read cs rest := by
  refine Slice.passes_of_forall fun u v huv hv n => ?_
  cases v with
  | nil => exact absurd rfl hv
  | cons c v =>
    refine Tag.read_eq_none ?_ n (v ++ rest)
    rintro rfl
    exact h (by simp [huv])

theorem skips_of_not_mem (h : '<' ∉ cs) : Skips name cs :=
  fun _ n rest => ⟨_, afterClosing_congr (Slice.find_append (passes_tag_of_not_mem h rest) n)⟩

theorem skips_written {t inside : List Char} (ht : Tag.isTagName t = true)
    (hi : Tag.IsInside inside) (closing : Bool) (hname : t.map Char.toLower ≠ name) :
    Skips name (Tag.written closing t inside) := by
  intro depth n rest
  obtain ⟨m, hm⟩ := Tag.read_written ht hi closing n rest
  refine ⟨m, ?_⟩
  rw [afterClosing_of_some (Slice.find_of_some hm)]
  simp [hname]

theorem skips_balanced {t inside : List Char} (ht : Tag.isTagName t = true)
    (hi : Tag.IsInside inside) (hslash : inside.getLast? ≠ some '/')
    (hcs : SkipsTo name cs) :
    Skips name (Tag.written false t inside ++ (cs ++ Tag.written true t [])) := by
  by_cases hname : t.map Char.toLower = name
  · intro depth n rest
    have hself : (inside.getLast? == some '/') = false := by simpa using hslash
    have hclosing : Tag.written true t [] ++ rest = '<' :: '/' :: (t ++ '>' :: rest) :=
      Tag.written_append true t [] rest
    obtain ⟨k, hk⟩ := Tag.read_written ht hi false n (cs ++ (Tag.written true t [] ++ rest))
    obtain ⟨l, hl⟩ := hcs (depth + 1) k ('/' :: (t ++ '>' :: rest))
    obtain ⟨m, hm⟩ := Tag.read_written ht Tag.isInside_nil true l rest
    refine ⟨m, ?_⟩
    rw [List.append_assoc, List.append_assoc, afterClosing_of_some (Slice.find_of_some hk)]
    simp only [hname, hself, ne_eq, not_true_eq_false, Bool.false_eq_true, or_self, if_false,
      Bool.not_false, if_true]
    rw [hclosing, hl, ← hclosing, afterClosing_of_some (Slice.find_of_some hm)]
    simp [hname]
  · refine (skips_written ht hi false hname).append (hcs.append_skips ?_ rfl)
    exact skips_written ht Tag.isInside_nil true hname

theorem afterClosing_written {t : List Char} (ht : Tag.isTagName t = true)
    (hcs : SkipsTo (t.map Char.toLower) cs) (n : Nat) (rest : List Char) :
    ∃ m, afterClosing (t.map Char.toLower) 0 ⟨n, cs ++ (Tag.written true t [] ++ rest)⟩ =
      some ⟨m, rest⟩ := by
  obtain ⟨k, hk⟩ := hcs 0 n ('/' :: (t ++ '>' :: rest))
  have hclosing : Tag.written true t [] ++ rest = '<' :: '/' :: (t ++ '>' :: rest) :=
    Tag.written_append true t [] rest
  obtain ⟨m, hm⟩ := Tag.read_written ht Tag.isInside_nil true k rest
  refine ⟨m, ?_⟩
  rw [hclosing] at hm ⊢
  rw [hk, afterClosing_of_some (Slice.find_of_some hm)]
  simp

theorem comment?_written {t : List Char} (ht : Tag.isTagName t = true) (n : Nat)
    (rest : List Char) : comment? ⟨n, '<' :: (t ++ rest)⟩ = none := by
  cases t with
  | nil => simp [Tag.isTagName] at ht
  | cons a t =>
    have ha : a.isAlpha = true := by simpa using (Bool.and_eq_true_iff.mp ht).1
    have hbang : a ≠ '!' := by
      rintro rfl
      revert ha
      decide
    have hopen : "<!--".toList = ['<', '!', '-', '-'] := rfl
    rw [comment?, hopen]
    simp [Ne.symm hbang]

theorem next_of_read {t inside : List Char} (ht : Tag.isTagName t = true)
    (hi : Tag.IsInside inside) (hslash : inside.getLast? ≠ some '/') (n : Nat)
    (rest : List Char) :
    ∃ m, next ⟨n, Tag.written false t inside ++ rest⟩ =
      (if Tag.isVoid ⟨false, t.map Char.toLower, false⟩ then
        (.element (.ofList (t.map Char.toLower)) true, ⟨m, rest⟩)
      else match afterClosing (t.map Char.toLower) 0 ⟨m, rest⟩ with
        | some rest => (.element (.ofList (t.map Char.toLower)) true, rest)
        | none => (.element (.ofList (t.map Char.toLower)) false,
            (⟨n, Tag.written false t inside ++ rest⟩ : Slice).drop
              (Tag.written false t inside ++ rest).length)) := by
  obtain ⟨m, hm⟩ := Tag.read_written ht hi false n rest
  have hcomment : comment? ⟨n, Tag.written false t inside ++ rest⟩ = none := by
    rw [Tag.written_append]
    exact comment?_written ht n _
  have hself : (inside.getLast? == some '/') = false := by simpa using hslash
  refine ⟨m, ?_⟩
  rw [next, hcomment, element?, hm]
  simp only [Option.bind_eq_bind, Option.bind_some, hself, Bool.false_eq_true, if_false,
    Bool.false_or, HOrElse.hOrElse, OrElse.orElse, Option.orElse]
  split
  · rfl
  · cases afterClosing (t.map Char.toLower) 0 ⟨m, rest⟩ <;> rfl

theorem next_element {t inside : List Char} (ht : Tag.isTagName t = true)
    (hi : Tag.IsInside inside) (hslash : inside.getLast? ≠ some '/')
    (hvoid : Tag.isVoid ⟨false, t.map Char.toLower, false⟩ = false)
    (hcs : SkipsTo (t.map Char.toLower) cs) (n : Nat) (rest : List Char) :
    ∃ m, next ⟨n, Tag.written false t inside ++ (cs ++ (Tag.written true t [] ++ rest))⟩ =
      (.element (.ofList (t.map Char.toLower)) true, ⟨m, rest⟩) := by
  obtain ⟨k, hk⟩ := next_of_read ht hi hslash n (cs ++ (Tag.written true t [] ++ rest))
  obtain ⟨m, hm⟩ := afterClosing_written ht hcs k rest
  refine ⟨m, ?_⟩
  rw [hk, hvoid, hm]
  rfl

theorem next_void {t inside : List Char} (ht : Tag.isTagName t = true)
    (hi : Tag.IsInside inside) (hslash : inside.getLast? ≠ some '/')
    (hvoid : Tag.isVoid ⟨false, t.map Char.toLower, false⟩ = true) (n : Nat) (rest : List Char) :
    ∃ m, next ⟨n, Tag.written false t inside ++ rest⟩ =
      (.element (.ofList (t.map Char.toLower)) true, ⟨m, rest⟩) := by
  obtain ⟨m, hm⟩ := next_of_read ht hi hslash n rest
  exact ⟨m, by rw [hm, if_pos hvoid]⟩

end Segment

end EmailTemplates.Source
