import EmailTemplates.Proofs.Source.Cut
import EmailTemplates.Proofs.Source.Element
import EmailTemplates.Proofs.Source.Forest

namespace EmailTemplates.Source

open EmailTemplates.Text (Slice byteLength)

variable {c : Char} {cs ds inside : List Char}

namespace Tag

def named? (closing : Bool) (cs : List Char) : Option Tag :=
  let behind := cs.dropWhile Char.isAlphanum
  if cs.head?.any Char.isAlpha && !behind.head?.any Text.isWord then
    some ⟨closing, (cs.takeWhile Char.isAlphanum).map Char.toLower, behind.getLast? == some '/'⟩
  else none

def between? : List Char → Option Tag
  | '/' :: cs => named? true cs
  | cs => named? false cs

theorem between?_of_ne (h : cs.head? ≠ some '/') : between? cs = named? false cs := by
  unfold between?
  split
  · exact absurd rfl h
  · rfl

def readNamed (closing : Bool) : Slice.Reader Tag := fun s => do
  if !s.chars.head?.any Char.isAlpha then none
  let (name, s) ← s.run Char.isAlphanum
  if !endsName s then none
  let (attributes, rest) ← upToAngle s
  return (⟨closing, name.chars.map Char.toLower, attributes.chars.getLast? == some '/'⟩, rest)

theorem read_slash (n : Nat) (cs : List Char) :
    read ⟨n, '<' :: '/' :: cs⟩ = readNamed true ⟨n + '<'.utf8Size + '/'.utf8Size, cs⟩ := by
  rw [read, Slice.expect_cons]
  simp only [Option.bind_eq_bind, Option.bind_some, List.head?_cons, BEq.rfl, if_true,
    Slice.drop_one]
  rfl

theorem read_of_ne (h : cs.head? ≠ some '/') (n : Nat) :
    read ⟨n, '<' :: cs⟩ = readNamed false ⟨n + '<'.utf8Size, cs⟩ := by
  have hslash : (cs.head? == some '/') = false := by simpa using h
  rw [read, Slice.expect_cons]
  simp only [Option.bind_eq_bind, Option.bind_some, hslash, Bool.false_eq_true, if_false]
  rfl

theorem head?_any_append {p : Char → Bool} (h : p c = false) (cs rest : List Char) :
    (cs ++ c :: rest).head?.any p = cs.head?.any p := by
  cases cs <;> simp [h]

theorem endsName_eq (s : Slice) : endsName s = !s.chars.head?.any Text.isWord := by
  unfold endsName
  split <;> rename_i h <;> simp [h]

theorem run_alphanum (h : cs.head?.any Char.isAlpha = true) (n : Nat) (rest : List Char) :
    Slice.run Char.isAlphanum ⟨n, cs ++ '>' :: rest⟩ = some (⟨n, cs.takeWhile Char.isAlphanum⟩,
      ⟨n + byteLength (cs.takeWhile Char.isAlphanum),
        cs.dropWhile Char.isAlphanum ++ '>' :: rest⟩) := by
  cases cs with
  | nil => cases h
  | cons c cs =>
    have halpha : Char.isAlpha c = true := h
    have hc : Char.isAlphanum c = true := by rw [Char.isAlphanum, halpha, Bool.true_or]
    have htake := @Slice.takeWhile_append_cons '>' Char.isAlphanum (by decide) (c :: cs) rest
    have hdrop := @Slice.dropWhile_append_cons '>' Char.isAlphanum (by decide) (c :: cs) rest
    rw [List.cons_append] at htake hdrop ⊢
    simp only [Slice.run, hc, if_true, Slice.takeWhile, Slice.dropWhile, htake, hdrop]

theorem readNamed_append (h : '>' ∉ cs) (closing : Bool) (n : Nat) (rest : List Char) :
    ∃ m, readNamed closing ⟨n, cs ++ '>' :: rest⟩ = (named? closing cs).map (·, ⟨m, rest⟩) := by
  have hbehind : '>' ∉ cs.dropWhile Char.isAlphanum :=
    fun hmem => h ((List.dropWhile_suffix _).subset hmem)
  obtain ⟨m, hm⟩ := upToAngle_append hbehind (n + byteLength (cs.takeWhile Char.isAlphanum)) rest
  refine ⟨m, ?_⟩
  have hend : Text.isWord '>' = false := by decide
  unfold readNamed named?
  dsimp only
  rw [head?_any_append (by decide)]
  cases halpha : cs.head?.any Char.isAlpha with
  | false => rfl
  | true =>
    simp only [Bool.not_true, Bool.false_eq_true, if_false, Option.bind_eq_bind, Option.bind_some,
      run_alphanum halpha, endsName_eq, head?_any_append hend, hm, Bool.true_and]
    cases (cs.dropWhile Char.isAlphanum).head?.any Text.isWord <;> rfl

theorem read_angles (h : '>' ∉ inside) (n : Nat) (rest : List Char) :
    ∃ m, read ⟨n, '<' :: (inside ++ '>' :: rest)⟩ = (between? inside).map (·, ⟨m, rest⟩) := by
  by_cases hslash : inside.head? = some '/'
  · obtain ⟨cs, rfl⟩ := List.head?_eq_some_iff.mp hslash
    rw [List.cons_append, read_slash]
    exact readNamed_append (fun hmem => h (List.mem_cons_of_mem _ hmem)) true _ rest
  · have hhead : (inside ++ '>' :: rest).head? ≠ some '/' := by
      cases inside with
      | nil => simp
      | cons c cs => exact hslash
    rw [read_of_ne hhead, between?_of_ne hslash]
    exact readNamed_append h false _ rest

theorem not_mem_inside {t : List Char} (ht : isTagName t = true) (hname : c.isAlphanum = false)
    (hslash : c ≠ '/') (hc : c ∉ inside) (closing : Bool) :
    c ∉ (if closing then ['/'] else []) ++ (t ++ inside) := by
  have ht : c ∉ t := not_mem_of_alphanum hname (isAlphanum_of_isTagName ht)
  cases closing <;> simp [hslash, ht, hc]

theorem between?_written {t : List Char} (ht : isTagName t = true) (hi : IsInside inside)
    (closing : Bool) :
    between? ((if closing then ['/'] else []) ++ (t ++ inside)) =
      some ⟨closing, t.map Char.toLower, inside.getLast? == some '/'⟩ := by
  have hangle := not_mem_inside ht (by decide) (by decide) hi.noAngle closing
  obtain ⟨m, hread⟩ := read_written ht hi closing 0 []
  obtain ⟨k, hread'⟩ := read_angles hangle 0 []
  have hwritten : written closing t inside ++ [] =
      '<' :: ((if closing then ['/'] else []) ++ (t ++ inside) ++ ['>']) := by
    simp [written]
  rw [hwritten, hread'] at hread
  obtain ⟨tag, htag, hpair⟩ := Option.map_eq_some_iff.mp hread
  exact htag.trans (congrArg some (congrArg Prod.fst hpair))

structure Bounds (c : Char) : Prop where
  notWord : Text.isWord c = false
  notSlash : c ≠ '/'

theorem Bounds.not_alphanum (h : Bounds c) : Char.isAlphanum c = false := by
  have hword := h.notWord
  simp only [Text.isWord, Bool.or_eq_false_iff] at hword
  exact hword.1.1

theorem Bounds.not_alpha (h : Bounds c) : Char.isAlpha c = false := by
  have halphanum := h.not_alphanum
  rw [Char.isAlphanum, Bool.or_eq_false_iff] at halphanum
  exact halphanum.1

theorem named?_append (h : ∀ c ∈ ds.head?, Bounds c) (closing : Bool) (cs : List Char) :
    named? closing (cs ++ ds) = none ↔ named? closing cs = none := by
  cases ds with
  | nil => rw [List.append_nil]
  | cons c ds =>
    have hc := h c rfl
    unfold named?
    dsimp only
    rw [head?_any_append hc.not_alpha, Slice.dropWhile_append_cons hc.not_alphanum,
      head?_any_append hc.notWord]
    split <;> simp

theorem between?_append (h : ∀ c ∈ ds.head?, Bounds c) (cs : List Char) :
    between? (cs ++ ds) = none ↔ between? cs = none := by
  by_cases hslash : cs.head? = some '/'
  · obtain ⟨cs, rfl⟩ := List.head?_eq_some_iff.mp hslash
    exact named?_append h true cs
  · have hhead : (cs ++ ds).head? ≠ some '/' := by
      cases cs with
      | nil => exact fun hd => (h _ hd).notSlash rfl
      | cons c cs => exact hslash
    rw [between?_of_ne hhead, between?_of_ne hslash]
    exact named?_append h false cs

theorem bounds_angle (rest : List Char) : ∀ c ∈ ('<' :: rest).head?, Bounds c := by
  rintro _ ⟨⟩
  exact ⟨by decide, by decide⟩

theorem takeWhile_of_not_mem (h : '>' ∉ cs) : cs.takeWhile (· != '>') = cs :=
  List.takeWhile_eq_self_iff.mpr (forall_ne_angle h)

theorem takeWhile_angle (h : '>' ∉ inside) (rest : List Char) :
    (inside ++ '>' :: rest).takeWhile (· != '>') = inside :=
  Slice.takeWhile_append (forall_ne_angle h) (by simp)

theorem between?_takeWhile_append (h : ∀ c ∈ ds.head?, Bounds c) (cs : List Char) :
    between? ((cs ++ ds).takeWhile (· != '>')) = none ↔
      between? (cs.takeWhile (· != '>')) = none := by
  by_cases hmem : '>' ∈ cs
  · obtain ⟨inside, rest, rfl, hinside⟩ := List.eq_append_cons_of_mem hmem
    rw [List.append_assoc, List.cons_append, takeWhile_angle hinside, takeWhile_angle hinside]
  · rw [List.takeWhile_append_of_pos (forall_ne_angle hmem), takeWhile_of_not_mem hmem]
    refine between?_append (fun c hc => ?_) cs
    rw [List.head?_takeWhile] at hc
    exact h c (Option.filter_eq_some_iff.mp hc).1

theorem read_of_not_mem (h : '>' ∉ cs) (n : Nat) : read ⟨n, '<' :: cs⟩ = none := by
  refine Option.eq_none_iff_forall_ne_some.mpr fun p hread => ?_
  obtain ⟨taken, htaken⟩ := afterAngle_of_read hread
  have hcs : '<' :: cs = taken ++ '>' :: p.2.chars := htaken
  have hangle : '>' ∈ '<' :: cs := by
    rw [hcs]
    exact List.mem_append_right taken List.mem_cons_self
  exact h (List.mem_of_ne_of_mem (by decide) hangle)

theorem read_of_between? (h : between? (cs.takeWhile (· != '>')) = none) (n : Nat) :
    read ⟨n, '<' :: cs⟩ = none := by
  by_cases hmem : '>' ∈ cs
  · obtain ⟨inside, rest, rfl, hinside⟩ := List.eq_append_cons_of_mem hmem
    obtain ⟨m, hm⟩ := read_angles hinside n rest
    rw [takeWhile_angle hinside] at h
    rw [hm, h]
    rfl
  · exact read_of_not_mem hmem n

structure Encloses (tag : Tag) (inside : List Char) : Prop where
  isTag : between? inside = some tag
  noAngle : '>' ∉ inside
  apart : ¬ ['<', '/'] <:+: inside

theorem Encloses.exists_slash {tag : Tag} (h : tag.Encloses inside)
    (hclosing : tag.closing = true) :
    ∃ cs, inside = '/' :: cs := by
  by_contra hslash
  have hbetween := h.isTag
  have hhead : inside.head? ≠ some '/' := fun hhead => hslash (List.head?_eq_some_iff.mp hhead)
  rw [between?_of_ne hhead, named?, Option.ite_none_right_eq_some] at hbetween
  obtain ⟨-, hsome⟩ := hbetween
  obtain rfl := Option.some.inj hsome
  cases hclosing

end Tag

def TagsApart : List Char → Prop
  | [] => True
  | c :: cs =>
    let inside := cs.takeWhile (· != '>')
    (c = '<' → '>' ∈ cs → Tag.between? inside ≠ none → ¬ ['<', '/'] <:+: inside) ∧ TagsApart cs

namespace TagsApart

theorem suffix (h : TagsApart cs) (hds : ds <:+ cs) : TagsApart ds := by
  obtain ⟨front, rfl⟩ := hds
  induction front with
  | nil => exact h
  | cons c front ih => exact ih h.2

theorem encloses {tag : Tag} (h : TagsApart ('<' :: (inside ++ '>' :: cs))) (hinside : '>' ∉ inside)
    (htag : Tag.between? inside = some tag) : tag.Encloses inside where
  isTag := htag
  noAngle := hinside
  apart := by
    have hhead := h.1 rfl (List.mem_append_right inside List.mem_cons_self)
    rw [Tag.takeWhile_angle hinside] at hhead
    exact hhead (by simp [htag])

theorem append (h : TagsApart ds) (hcs : '<' ∉ cs) : TagsApart (cs ++ ds) := by
  induction cs with
  | nil => exact h
  | cons c cs ih =>
    rw [List.mem_cons, not_or] at hcs
    exact ⟨fun hc => absurd hc.symm hcs.1, ih hcs.2⟩

theorem angles (h : TagsApart cs) (hopen : '<' ∉ inside) (hclose : '>' ∉ inside) :
    TagsApart ('<' :: (inside ++ '>' :: cs)) := by
  refine ⟨fun _ _ _ => ?_, (@append ['>'] cs h (by decide)).append hopen⟩
  rw [Tag.takeWhile_angle hclose]
  exact fun hin => hopen (hin.subset List.mem_cons_self)

theorem written {t : List Char} (h : TagsApart cs) (closing : Bool) (ht : Tag.isTagName t = true)
    (hopen : '<' ∉ inside) (hclose : '>' ∉ inside) :
    TagsApart (Tag.written closing t inside ++ cs) := by
  have hangles := h.angles (Tag.not_mem_inside ht (by decide) (by decide) hopen closing)
    (Tag.not_mem_inside ht (by decide) (by decide) hclose closing)
  simpa [Tag.written] using hangles

end TagsApart

namespace Forest

theorem tagsApart_append (f : Forest) (h : TagsApart ds) : TagsApart (f.chars ++ ds) := by
  induction f generalizing ds with
  | nil => exact h
  | text cs noAngle rest ih =>
    rw [chars, List.append_assoc]
    exact (ih h).append noAngle
  | void tag _ rest ih =>
    rw [chars, List.append_assoc]
    exact (ih h).written false tag.isName tag.noAngles.1 tag.noAngles.2
  | element tag _ children rest ihchildren ih =>
    rw [chars]
    simp only [List.append_assoc]
    exact (ihchildren ((ih h).written true tag.isName List.not_mem_nil List.not_mem_nil)).written
      false tag.isName tag.noAngles.1 tag.noAngles.2

theorem tagsApart (f : Forest) : TagsApart f.chars := by
  have happart := @tagsApart_append [] f trivial
  rwa [List.append_nil] at happart

end Forest

end EmailTemplates.Source
