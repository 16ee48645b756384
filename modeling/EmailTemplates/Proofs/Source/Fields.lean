import EmailTemplates.Proofs.Source.Scalars
import EmailTemplates.Source.Import

namespace EmailTemplates.Source

open EmailTemplates.Text (Slice byteLength isBlank isNameChar isWord)
open Outcome (map_add_map_add)

variable {cs rest : List Char}

theorem find?_pair (xs : List Scalar) (name : String) :
    (Scalar.find? xs name).map Scalar.value = (xs.map Scalar.pair).lookup name := by
  rw [Scalar.find?]
  induction xs with
  | nil => rfl
  | cons x xs ih =>
    rw [List.map_cons, Scalar.pair, List.lookup_cons, List.find?_cons]
    by_cases h : x.name = name
    · simp [h]
    · have hname : (x.name == name) = false := by simpa using h
      have hkey : (name == x.name) = false := by simpa using Ne.symm h
      simp [hname, hkey, ih]

namespace Field

def chars (f : String × String) : List Char :=
  ' ' :: ' ' :: (f.1.toList ++ ':' :: ' ' :: (Quoted.encode f.2.toList ++ [',']))

def body (fs : List (String × String)) : List Char :=
  fs.flatMap fun f => chars f ++ ['\n']

theorem body_cons (f : String × String) (fs : List (String × String)) (rest : List Char) :
    body (f :: fs) ++ rest = [' ', ' '] ++ (f.1.toList ++ ':' :: ' ' :: (Quoted.encode f.2.toList ++
      ([',', '\n'] ++ (body fs ++ rest)))) := by
  have hchars (as bs cs : List Char) : ' ' :: ' ' :: (as ++ ':' :: ' ' :: (bs ++ [','])) ++ ['\n'] ++
      cs ++ rest = [' ', ' '] ++ (as ++ ':' :: ' ' :: (bs ++ ([',', '\n'] ++ (cs ++ rest)))) := by
    simp
  exact hchars _ _ _

theorem advances_readField : Slice.Advances Scalar.readField := by
  intro s a rest h
  obtain ⟨⟨name, s1⟩, h1, h⟩ := Option.bind_eq_some_iff.mp h
  obtain ⟨s2, h2, h⟩ := Option.bind_eq_some_iff.mp h
  obtain ⟨⟨raw, s3⟩, h3, h⟩ := Option.bind_eq_some_iff.mp h
  cases h
  have l1 := length_identifier h1
  have d1 := Slice.length_dropWhile Text.isBlank s1
  have l2 := Slice.length_expect h2
  have d2 := Slice.length_dropWhile Text.isBlank s2
  have l3 := length_readQuoted h3
  simp only [Slice.skipBlanks] at l2 l3
  omega

theorem passes_readField (h : ∀ c ∈ cs, isNameChar c = false) :
    Slice.Passes Scalar.readField cs rest := by
  refine Slice.passes_of_forall fun us vs huv hne n => ?_
  have hhead := Slice.head_append hne (fun c hc => h c (by simp [huv, hc])) rest
  have hread : Scalar.readField ⟨n, vs ++ rest⟩ = (identifier ⟨n, vs ++ rest⟩).bind _ := rfl
  rw [hread, identifier_eq_none hhead]
  rfl

theorem readField_chars {name value : String} (h : IsIdentifier name.toList) (n : Nat)
    (rest : List Char) : ∃ k m, Scalar.readField ⟨n, name.toList ++ ':' :: ' ' ::
      (Quoted.encode value.toList ++ rest)⟩ =
        some (⟨name, ⟨k, Quoted.escape value.toList⟩⟩, ⟨m, rest⟩) := by
  have hquote : ∀ c ∈ (Quoted.encode value.toList ++ rest).head?, isBlank c = false := by
    intro c hc
    obtain rfl : '\'' = c := Option.some.inj hc
    decide
  have heq (s : Slice) : Scalar.readField s = (identifier s).bind fun x =>
      (x.2.skipBlanks.expect ':').bind fun s => (Quoted.read s.skipBlanks).bind fun p =>
        some (⟨x.1.toString, p.1⟩, p.2) := rfl
  rw [heq, identifier_append h n (Slice.head_cons (by decide) _), Option.bind_some,
    Slice.skipBlanks_self _ (Slice.head_cons (by decide) _), Slice.expect_cons, Option.bind_some,
    Slice.skipBlanks_blank _ hquote, Quoted.read_encode, Option.bind_some]
  simp only [Slice.toString, String.ofList_toList]
  exact ⟨_, _, rfl⟩

theorem findAll_body {fs : List (String × String)} (h : ∀ f ∈ fs, IsIdentifier f.1.toList)
    (n : Nat) : ((⟨n, body fs⟩ : Slice).findAll Scalar.readField).map Scalar.pair = fs := by
  induction fs generalizing n with
  | nil =>
    have hnil : (⟨n, []⟩ : Slice).findAll Scalar.readField = [] :=
      @Slice.findAll_eq_nil Scalar Scalar.readField [] trivial n fun _ => rfl
    rw [body, List.flatMap_nil, hnil, List.map_nil]
  | cons f fs ih =>
    obtain ⟨hf, hfs⟩ := List.forall_mem_cons.mp h
    have hcons := body_cons f fs []
    rw [List.append_nil, List.append_nil] at hcons
    obtain ⟨k, m, hk⟩ := @readField_chars _ f.2 hf (n + byteLength [' ', ' '])
      ([',', '\n'] ++ body fs)
    have hpair : Scalar.pair ⟨f.1, ⟨k, Quoted.escape f.2.toList⟩⟩ = f := by
      rw [Scalar.pair, Scalar.value, Quoted.unescape_escape, String.ofList_toList]
    rw [hcons, Slice.findAll_append advances_readField (passes_readField (by decide)),
      Slice.findAll_of_some advances_readField hk,
      Slice.findAll_append advances_readField (passes_readField (by decide)), List.map_cons, hpair,
      ih hfs]

def isPlain (c : Char) : Bool :=
  ! ['\'', '"', '`', '{', '\x7d'].contains c

theorem objectLength_plain (h : ∀ c ∈ cs, isPlain c = true) (rest : List Char) :
    HeaderObject.bodyLength none 0 (cs ++ rest) =
      (HeaderObject.bodyLength none 0 rest).map (· + cs.length) := by
  induction cs with
  | nil => simp
  | cons c cs ih =>
    obtain ⟨hc, hcs⟩ := List.forall_mem_cons.mp h
    simp only [isPlain, List.contains_cons, List.contains_nil, Bool.or_false, Bool.not_eq_true',
      Bool.or_eq_false_iff, beq_eq_false_iff_ne] at hc
    obtain ⟨hquote, hdouble, htick, hopen, hclose⟩ := hc
    rw [List.cons_append, HeaderObject.bodyLength.eq_def]
    simp only [hquote, hdouble, htick, hopen, hclose, or_self, if_false]
    rw [ih hcs, map_add_map_add, List.length_cons, Nat.add_comm 1]

theorem isPlain_of_isNameChar {c : Char} (h : isNameChar c = true) : isPlain c = true := by
  rw [isPlain, Bool.not_eq_true', ← Bool.not_eq_true, List.contains_iff_mem]
  intro hmem
  have hall : ∀ c ∈ ['\'', '"', '`', '{', '\x7d'], isNameChar c = false := by decide
  rw [hall c hmem] at h
  cases h

theorem objectLength_body {fs : List (String × String)} (h : ∀ f ∈ fs, IsIdentifier f.1.toList)
    (rest : List Char) : HeaderObject.bodyLength none 0 (body fs ++ '\x7d' :: rest) =
      some (body fs).length := by
  induction fs with
  | nil => rw [body, List.flatMap_nil, List.nil_append, HeaderObject.bodyLength]; rfl
  | cons f fs ih =>
    obtain ⟨hf, hfs⟩ := List.forall_mem_cons.mp h
    have hname : ∀ c ∈ f.1.toList, isPlain c = true := fun c hc =>
      isPlain_of_isNameChar (hf.chars c hc)
    have hlen := congrArg List.length (body_cons f fs [])
    have hcolon (cs : List Char) : ':' :: ' ' :: cs = [':', ' '] ++ cs := rfl
    rw [body_cons, objectLength_plain (by decide), objectLength_plain hname, hcolon,
      objectLength_plain (by decide), Quoted.objectLength_encode, objectLength_plain (by decide),
      ih hfs]
    simp only [Option.map_some, Option.some.injEq]
    simp only [List.append_nil, List.length_append, List.length_cons, List.length_nil] at hlen ⊢
    omega

end Field

def optionalPair (name : String) (value : Option String) : List (String × String) :=
  (value.map (Prod.mk name)).toList

theorem lookup_optionalPair_append (name key : String) (value : Option String)
    (rest : List (String × String)) : (optionalPair name value ++ rest).lookup key =
      if key = name then value.or (rest.lookup key) else rest.lookup key := by
  cases value with
  | none => simp [optionalPair]
  | some value =>
    by_cases h : key = name
    · simp [optionalPair, h]
    · have hne : (key == name) = false := by simpa using h
      simp [optionalPair, List.lookup_cons, h, hne]

def headerFields (h : Header) : List (String × String) :=
  optionalPair "emoji" h.emoji ++ (("title", h.title) :: optionalPair "subtitle" h.subtitle)

def headerNames : List String :=
  ["emoji", "title", "subtitle"]

theorem forall_mem_optionalPair {p : String × String → Prop} {name : String}
    {value : Option String} : (∀ x ∈ optionalPair name value, p x) ↔ ∀ s ∈ value, p (name, s) := by
  cases value <;> simp [optionalPair]

theorem forall_mem_headerFields {p : String × String → Prop} {h : Header} :
    (∀ f ∈ headerFields h, p f) ↔ (∀ s ∈ h.emoji, p ("emoji", s)) ∧ p ("title", h.title) ∧
      ∀ s ∈ h.subtitle, p ("subtitle", s) := by
  rw [headerFields, List.forall_mem_append, List.forall_mem_cons, forall_mem_optionalPair,
    forall_mem_optionalPair]

theorem mem_headerFields (h : Header) : ∀ f ∈ headerFields h, f.1 ∈ headerNames := by
  rw [forall_mem_headerFields]
  simp [headerNames]

theorem isIdentifier_headerFields (h : Header) :
    ∀ f ∈ headerFields h, IsIdentifier f.1.toList := by
  have hne : ∀ name ∈ headerNames, name.toList ≠ [] := by decide
  have hchars : ∀ name ∈ headerNames, ∀ c ∈ name.toList, isNameChar c = true := by decide
  have hhead : ∀ name ∈ headerNames, ∀ c ∈ name.toList.head?, c.isDigit = false := by decide
  intro f hf
  have hname := mem_headerFields h f hf
  exact ⟨hne _ hname, hchars _ hname, hhead _ hname⟩

theorem lookup_headerFields (h : Header) : (headerFields h).lookup "emoji" = h.emoji ∧
    (headerFields h).lookup "title" = some h.title ∧
      (headerFields h).lookup "subtitle" = h.subtitle := by
  obtain ⟨emoji, title, subtitle⟩ := h
  cases emoji <;> cases subtitle <;> exact ⟨rfl, rfl, rfl⟩

def headerLines (h : Header) : List Line :=
  .header :: ((headerFields h).map fun f => .loose (Field.chars f)) ++ [.loose ['\x7d', ';']]

theorem written_headerLines (h : Header) (rest : List Char) :
    Line.written (headerLines h) ++ rest = "export".toList ++ ' ' :: ("const".toList ++ ' ' ::
      ("header".toList ++ ' ' :: '=' :: ' ' :: '{' :: '\n' :: (Field.body (headerFields h) ++
        '\x7d' :: ';' :: '\n' :: rest))) := by
  have hfields : Line.written ((headerFields h).map fun f => .loose (Field.chars f)) =
      Field.body (headerFields h) := List.flatMap_map _ _ _
  have hend : Line.written [.loose ['\x7d', ';']] = ['\x7d', ';', '\n'] := rfl
  rw [headerLines, List.cons_append, Line.written_cons, Line.header_append, Line.written_append,
    hfields, hend]
  simp only [List.append_assoc, List.cons_append, List.nil_append]

theorem readStart_eq (n : Nat) (rest : List Char) :
    ∃ m, HeaderObject.readStart ⟨n, "export".toList ++ ' ' :: ("const".toList ++ ' ' ::
      ("header".toList ++ ' ' :: '=' :: ' ' :: '{' :: rest))⟩ = some ((), ⟨m, rest⟩) := by
  have heq (s : Slice) : HeaderObject.readStart s = (s.expectText "export").bind fun s =>
      s.skipBlanks?.bind fun s => (s.expectText "const").bind fun s => s.skipBlanks?.bind fun s =>
        (s.expectText "header").bind fun s => (skipWordType s.skipBlanks).bind fun s =>
          (s.expect '=').bind fun s => (s.skipBlanks.expect '{').bind fun s => some ((), s) := rfl
  have hconst (cs : List Char) : ∀ c ∈ ("const".toList ++ cs).head?, isBlank c = false :=
    Slice.head_append (by decide) (by decide) _
  have hheader (cs : List Char) : ∀ c ∈ ("header".toList ++ cs).head?, isBlank c = false :=
    Slice.head_append (by decide) (by decide) _
  have htype (m : Nat) (cs : List Char) : skipWordType ⟨m, '=' :: cs⟩ = some ⟨m, '=' :: cs⟩ := by
    rw [skipWordType, Slice.expect_of_ne (by decide)]
  rw [heq, Slice.expectText_append, Option.bind_some, Slice.skipBlanks?_blank _ (hconst _),
    Option.bind_some, Slice.expectText_append, Option.bind_some,
    Slice.skipBlanks?_blank _ (hheader _), Option.bind_some, Slice.expectText_append,
    Option.bind_some, Slice.skipBlanks_blank _ (Slice.head_cons (by decide) _), htype, Option.bind_some,
    Slice.expect_cons, Option.bind_some, Slice.skipBlanks_blank _ (Slice.head_cons (by decide) _),
    Slice.expect_cons, Option.bind_some]
  exact ⟨_, rfl⟩

def prunedHeader (h : Header) : Header :=
  ⟨h.emoji.bind nonempty?, h.title, h.subtitle.bind nonempty?⟩

theorem bind_nonempty? {value : Option String} (h : value ≠ some "") :
    value.bind nonempty? = value := by
  cases value with
  | none => rfl
  | some s =>
    have hs : s ≠ "" := fun hs => h (congrArg some hs)
    simp [nonempty?, hs]

theorem prunedHeader_eq {h : Header} (he : h.emoji ≠ some "") (hs : h.subtitle ≠ some "") :
    prunedHeader h = h := by
  rw [prunedHeader, bind_nonempty? he, bind_nonempty? hs]

theorem headerObject?_written {pre : List Line}
    (hpre : ∀ l ∈ pre, l.IsFair ["export", "const", "header"]) (h : Header) (n : Nat) (rest : List Char) :
    ∃ whole m, headerObject? ⟨n, Line.written pre ++ (Line.written (headerLines h) ++ rest)⟩ =
      some (whole, ⟨m, '\n' :: Field.body (headerFields h)⟩) := by
  obtain ⟨m, hread⟩ := readStart_eq (n + byteLength (Line.written pre))
    ('\n' :: (Field.body (headerFields h) ++ '\x7d' :: ';' :: '\n' :: rest))
  rw [← written_headerLines] at hread
  have hfind := (Slice.find_append (Line.passes_written ledBy_readStart (by decide) hpre) n).trans
    (Slice.find_of_some hread)
  have hlen : HeaderObject.bodyLength none 0 ('\n' :: (Field.body (headerFields h) ++
      '\x7d' :: ';' :: '\n' :: rest)) = some ('\n' :: Field.body (headerFields h)).length := by
    have hline := @Field.objectLength_plain ['\n'] (by decide)
      (Field.body (headerFields h) ++ '\x7d' :: ';' :: '\n' :: rest)
    rwa [Field.objectLength_body (isIdentifier_headerFields h)] at hline
  have htake := Slice.take_append m ('\n' :: Field.body (headerFields h))
    ('\x7d' :: ';' :: '\n' :: rest)
  rw [headerObject?, hfind]
  simp only [Option.bind_eq_bind, Option.bind_some, hlen]
  exact ⟨_, _, congrArg (fun body => some (_, body)) htake⟩

theorem header_written {pre : List Line}
    (hpre : ∀ l ∈ pre, l.IsFair ["export", "const", "header"]) {h : Header}
    (ht : Text.isBlankText h.title = false) (n : Nat) (rest : List Char) :
    header ⟨n, Line.written pre ++ (Line.written (headerLines h) ++ rest)⟩ =
      .ok (prunedHeader h) := by
  obtain ⟨whole, m, hobject⟩ := headerObject?_written hpre h n rest
  obtain ⟨hemoji, htitle, hsubtitle⟩ := lookup_headerFields h
  have hline := @Slice.findAll_append Scalar Scalar.readField ['\n']
    (Field.body (headerFields h)) Field.advances_readField (Field.passes_readField (by decide)) m
  have hfields : (Slice.findAll Scalar.readField ⟨m, '\n' :: Field.body (headerFields h)⟩).map
      Scalar.pair = headerFields h :=
    (congrArg _ hline).trans (Field.findAll_body (isIdentifier_headerFields h) _)
  have hfield (name : String) : (Scalar.find? (Slice.findAll Scalar.readField
      ⟨m, '\n' :: Field.body (headerFields h)⟩) name).map Scalar.value =
        (headerFields h).lookup name := by
    rw [find?_pair, hfields]
  have hnonblank : (some h.title).bind nonblank? = some h.title := by
    simp [nonblank?, ht]
  rw [Source.header, hobject]
  simp only [hfield, hemoji, htitle, hsubtitle, hnonblank, prunedHeader]

end EmailTemplates.Source
