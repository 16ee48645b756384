import EmailTemplates.Proofs.Source.Attribute

namespace EmailTemplates.Source.Attribute

open EmailTemplates.Text (Slice byteLength isBlank)

structure Assignment where
  name : List Char
  gap : List Char
  gap' : List Char
  value : List Char
  nonempty : name ≠ []
  isName : ∀ c ∈ name, isNameChar c = true
  isGap : gap.all isBlank = true
  isGap' : gap'.all isBlank = true
  noQuote : '"' ∉ value

namespace Assignment

def chars (a : Assignment) : List Char :=
  a.name ++ (a.gap ++ '=' :: (a.gap' ++ '"' :: (a.value ++ ['"'])))

def lowercased (a : Assignment) : List Char :=
  a.name.map Char.toLower

theorem chars_append (a : Assignment) (rest : List Char) : a.chars ++ rest =
    a.name ++ (a.gap ++ '=' :: (a.gap' ++ '"' :: (a.value ++ '"' :: rest))) := by
  simp [chars]

theorem isNameChar_head (a : Assignment) (rest : List Char) :
    ∃ c cs, a.chars ++ rest = c :: cs ∧ isNameChar c = true := by
  obtain ⟨c, cs, hname⟩ := List.exists_cons_of_ne_nil a.nonempty
  have hc : isNameChar c = true := a.isName c (by simp [hname])
  rw [chars_append, hname, List.cons_append]
  exact ⟨c, _, rfl, hc⟩

theorem read_chars (a : Assignment) (n : Nat) (rest : List Char) :
    ∃ k l m, read ⟨n, a.chars ++ rest⟩ = some ((⟨k, a.name⟩, ⟨l, a.value⟩), ⟨m, rest⟩) := by
  have hgap (tail : List Char) : ∀ c ∈ (a.gap ++ '=' :: tail).head?, isNameChar c = false := by
    cases hcs : a.gap with
    | nil => exact Slice.head_cons (by decide) _
    | cons b bs =>
      have hb : isBlank b = true := List.all_eq_true.mp a.isGap b (by simp [hcs])
      refine Slice.head_cons (Bool.eq_false_iff.mpr fun hname => ?_) _
      rw [(isBlank_of_isNameChar hname).1] at hb
      cases hb
  have hvalue : ∀ c ∈ a.value, (c != '"') = true := by
    intro c hc
    rw [bne_iff_ne]
    rintro rfl
    exact a.noQuote hc
  have hquote : ∀ c ∈ ('"' :: rest).head?, (c != '"') = false := by simp
  have hskip {gap : List Char} (h : gap.all isBlank = true) {c : Char} (hc : isBlank c = false)
      (k : Nat) (tail : List Char) :
      (⟨k, gap ++ c :: tail⟩ : Slice).skipBlanks = ⟨k + byteLength gap, c :: tail⟩ :=
    Slice.skipBlanks_append k h (Slice.head_cons hc tail)
  rw [chars_append, read, Slice.run_append n a.nonempty a.isName (hgap _)]
  simp only [Option.bind_eq_bind, Option.bind_some, hskip a.isGap (by decide : isBlank '=' = false),
    hskip a.isGap' (by decide : isBlank '"' = false), Slice.expect_cons,
    Slice.sliceTakeWhile_append _ hvalue hquote, Slice.sliceDropWhile_append _ hvalue hquote]
  exact ⟨_, _, _, rfl⟩

end Assignment

structure IsLead (lead : List Char) : Prop where
  noQuote : '"' ∉ lead
  setOff : ∃ c ∈ lead.getLast?, isNameChar c = false

theorem chars_of_expect {c : Char} {s s' : Slice} (h : s.expect c = some s') :
    s.chars = c :: s'.chars := by
  obtain ⟨cs, hcs⟩ := List.head?_eq_some_iff.mp (Slice.head?_of_expect h)
  rw [Slice.expect, hcs] at h
  simp only [if_true, Option.some.injEq] at h
  rw [← h, Slice.chars_drop, hcs]
  rfl

theorem chars_of_read {s : Slice} {p : (Slice × Slice) × Slice} (h : read s = some p) :
    ∃ name sign tail, s.chars = name ++ (sign ++ '"' :: tail) ∧
      (∀ c ∈ name, isNameChar c = true) ∧ ∀ c ∈ sign, isNameChar c = false := by
  obtain ⟨⟨name, s1⟩, h1, h⟩ := Option.bind_eq_some_iff.mp h
  obtain ⟨s2, h2, h⟩ := Option.bind_eq_some_iff.mp h
  obtain ⟨s3, h3, -⟩ := Option.bind_eq_some_iff.mp h
  obtain ⟨hname, hs1⟩ := Slice.chars_of_run h1
  have hgap (s : Slice) : s.chars = s.chars.takeWhile isBlank ++ s.skipBlanks.chars :=
    List.takeWhile_append_dropWhile.symm
  have hblank {cs : List Char} : ∀ c ∈ cs.takeWhile isBlank, isNameChar c = false := by
    intro c hc
    refine Bool.eq_false_iff.mpr fun hname => ?_
    have hb := List.mem_takeWhile_imp hc
    rw [(isBlank_of_isNameChar hname).1] at hb
    cases hb
  refine ⟨s.chars.takeWhile isNameChar,
    s1.chars.takeWhile isBlank ++ '=' :: s2.chars.takeWhile isBlank, s3.chars, ?_,
    fun c hc => List.mem_takeWhile_imp hc, ?_⟩
  · rw [List.append_assoc, List.cons_append, ← chars_of_expect h3, ← hgap, ← chars_of_expect h2,
      ← hgap, hs1, List.takeWhile_append_dropWhile]
  · rw [List.forall_mem_append, List.forall_mem_cons]
    exact ⟨hblank, by decide, hblank⟩

theorem read_lead {lead : List Char} (h : IsLead lead) {c : Char} (hc : isNameChar c = true)
    (n : Nat) (rest : List Char) : read ⟨n, lead ++ c :: rest⟩ = none := by
  cases hread : read ⟨n, lead ++ c :: rest⟩ with
  | none => rfl
  | some p =>
    exfalso
    obtain ⟨name, sign, tail, hchars, hname, hsign⟩ := chars_of_read hread
    obtain ⟨d, hlast, hd⟩ := h.setOff
    have hmem : d ∈ lead := List.mem_of_getLast? hlast
    rcases List.append_eq_append_iff.mp hchars with ⟨more, hmore, -⟩ | ⟨part, hlead, hpart⟩
    · rw [hname d (hmore ▸ List.mem_append_left more hmem)] at hd
      cases hd
    · rcases Slice.mem_parts hpart with ⟨behind, hin, -⟩ | ⟨before, hbefore, hquote⟩
      · rw [hsign c (hin ▸ List.mem_append_right part List.mem_cons_self)] at hc
        cases hc
      · cases before with
        | nil =>
          cases hquote
          revert hc
          decide
        | cons q before =>
          cases hquote
          refine h.noQuote ?_
          rw [hlead, hbefore]
          simp

theorem passes_lead {lead : List Char} (h : IsLead lead) {c : Char} (hc : isNameChar c = true)
    (rest : List Char) : Slice.Passes read lead (c :: rest) := by
  refine Slice.passes_of_forall fun u v huv hv n => read_lead ⟨?_, ?_⟩ hc n rest
  · exact fun hmem => h.noQuote (huv ▸ List.mem_append_right u hmem)
  · obtain ⟨d, hlast, hd⟩ := h.setOff
    rw [huv, List.getLast?_append_of_ne_nil u hv] at hlast
    exact ⟨d, hlast, hd⟩

theorem pairs_lead {lead : List Char} (h : IsLead lead) (a : Assignment) (n : Nat)
    (rest : List Char) :
    ∃ m, pairs ⟨n, lead ++ (a.chars ++ rest)⟩ = (a.name, a.value) :: pairs ⟨m, rest⟩ := by
  obtain ⟨c, cs, hcs, hc⟩ := a.isNameChar_head rest
  have hpass : Slice.Passes read lead (a.chars ++ rest) := hcs ▸ passes_lead h hc cs
  obtain ⟨k, l, m, hread⟩ := a.read_chars (n + byteLength lead) rest
  refine ⟨m, ?_⟩
  rw [pairs, Slice.findAll_append advances_read hpass, Slice.findAll_of_some advances_read hread]
  rfl

inductive Carries (name : String) (value : List Char) : List Char → Prop
  | here {lead : List Char} (a : Assignment) (rest : List Char) : IsLead lead →
      a.lowercased = name.toList → a.value = value → Carries name value (lead ++ (a.chars ++ rest))
  | later {lead rest : List Char} (a : Assignment) : IsLead lead → a.lowercased ≠ name.toList →
      Carries name value rest → Carries name value (lead ++ (a.chars ++ rest))

namespace Carries

variable {name : String} {value cs : List Char}

theorem prepend (h : Carries name value cs) {ds : List Char} (hds : '"' ∉ ds) :
    Carries name value (ds ++ cs) := by
  have hlead {lead : List Char} (h : IsLead lead) : IsLead (ds ++ lead) := by
    obtain ⟨d, hlast, hd⟩ := h.setOff
    refine ⟨fun hmem => (List.mem_append.mp hmem).elim hds h.noQuote, d, ?_, hd⟩
    obtain ⟨es, rfl⟩ := List.getLast?_eq_some_iff.mp hlast
    rw [← List.append_assoc]
    exact List.getLast?_concat
  cases h with
  | here a rest h hname hvalue =>
    rw [← List.append_assoc]
    exact .here a rest (hlead h) hname hvalue
  | later a h hname hrest =>
    rw [← List.append_assoc]
    exact .later a (hlead h) hname hrest

theorem append (h : Carries name value cs) (ds : List Char) : Carries name value (cs ++ ds) := by
  induction h with
  | here a rest h hname hvalue =>
    rw [List.append_assoc, List.append_assoc]
    exact .here a (rest ++ ds) h hname hvalue
  | later a h hname _ ih =>
    rw [List.append_assoc, List.append_assoc]
    exact .later a h hname ih

theorem find?_pairs (h : Carries name value cs) (n : Nat) :
    ((pairs ⟨n, cs⟩).find? fun p => p.1.map Char.toLower == name.toList).map Prod.snd =
      some value := by
  induction h generalizing n with
  | here a rest h hname hvalue =>
    obtain ⟨m, hm⟩ := pairs_lead h a n rest
    have hkey : (a.name.map Char.toLower == name.toList) = true := beq_iff_eq.mpr hname
    simp only [hm, List.find?_cons, hkey, Option.map_some, hvalue]
  | @later lead rest a h hname _ ih =>
    obtain ⟨m, hm⟩ := pairs_lead h a n rest
    have hkey : (a.name.map Char.toLower == name.toList) = false := beq_eq_false_iff_ne.mpr hname
    simp only [hm, List.find?_cons, hkey, ih m]

theorem value?_eq (h : Carries name value cs) : value? name cs = some value := by
  rw [Attribute.value?_eq]
  exact h.find?_pairs 0

theorem value?_written {t inside : List Char} (h : Carries name value inside)
    (ht : ∀ c ∈ t, c.isAlphanum = true) :
    value? name (Tag.written false t inside) = some value := by
  have hquote : '"' ∉ '<' :: t := by
    intro hmem
    rcases List.mem_cons.mp hmem with heq | hmem
    · revert heq
      decide
    · have := ht _ hmem
      revert this
      decide
  have hchars : Tag.written false t inside = '<' :: t ++ (inside ++ ['>']) := by
    simp [Tag.written]
  rw [hchars]
  exact ((h.append ['>']).prepend hquote).value?_eq

end Carries

end EmailTemplates.Source.Attribute
