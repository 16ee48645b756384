import EmailTemplates.Text.Span

namespace EmailTemplates

namespace Text

variable {text : String} {cs ds es fs before between after : List Char} {i m n : Nat}

theorem eq_nil_of_byteLength (h : byteLength cs = 0) : cs = [] := by
  cases cs with
  | nil => rfl
  | cons c cs =>
    have hpos := c.utf8Size_pos
    rw [byteLength_cons] at h
    omega

theorem exists_append_of_byteLength_le (h : cs ++ ds = es ++ fs)
    (hle : byteLength cs ≤ byteLength es) : ∃ between, es = cs ++ between ∧ ds = between ++ fs := by
  rcases List.append_eq_append_iff.mp h with ⟨between, hes, hds⟩ | ⟨between, hcs, hfs⟩
  · exact ⟨between, hes, hds⟩
  · rw [hcs, byteLength_append] at hle
    obtain rfl : between = [] := eq_nil_of_byteLength (by omega)
    exact ⟨[], by rw [hcs, List.append_nil, List.append_nil], by rw [hfs, List.nil_append]; rfl⟩

theorem eq_of_byteLength_eq (h : cs ++ ds = es ++ fs) (heq : byteLength cs = byteLength es) :
    cs = es ∧ ds = fs := by
  obtain ⟨between, hes, hds⟩ := exists_append_of_byteLength_le h (Nat.le_of_eq heq)
  rw [hes, byteLength_append] at heq
  obtain rfl : between = [] := eq_nil_of_byteLength (by omega)
  exact ⟨by rw [hes, List.append_nil], hds⟩

theorem utf8ByteSize_ofList (cs : List Char) : (String.ofList cs).utf8ByteSize = byteLength cs := by
  induction cs with
  | nil => rfl
  | cons c cs ih =>
    rw [← List.singleton_append, String.ofList_append, String.utf8ByteSize_append, ih,
      ← String.singleton_eq_ofList, String.utf8ByteSize_singleton]
    rfl

theorem isValid_append (h : text.toList = before ++ after) :
    (⟨byteLength before⟩ : String.Pos.Raw).IsValid text := by
  rw [String.Pos.Raw.isValid_iff_exists_append]
  refine ⟨.ofList before, .ofList after, ?_, ?_⟩
  · rw [← String.ofList_append, ← h, String.ofList_toList]
  · rw [← utf8ByteSize_ofList]
    rfl

theorem exists_append_of_isValid (h : (⟨n⟩ : String.Pos.Raw).IsValid text) :
    ∃ before after, text.toList = before ++ after ∧ byteLength before = n := by
  obtain ⟨s, t, rfl, hn⟩ := String.Pos.Raw.isValid_iff_exists_append.mp h
  refine ⟨s.toList, t.toList, String.toList_append, ?_⟩
  rw [← utf8ByteSize_ofList, String.ofList_toList]
  exact (congrArg String.Pos.Raw.byteIdx hn).symm

theorem extract_toByteArray (h : text.toList = before ++ (between ++ after)) :
    text.toByteArray.extract (byteLength before) (byteLength (before ++ between)) =
      (String.ofList between).toByteArray := by
  have hsize (cs : List Char) : byteLength cs = (String.ofList cs).toByteArray.size :=
    (utf8ByteSize_ofList cs).symm
  have htext : text = .ofList before ++ (.ofList between ++ .ofList after) := by
    rw [← String.ofList_append, ← String.ofList_append, ← h, String.ofList_toList]
  calc text.toByteArray.extract (byteLength before) (byteLength (before ++ between))
    _ = ((String.ofList before).toByteArray ++
          (String.ofList between ++ String.ofList after).toByteArray).extract
            (byteLength before + 0) (byteLength before + byteLength between) := by
        rw [htext, String.toByteArray_append, byteLength_append, Nat.add_zero]
    _ = (String.ofList between ++ String.ofList after).toByteArray.extract 0
          (byteLength between) :=
        ByteArray.extract_append_size_add' (hsize before)
    _ = (String.ofList between).toByteArray := by
        rw [String.toByteArray_append, ByteArray.extract_append_eq_left (hsize between)]

theorem lt_charsBefore_iff :
    i < charsBefore cs n ↔ i < cs.length ∧ byteLength (cs.take i) < n := by
  induction cs generalizing i n with
  | nil => simp [charsBefore]
  | cons c cs ih =>
    rw [charsBefore]
    split
    · omega
    · cases i with
      | zero =>
        simp only [List.length_cons, List.take_zero, byteLength_nil]
        omega
      | succ i =>
        rw [Nat.add_lt_add_iff_right, ih, List.length_cons, Nat.add_lt_add_iff_right,
          List.take_succ_cons, byteLength_cons, Nat.lt_sub_iff_add_lt']

theorem charsBefore_le_length : charsBefore cs n ≤ cs.length :=
  Nat.not_lt.mp fun h => Nat.lt_irrefl _ (lt_charsBefore_iff.mp h).1

theorem charsBefore_mono (h : m ≤ n) : charsBefore cs m ≤ charsBefore cs n := by
  refine Nat.not_lt.mp fun hlt => ?_
  obtain ⟨hlength, hbytes⟩ := lt_charsBefore_iff.mp hlt
  exact Nat.lt_irrefl _ (lt_charsBefore_iff.mpr ⟨hlength, Nat.lt_of_lt_of_le hbytes h⟩)

theorem charsBefore_append (before after : List Char) :
    charsBefore (before ++ after) (byteLength before) = before.length := by
  induction before with
  | nil => cases after <;> rfl
  | cons c cs ih =>
    have hpos : c.utf8Size + byteLength cs ≠ 0 := by
      have hsize := c.utf8Size_pos
      omega
    rw [List.cons_append, byteLength_cons, charsBefore, if_neg hpos, Nat.add_sub_cancel_left, ih,
      List.length_cons]

end Text

namespace Span

open Text

theorem toChars_same_stretch (text : String) (span : Span) (h : span.start ≤ span.stop) :
    ∃ first last, span.toChars text.toList = ⟨first, last⟩ ∧ first ≤ last ∧ last ≤ text.length ∧
      (∀ i < text.length, (first ≤ i ∧ i < last ↔
        span.start ≤ byteLength (text.toList.take i) ∧
          byteLength (text.toList.take i) < span.stop)) ∧
      ((⟨span.start⟩ : String.Pos.Raw).IsValid text → (⟨span.stop⟩ : String.Pos.Raw).IsValid text →
        (String.ofList (text.toList.extract first last)).toByteArray =
          text.toByteArray.extract span.start span.stop) := by
  refine ⟨_, _, rfl, charsBefore_mono h, ?_, fun i hi => ?_, fun hstart hstop => ?_⟩
  · rw [← String.length_toList]
    exact charsBefore_le_length
  · rw [← String.length_toList] at hi
    rw [← Nat.not_lt, lt_charsBefore_iff, lt_charsBefore_iff, and_iff_right hi, and_iff_right hi,
      Nat.not_lt]
  · -- both ends split the text in two, so that what is between them is a part of it
    obtain ⟨start, stop⟩ := span
    obtain ⟨before, tail, htext, rfl⟩ := exists_append_of_isValid hstart
    obtain ⟨upTo, after, htext', rfl⟩ := exists_append_of_isValid hstop
    obtain ⟨between, rfl, rfl⟩ := exists_append_of_byteLength_le (htext.symm.trans htext') h
    have hfirst : charsBefore text.toList (byteLength before) = before.length := by
      rw [htext, charsBefore_append]
    have hlast : charsBefore text.toList (byteLength (before ++ between)) =
        (before ++ between).length := by
      rw [htext', charsBefore_append]
    rw [extract_toByteArray htext, hfirst, hlast, List.extract_eq_take_drop, htext,
      List.drop_left, List.length_append, Nat.add_sub_cancel_left, List.take_left]

theorem toChars_same_stretch_accented :
    (1 : Nat) ≤ 6 ∧ (⟨1⟩ : String.Pos.Raw).IsValid "né€ 𝒳" ∧
      (⟨6⟩ : String.Pos.Raw).IsValid "né€ 𝒳" ∧
      (⟨1, 6⟩ : Span).toChars "né€ 𝒳".toList = ⟨1, 3⟩ ∧
      "é€".toByteArray = "né€ 𝒳".toByteArray.extract 1 6 := by
  have hstart : (⟨1⟩ : String.Pos.Raw).IsValid "né€ 𝒳" :=
    @isValid_append "né€ 𝒳" ['n'] ['é', '€', ' ', '𝒳'] (by decide)
  have hstop : (⟨6⟩ : String.Pos.Raw).IsValid "né€ 𝒳" :=
    @isValid_append "né€ 𝒳" ['n', 'é', '€'] [' ', '𝒳'] (by decide)
  have hchars : (⟨1, 6⟩ : Span).toChars "né€ 𝒳".toList = ⟨1, 3⟩ := by decide
  obtain ⟨first, last, hspan, -, -, -, hslice⟩ :=
    toChars_same_stretch "né€ 𝒳" ⟨1, 6⟩ (by decide)
  cases hchars.symm.trans hspan
  exact ⟨by decide, hstart, hstop, hchars, hslice hstart hstop⟩

example : (⟨2, 100⟩ : Span).toChars "né€ 𝒳".toList = ⟨2, 5⟩ := by decide

end Span

end EmailTemplates
