import EmailTemplates.Proofs.Source.Quiet
import EmailTemplates.Proofs.Text.Plain
import EmailTemplates.Source.Marker
import EmailTemplates.Source.Segment

namespace EmailTemplates

namespace Marker

open Text (Slice byteLength isBlank)

def schemeText (scheme : ColorScheme) : List Char :=
  "scheme:".toList ++ ' ' :: scheme.id.toList

def tail (scheme : Option ColorScheme) : List Char :=
  (scheme.map fun scheme => ' ' :: schemeText scheme).getD []

theorem toList_plain (id : String) :
    ("<!-- block: " ++ id ++ "" ++ " -->").toList = "<!--".toList ++ ' ' ::
      ("block:".toList ++ ' ' :: (id.toList ++ ([] ++ [' ', '-', '-', '>']))) := by
  have hopen : ("<!-- block: " : String).toList =
      "<!--".toList ++ ' ' :: ("block:".toList ++ [' ']) := rfl
  have hend : (" -->" : String).toList = [' ', '-', '-', '>'] := rfl
  have hnone : ("" : String).toList = [] := rfl
  simp only [String.toList_append, hopen, hend, hnone, List.append_assoc, List.cons_append,
    List.nil_append]

theorem toList_schemed (id scheme : String) :
    ("<!-- block: " ++ id ++ (" scheme: " ++ scheme) ++ " -->").toList = "<!--".toList ++ ' ' ::
      ("block:".toList ++ ' ' :: (id.toList ++
        (' ' :: ("scheme:".toList ++ ' ' :: scheme.toList) ++ [' ', '-', '-', '>']))) := by
  have hopen : ("<!-- block: " : String).toList =
      "<!--".toList ++ ' ' :: ("block:".toList ++ [' ']) := rfl
  have hscheme : (" scheme: " : String).toList = ' ' :: ("scheme:".toList ++ [' ']) := rfl
  have hend : (" -->" : String).toList = [' ', '-', '-', '>'] := rfl
  simp only [String.toList_append, hopen, hend, hscheme, List.append_assoc, List.cons_append,
    List.nil_append]

theorem toList_text (m : Marker) :
    m.text.toList = "<!--".toList ++ ' ' :: ("block:".toList ++ ' ' ::
      (m.id.toList ++ (tail m.scheme ++ [' ', '-', '-', '>']))) := by
  obtain ⟨id, scheme⟩ := m
  cases scheme with
  | none => exact toList_plain id
  | some scheme => exact toList_schemed id scheme.id

theorem isIdChar_of_canName {id : String} (h : canName id = true) :
    id.toList ≠ [] ∧ ∀ c ∈ id.toList, isIdChar c = true := by
  obtain ⟨hne, hall⟩ := Bool.and_eq_true_iff.mp h
  exact ⟨by simpa using hne, List.all_eq_true.mp hall⟩

theorem isBlank_of_isIdChar {c : Char} (h : isIdChar c = true) : isBlank c = false := by
  simp only [isIdChar, Bool.or_eq_true, beq_iff_eq] at h
  rcases h with h | rfl
  · exact Text.isBlank_of_isNameChar h
  · decide

theorem isEnd_end (n : Nat) : isEnd ⟨n, [' ', '-', '-', '>']⟩ = true := by
  have hskip := @Slice.skipBlanks_append [' '] ['-', '-', '>'] n (by decide)
    (Slice.head_cons (by decide) _)
  rw [isEnd]
  exact (congrArg (fun s : Slice => s.chars == ['-', '-', '>']) hskip).trans (beq_self_eq_true _)

theorem isEnd_scheme (n : Nat) (more : List Char) :
    isEnd ⟨n, ' ' :: ("scheme:".toList ++ more)⟩ = false := by
  have hword : ∀ c ∈ ("scheme:".toList ++ more).head?, isBlank c = false :=
    Slice.head_append (by decide) (by decide) more
  rw [isEnd, Slice.skipBlanks_blank n hword]
  rfl

theorem id_letters (scheme : ColorScheme) :
    scheme.id.toList ≠ [] ∧ ∀ c ∈ scheme.id.toList, ('a' ≤ c && c ≤ 'z') = true := by
  cases scheme <;> decide

theorem isBlank_of_letter {c : Char} (h : ('a' ≤ c && c ≤ 'z') = true) : isBlank c = false := by
  have hlower : c.isLower = true := by simpa [Char.isLower, Char.le_def] using h
  exact Text.isBlank_of_isNameChar (by simp [Text.isNameChar, Char.isAlphanum, Char.isAlpha, hlower])

theorem readScheme_eq {w : List Char} (hne : w ≠ [])
    (hw : ∀ c ∈ w, ('a' ≤ c && c ≤ 'z') = true) (n : Nat) :
    ∃ k m, readScheme ⟨n, ' ' :: ("scheme:".toList ++ ' ' :: (w ++ [' ', '-', '-', '>']))⟩ =
      some (⟨k, w⟩, ⟨m, [' ', '-', '-', '>']⟩) := by
  have hfirst : ∀ c ∈ ("scheme:".toList ++ ' ' :: (w ++ [' ', '-', '-', '>'])).head?,
      isBlank c = false := Slice.head_append (by decide) (by decide) _
  have hsecond : ∀ c ∈ (w ++ [' ', '-', '-', '>']).head?, isBlank c = false :=
    Slice.head_append hne (fun c hc => isBlank_of_letter (hw c hc)) _
  have hstop : ∀ c ∈ [' ', '-', '-', '>'].head?, ('a' ≤ c && c ≤ 'z') = false :=
    Slice.head_cons (by decide) _
  have hskip := @Slice.skipBlanks?_append [' '] _ n (by decide) (by decide) hfirst
  have hrun (k : Nat) := Slice.run_append k hne hw hstop
  rw [List.singleton_append] at hskip
  rw [readScheme, hskip]
  simp only [Option.bind_eq_bind, Option.bind_some, Slice.expectText_append,
    Slice.skipBlanks_blank _ hsecond, hrun]
  exact ⟨_, _, rfl⟩

theorem isIdChar_head_tail (scheme : Option ColorScheme) :
    ∀ c ∈ (tail scheme ++ [' ', '-', '-', '>']).head?, isIdChar c = false := by
  cases scheme <;> simp [tail] <;> decide

theorem ofComment?_text {m : Marker} (h : canName m.id = true) :
    ofComment? m.text.toList = some m := by
  obtain ⟨id, scheme⟩ := m
  obtain ⟨hne, hid⟩ := isIdChar_of_canName h
  have hblock : ∀ c ∈ ("block:".toList ++ ' ' :: (id.toList ++ (tail scheme ++
      [' ', '-', '-', '>']))).head?, isBlank c = false := Slice.head_append (by decide) (by decide) _
  have hname : ∀ c ∈ (id.toList ++ (tail scheme ++ [' ', '-', '-', '>'])).head?,
      isBlank c = false := Slice.head_append hne (fun c hc => isBlank_of_isIdChar (hid c hc)) _
  have hrun (k : Nat) := Slice.run_append k hne hid (isIdChar_head_tail scheme)
  rw [toList_text, ofComment?, Slice.expectText_append]
  simp only [Option.bind_eq_bind, Option.bind_some, Slice.skipBlanks_blank _ hblock,
    Slice.expectText_append, Slice.skipBlanks_blank _ hname, hrun]
  have hid' (k : Nat) : Slice.toString ⟨k, id.toList⟩ = id := String.ofList_toList
  cases scheme with
  | none =>
    have hend (k : Nat) : isEnd ⟨k, tail none ++ [' ', '-', '-', '>']⟩ = true := isEnd_end k
    simp only [hend, if_true, hid']
    rfl
  | some scheme =>
    obtain ⟨k, l, hread⟩ := readScheme_eq (id_letters scheme).1 (id_letters scheme).2
      (0 + byteLength "<!--".toList + byteLength [' '] + byteLength "block:".toList +
        byteLength [' '] + byteLength id.toList)
    have hscheme : ColorScheme.ofId? (Slice.toString ⟨k, scheme.id.toList⟩) = some scheme :=
      (congrArg ColorScheme.ofId? String.ofList_toList).trans (ColorScheme.ofId?_id scheme)
    have happend (u w v : List Char) :
        ' ' :: (u ++ ' ' :: w) ++ v = ' ' :: (u ++ ' ' :: (w ++ v)) := by simp
    have hchars : tail (some scheme) ++ [' ', '-', '-', '>'] = ' ' :: ("scheme:".toList ++ ' ' ::
        (scheme.id.toList ++ [' ', '-', '-', '>'])) := happend _ _ _
    simp only [hchars, isEnd_scheme, hread, isEnd_end, hscheme, hid', Bool.false_eq_true, if_false,
      if_true]
    rfl

def body (m : Marker) : List Char :=
  "<!--".toList ++ ' ' :: ("block:".toList ++ ' ' :: (m.id.toList ++ (tail m.scheme ++ [' '])))

theorem toList_text_body (m : Marker) : m.text.toList = m.body ++ ['-', '-', '>'] := by
  rw [toList_text, body]
  simp only [List.append_assoc, List.cons_append, List.nil_append]

theorem head?_text (m : Marker) : m.text.toList.head? = some '<' := by
  rw [toList_text]
  rfl

theorem trim_text (m : Marker) : Text.trim m.text.toList = m.text.toList := by
  have hopen : ("<!--" : String).toList = '<' :: ['!', '-', '-'] := rfl
  have hchars : m.text.toList = '<' :: (['!', '-', '-'] ++ ' ' :: ("block:".toList ++ ' ' ::
      (m.id.toList ++ (tail m.scheme ++ [' ']))) ++ ['-', '-'] ++ ['>']) := by
    rw [toList_text_body, body, hopen]
    simp only [List.append_assoc, List.cons_append, List.nil_append]
  rw [hchars]
  exact Text.trim_of_ends (by decide) (by decide) _

def isMarkerChar (c : Char) : Bool :=
  isIdChar c || ['<', '!', ':', ' '].contains c

theorem isMarkerChar_body {m : Marker} (h : canName m.id = true) :
    ∀ c ∈ m.body, isMarkerChar c = true := by
  have hid : ∀ c ∈ m.id.toList, isMarkerChar c = true := fun c hc => by
    simp [isMarkerChar, (isIdChar_of_canName h).2 c hc]
  have htail (scheme : Option ColorScheme) : ∀ c ∈ tail scheme, isMarkerChar c = true := by
    rcases scheme with _ | scheme
    · exact fun c hc => absurd hc List.not_mem_nil
    · cases scheme <;> decide
  simp only [body, List.forall_mem_append, List.forall_mem_cons]
  exact ⟨by decide, by decide, by decide, by decide, hid, htail m.scheme, by decide, by simp⟩

theorem ne_of_isMarkerChar {c d : Char} (hc : isMarkerChar c = true) (hd : isMarkerChar d = false) :
    c ≠ d := by
  rintro rfl
  rw [hc] at hd
  cases hd

theorem not_mem_body {m : Marker} (h : canName m.id = true) {c : Char}
    (hc : isMarkerChar c = false) : c ∉ m.body :=
  fun hm => ne_of_isMarkerChar (isMarkerChar_body h c hm) hc rfl

theorem encode_text {m : Marker} (h : canName m.id = true) :
    Source.Literal.encode m.text.toList = m.text.toList := by
  have hplain : ∀ c ∈ m.text.toList, Source.Literal.isSpecial c = false ∧ c ≠ '{' := by
    rw [toList_text_body, List.forall_mem_append]
    refine ⟨fun c hc => ?_, by decide⟩
    have hmarker := isMarkerChar_body h c hc
    have hne {d : Char} (hd : isMarkerChar d = false) : c ≠ d := ne_of_isMarkerChar hmarker hd
    refine ⟨?_, hne (by decide)⟩
    simp only [Source.Literal.isSpecial, Bool.or_eq_false_iff, beq_eq_false_iff_ne]
    exact ⟨⟨hne (by decide), hne (by decide)⟩, hne (by decide)⟩
  have henc := Source.Literal.encode_append_of_plain hplain []
  rwa [List.append_nil, Source.Literal.encode_nil, List.append_nil] at henc

end Marker

namespace Source.Segment

open Text (Slice byteLength)

theorem not_prefix_arrow {cs : List Char} (hne : cs ≠ []) (h : '>' ∉ cs) (rest : List Char) :
    ¬ ['-', '-', '>'] <+: cs ++ (['-', '-', '>'] ++ rest) := by
  rintro ⟨t, ht⟩
  match cs, hne with
  | [a], _ => simp at ht
  | [a, b], _ => simp at ht
  | a :: b :: c :: cs, _ =>
    simp only [List.cons_append, List.nil_append, List.cons.injEq] at ht
    obtain ⟨-, -, rfl, -⟩ := ht
    simp at h

theorem next_comment {cs : List Char} (h : '>' ∉ cs) (hopen : "<!--".toList <+: cs) (n : Nat)
    (rest : List Char) :
    ∃ m, next ⟨n, cs ++ (['-', '-', '>'] ++ rest)⟩ = (.comment, ⟨m, rest⟩) := by
  have harrow : ("-->" : String).toList = ['-', '-', '>'] := rfl
  have hsplit := @Slice.splitAt?_append cs rest n "-->" (by
    intro u v huv hv
    rw [harrow]
    exact not_prefix_arrow hv (fun hm => h (by rw [huv]; exact List.mem_append_right u hm)) rest)
  rw [harrow] at hsplit
  have hp : "<!--".toList.isPrefixOf (cs ++ (['-', '-', '>'] ++ rest)) = true :=
    List.isPrefixOf_iff_prefix.mpr (hopen.trans (List.prefix_append _ _))
  refine ⟨n + byteLength (cs ++ ['-', '-', '>']), ?_⟩
  rw [next, comment?]
  simp only [hp, if_true, hsplit]
  rfl

theorem next_marker {m : Marker} (h : Marker.canName m.id = true) (n : Nat) (rest : List Char) :
    ∃ k, next ⟨n, m.text.toList ++ rest⟩ = (.comment, ⟨k, rest⟩) := by
  rw [Marker.toList_text_body, List.append_assoc]
  exact next_comment (Marker.not_mem_body h (by decide)) (List.prefix_append _ _) n rest

end Source.Segment

end EmailTemplates
