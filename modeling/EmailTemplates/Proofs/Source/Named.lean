import EmailTemplates.Proofs.Source.Envelope
import EmailTemplates.Proofs.Text.Ends

namespace EmailTemplates

open Text (Slice isNameChar isWord)

namespace Marker

theorem canName_ofList {cs : List Char} (hne : cs ≠ []) (h : ∀ c ∈ cs, isIdChar c = true) :
    canName (.ofList cs) = true := by
  rw [canName, String.toList_ofList, Bool.and_eq_true, List.all_eq_true]
  exact ⟨by simpa using hne, h⟩

theorem ne_empty_of_canName {id : String} (h : canName id = true) : id ≠ "" := by
  rintro rfl
  exact absurd h (by decide)

theorem canName_of_ofComment? {cs : List Char} {m : Marker} (h : ofComment? cs = some m) :
    canName m.id = true := by
  obtain ⟨s1, -, h⟩ := Option.bind_eq_some_iff.mp h
  obtain ⟨s2, -, h⟩ := Option.bind_eq_some_iff.mp h
  obtain ⟨⟨id, rest⟩, hrun, h⟩ := Option.bind_eq_some_iff.mp h
  have hchars : ∀ c ∈ id.chars, isIdChar c = true := by
    rw [(Slice.chars_of_run hrun).1]
    exact fun c => List.mem_takeWhile_imp
  have hid : canName id.toString = true := canName_ofList (Slice.ne_nil_of_run hrun) hchars
  dsimp only at h
  split at h
  · cases h
    exact hid
  · split at h
    · split at h
      · cases h
        exact hid
      · cases h
    · split at h
      · rename_i hshorter
        cases h
        simp only [Bool.and_eq_true, Bool.not_eq_true', List.isEmpty_eq_false_iff] at hshorter
        exact canName_ofList hshorter.2 fun c hc =>
          hchars c (List.dropLast_subset _ (List.dropLast_subset _ hc))
      · cases h

end Marker

namespace Source

namespace Content

theorem numberedId_injective (kind : BlockKind) : Function.Injective (numberedId kind) := by
  intro m n h
  exact Nat.repr_injective ((String.append_right_inj _).mp h)

theorem canName_numberedId (kind : BlockKind) (n : Nat) :
    Marker.canName (numberedId kind n) = true := by
  have hdash : ("-" : String).toList = ['-'] := rfl
  have hkind : ∀ c ∈ kind.id.toList, Marker.isIdChar c = true := by
    cases kind <;> decide
  have hdigits : ∀ c ∈ n.repr.toList, Marker.isIdChar c = true := by
    intro c hc
    have hdigit := Shape.digit_of_mem_repr hc
    simp [Marker.isIdChar, isNameChar, Char.isAlphanum, hdigit]
  rw [← @String.ofList_toList (numberedId kind n)]
  refine Marker.canName_ofList (by simp [numberedId, hdash]) ?_
  rw [numberedId, String.toList_append, String.toList_append, hdash, List.forall_mem_append,
    List.forall_mem_append, List.forall_mem_singleton]
  exact ⟨⟨hkind, by decide⟩, hdigits⟩

theorem exists_numberedId_not_mem (used : List String) (kind : BlockKind) (index : Nat) :
    ∃ k ∈ List.range (used.length + 1), numberedId kind (index + 1 + k) ∉ used := by
  by_contra hall
  push Not at hall
  have hsub : (List.range (used.length + 1)).map (fun k => numberedId kind (index + 1 + k)) ⊆
      used := by
    intro id hid
    obtain ⟨k, hk, rfl⟩ := List.mem_map.mp hid
    exact hall k hk
  have hnodup : ((List.range (used.length + 1)).map
      fun k => numberedId kind (index + 1 + k)).Nodup :=
    List.nodup_range.map fun i j hij => Nat.add_left_cancel (numberedId_injective kind hij)
  have hle := (hnodup.subperm hsub).length_le
  rw [List.length_map, List.length_range] at hle
  exact Nat.not_succ_le_self _ hle

theorem exists_find?_freshId (used : List String) (kind : BlockKind) (index : Nat) :
    ∃ k, ((List.range (used.length + 1)).find? fun k =>
        !used.contains (numberedId kind (index + 1 + k))) = some k ∧
      freshId used kind index = numberedId kind (index + 1 + k) := by
  obtain ⟨k, hk, hfree⟩ := exists_numberedId_not_mem used kind index
  unfold freshId
  dsimp only
  cases hfind : (List.range (used.length + 1)).find? fun k =>
      !used.contains (numberedId kind (index + 1 + k)) with
  | none =>
    have hnone := List.find?_eq_none.mp hfind k hk
    simp [hfree] at hnone
  | some n => exact ⟨n, rfl, rfl⟩

theorem freshId_not_mem (used : List String) (kind : BlockKind) (index : Nat) :
    freshId used kind index ∉ used := by
  obtain ⟨k, hfind, hfresh⟩ := exists_find?_freshId used kind index
  rw [hfresh]
  simpa using List.find?_some hfind

variable {used : List String} {marked : Option String}

theorem chosenId_not_mem (kind : BlockKind) (index : Nat) : chosenId used marked kind index ∉ used := by
  unfold chosenId
  split
  · rename_i id hid
    simpa using (Option.filter_eq_some_iff.mp hid).2
  · exact freshId_not_mem used kind index

theorem canName_chosenId (h : ∀ id ∈ marked, Marker.canName id = true) (kind : BlockKind)
    (index : Nat) : Marker.canName (chosenId used marked kind index) = true := by
  unfold chosenId
  split
  · rename_i id hid
    exact h id (Option.filter_eq_some_iff.mp hid).1
  · exact canName_numberedId kind _

structure Identified (c : Content) : Prop where
  distinct : c.usedIds.Nodup
  named : ∀ id ∈ c.usedIds, Marker.canName id = true
  marker : ∀ m ∈ c.marker, Marker.canName m.id = true

theorem Identified.add {c : Content} (h : c.Identified) (content : Block.Content) :
    (c.add content).Identified := by
  have hmarked : ∀ id ∈ c.marker.map (·.id), Marker.canName id = true := by
    intro id hid
    obtain ⟨m, hm, rfl⟩ := Option.map_eq_some_iff.mp hid
    exact h.marker m hm
  have hids : (c.add content).usedIds = c.usedIds ++
      [chosenId c.usedIds (c.marker.map (·.id)) (withMarkedScheme _ content).kind
        c.blocks.length] := rfl
  refine ⟨?_, ?_, by simp [Content.add, Content.nextId]⟩
  · rw [hids, List.nodup_append]
    refine ⟨h.distinct, List.nodup_singleton _, fun a ha b hb => ?_⟩
    cases List.mem_singleton.mp hb
    exact fun heq => chosenId_not_mem _ _ (heq ▸ ha)
  · rw [hids, List.forall_mem_append, List.forall_mem_singleton]
    exact ⟨h.named, canName_chosenId hmarked _ _⟩

theorem Identified.warn {c : Content} (h : c.Identified) (warnings : List Diagnostic) :
    (c.warn warnings).Identified :=
  ⟨h.distinct, h.named, h.marker⟩

theorem Identified.skip {c : Content} (h : c.Identified) (warning : Diagnostic) :
    (c.skip warning).Identified :=
  ⟨h.distinct, h.named, by simp [Content.skip]⟩

theorem Identified.addSegment {c : Content} (h : c.Identified) (scheme : ColorScheme)
    (segment : Segment) : (c.addSegment scheme segment).Identified := by
  unfold Content.addSegment
  dsimp only
  split
  · split
    · rename_i m hm
      refine ⟨h.distinct, h.named, ?_⟩
      simpa using Marker.canName_of_ofComment? hm
    · exact h.warn _
  · exact (h.warn _).skip _
  · split
    · exact (h.warn _).add _
    · exact (h.warn _).skip _
  · exact (h.warn _).skip _

end Content

theorem identified_foldl (scheme : ColorScheme) (segments : List Segment) {c : Content}
    (h : c.Identified) : (segments.foldl (Content.addSegment scheme) c).Identified := by
  induction segments generalizing c with
  | nil => exact h
  | cons segment segments ih => exact ih (h.addSegment scheme segment)

theorem ids_content (scheme : ColorScheme) (source : Slice) :
    (∀ b ∈ (content scheme source).1, Marker.canName b.id = true) ∧
      ((content scheme source).1.map (·.id)).Nodup := by
  unfold content
  split
  · exact ⟨by simp, .nil⟩
  · rename_i body _
    have h := @identified_foldl scheme (segments body) ⟨[], [], none, []⟩
      ⟨.nil, by simp, by simp⟩
    have hused := @Content.usedIds_foldl scheme (segments body) ⟨[], [], none, []⟩ rfl
    exact ⟨fun b hb => h.named _ (hused ▸ List.mem_map_of_mem hb), hused ▸ h.distinct⟩

theorem isEndOf_identifier {s a rest : Slice} (h : identifier s = some (a, rest)) :
    rest.IsEndOf s := by
  unfold identifier at h
  split at h
  · exact Slice.isEndOf_run h
  · cases h

namespace Member

theorem isEndOf_skipType {s rest : Slice} (h : skipType s = some rest) : rest.IsEndOf s := by
  unfold skipType at h
  dsimp only at h
  split at h
  · have hdrop := (Slice.isEndOf_dropWhile (fun c => c != ';' && c != ',' && c != '\n')
      s.skipBlanks).trans (Slice.isEndOf_skipBlanks s)
    rw [Option.orElse_eq_orElse, Option.orElse_eq_or, Option.or_eq_some_iff] at h
    rcases h with h | ⟨-, h⟩
    · exact (Slice.isEndOf_expect h).trans hdrop
    · exact (Slice.isEndOf_expect h).trans hdrop
  · cases h

theorem isEndOf_readKind {s a rest : Slice} (h : readKind s = some (a, rest)) :
    rest.IsEndOf s := by
  obtain ⟨s1, h1, h⟩ := Option.bind_eq_some_iff.mp h
  exact (Slice.isEndOf_run h).trans
    ((Slice.isEndOf_dropWhile isIndent s1).trans (Slice.isEndOf_expectText h1))

theorem isEndOf_mark (s : Slice) : (mark s).2.IsEndOf s := by
  unfold mark
  split
  · rename_i rest h
    exact Slice.isEndOf_expect h
  · exact Slice.isEndOf_refl s

theorem exists_readKind_of_read {s rest : Slice} {m : Member} (h : read s = some (m, rest)) :
    ∃ s' : Slice, s'.IsEndOf s ∧ ((m.kind = none ∧ rest = s') ∨
      ∃ kind, m.kind = some kind ∧ readKind s' = some (kind, rest)) := by
  rw [read_eq] at h
  obtain ⟨⟨name, s1⟩, h1, h⟩ := Option.bind_eq_some_iff.mp h
  obtain ⟨s2, h2, h⟩ := Option.bind_eq_some_iff.mp h
  obtain ⟨s3, h3, h⟩ := Option.bind_eq_some_iff.mp h
  have e1 : s1.IsEndOf s := (isEndOf_identifier h1).trans (Slice.isEndOf_dropWhile isIndent s)
  have e2 : s2.IsEndOf s1 := (Slice.isEndOf_expect h2).trans
    ((Slice.isEndOf_skipBlanks _).trans (isEndOf_mark s1))
  have e3 : (s3.dropWhile isIndent).IsEndOf s2 :=
    (Slice.isEndOf_dropWhile isIndent s3).trans (isEndOf_skipType h3)
  refine ⟨s3.dropWhile isIndent, e3.trans (e2.trans e1), ?_⟩
  dsimp only at h
  split at h
  · rename_i hk
    cases h
    exact .inr ⟨_, rfl, hk⟩
  · cases h
    exact .inl ⟨rfl, rfl⟩

theorem leavesEnd_read : Slice.LeavesEnd read := by
  intro s m rest h
  obtain ⟨s', hend, ⟨-, rfl⟩ | ⟨kind, -, hk⟩⟩ := exists_readKind_of_read h
  · exact hend
  · exact (isEndOf_readKind hk).trans hend

theorem name_of_read {s rest : Slice} {m : Member} (h : read s = some (m, rest)) :
    m.name.toList ≠ [] ∧ ∀ c ∈ m.name.toList, isWord c = true ∧ c ∈ s.chars := by
  rw [read_eq] at h
  obtain ⟨⟨name, s1⟩, h1, h⟩ := Option.bind_eq_some_iff.mp h
  obtain ⟨s2, -, h⟩ := Option.bind_eq_some_iff.mp h
  obtain ⟨s3, -, h⟩ := Option.bind_eq_some_iff.mp h
  have hname : m.name.toList = name.chars := by
    dsimp only at h
    split at h <;> cases h <;> exact String.toList_ofList
  unfold identifier at h1
  split at h1
  · rw [hname]
    refine ⟨Slice.ne_nil_of_run h1, fun c hc => ?_⟩
    rw [(Slice.chars_of_run h1).1] at hc
    refine ⟨List.mem_takeWhile_imp hc, ?_⟩
    exact (List.dropWhile_suffix isIndent).subset ((List.takeWhile_prefix isWord).subset hc)
  · cases h1

theorem isNameChar_of_isMemberChar {c : Char} (h : isMemberChar c = true ∨ c = '\n')
    (hw : isWord c = true) : isNameChar c = true := by
  have hsigns : ∀ c ∈ [' ', '?', ':', ';', '/', '-', '\n'], isWord c = false := by decide
  by_contra hname
  have hmem : c ∈ [' ', '?', ':', ';', '/', '-', '\n'] := by
    rcases h with h | rfl
    · rw [isMemberChar, Bool.or_eq_true, List.contains_iff_mem] at h
      exact List.mem_append_left ['\n'] (h.resolve_left hname)
    · decide
  rw [hsigns c hmem] at hw
  cases hw

theorem isValidName_of_mem {s : Slice} (hs : ∀ c ∈ s.chars, isMemberChar c = true ∨ c = '\n')
    {m : Member} (h : m ∈ s.findAllInLines read) : Variable.isValidName m.name = true := by
  obtain ⟨s', rest, ⟨taken, hchars, -⟩, hread⟩ := leavesEnd_read.of_mem_findAllInLines h
  obtain ⟨hne, hword⟩ := name_of_read hread
  have hname : ∀ c ∈ m.name.toList, isNameChar c = true := by
    intro c hc
    obtain ⟨hw, hmem⟩ := hword c hc
    refine isNameChar_of_isMemberChar (hs c ?_) hw
    rw [hchars]
    exact List.mem_append_right taken hmem
  rw [Variable.isValidName, Token.isName, Bool.and_eq_true]
  exact ⟨by simpa using hne, List.all_eq_true.mpr hname⟩

end Member

theorem mem_of_mem_distinctMembers {ms : List Member} {m : Member} (h : m ∈ distinctMembers ms) :
    m ∈ ms := by
  suffices hgo : ∀ seen : List Member, m ∈ ms.foldl
      (fun seen m => if seen.any (·.name == m.name) then seen else seen ++ [m]) seen →
        m ∈ seen ∨ m ∈ ms from (hgo [] h).resolve_left List.not_mem_nil
  clear h
  induction ms with
  | nil => exact fun seen h => .inl h
  | cons x ms ih =>
    intro seen h
    rw [List.foldl_cons] at h
    rcases ih _ h with h | h
    · split at h
      · exact .inl h
      · rcases List.mem_append.mp h with h | h
        · exact .inl h
        · exact .inr (List.mem_cons.mpr (.inl (List.mem_singleton.mp h)))
    · exact .inr (List.mem_cons_of_mem x h)

theorem isValidName_withInferred {declared : List VariableDeclaration} {referenced : List String}
    (hd : ∀ d ∈ declared, Variable.isValidName d.name = true)
    (hr : ∀ n ∈ referenced, Variable.isValidName n = true) :
    ∀ d ∈ (withInferred (some declared) referenced).1, Variable.isValidName d.name = true := by
  rw [withInferred, List.forall_mem_append, List.forall_mem_map]
  exact ⟨hd, fun n hn => hr n (List.mem_filter.mp hn).1⟩

variable {t : Template}

theorem isValidName_interface (hf : ∀ s ∈ t.texts, Free s.toList) (hv : t.validate = .ok ())
    (ms : List Markup) :
    ∃ declared, (interface (Slice.ofString (t.moduleText ms))).1 = some declared ∧
      ∀ d ∈ declared, Variable.isValidName d.name = true := by
  obtain ⟨hslug, -⟩ := Template.validate_eq_ok.mp hv
  have hnames : ∀ v ∈ allDeclarations t, ∀ c ∈ v.name.toList, isNameChar c = true :=
    fun v hmem => isNameChar_of_isValidName (isValidName_allDeclarations hv v hmem)
  obtain ⟨k, hmembers⟩ := interfaceMembers?_written (isFair_interfaceHead (by decide)
    (absent_headStrings hf _ (by decide)) hv) (nameChars_ne_nil hslug)
    (isNameChar_interfaceName hslug) hnames 0 (Line.written (constantBlock (subjectPairs t)) ++
      (Line.written (headerLines t.header) ++
        (Line.written (constantBlock (footerPairs t)) ++ tailText t ms)))
  have hread : interfaceMembers? (Slice.ofString (t.moduleText ms)) =
      some ((⟨k, interfaceBody (allDeclarations t)⟩ : Slice).findAllInLines Member.read) := by
    rw [Slice.ofString, toList_moduleText_lines, headLines]
    simpa only [interfaceHead, Line.written_append, List.append_assoc] using hmembers
  rw [interface, hread]
  refine ⟨_, rfl, ?_⟩
  rw [List.map_map, List.forall_mem_map]
  intro m hm
  rw [Function.comp_apply, name_declaration]
  exact Member.isValidName_of_mem (isMemberChar_interfaceBody hnames) (mem_of_mem_distinctMembers hm)

end Source

end EmailTemplates
