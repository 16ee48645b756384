import EmailTemplates.Proofs.Source.Account
import EmailTemplates.Proofs.Source.Named

namespace EmailTemplates

open Text (Slice)

namespace Source

theorem Quoted.takesParts_read : Slice.TakesParts Quoted.read fun raw => [raw] where
  leaves := by
    intro s raw rest h
    unfold Quoted.read at h
    split at h
    · cases h
    · split at h
      · obtain ⟨n, -, hn⟩ := Option.map_eq_some_iff.mp h
        cases hn
        exact Slice.isEndOf_drop _ s
      · cases h
  inside := by
    intro s raw rest h
    rw [List.forall_mem_singleton]
    unfold Quoted.read at h
    split at h
    · cases h
    · split at h
      · obtain ⟨n, -, hn⟩ := Option.map_eq_some_iff.mp h
        cases hn
        exact (Slice.isPartOf_take n _).trans_isEndOf (Slice.isEndOf_drop 1 s)
      · cases h

namespace Scalar

theorem isEndOf_skipType {s rest : Slice} (h : skipType s = some rest) : rest.IsEndOf s := by
  unfold skipType at h
  split at h
  · cases h
    exact Slice.isEndOf_refl s
  · rename_i s1 h1
    dsimp only at h
    split at h
    · obtain ⟨⟨a, s2⟩, h2, h⟩ := Option.bind_eq_some_iff.mp h
      cases h
      exact (Slice.isEndOf_skipBlanks s2).trans ((Slice.isEndOf_run h2).trans
        ((Slice.isEndOf_skipBlanks s1).trans (Slice.isEndOf_expect h1)))
    · cases h

theorem exists_literal_of_read {s rest : Slice} {x : Scalar} (h : read s = some (x, rest)) :
    ∃ s' : Slice, s'.IsEndOf s ∧ Quoted.read s' = some (x.raw, rest) := by
  obtain ⟨s1, h1, h⟩ := Option.bind_eq_some_iff.mp h
  obtain ⟨s2, h2, h⟩ := Option.bind_eq_some_iff.mp h
  obtain ⟨s3, h3, h⟩ := Option.bind_eq_some_iff.mp h
  obtain ⟨s4, h4, h⟩ := Option.bind_eq_some_iff.mp h
  obtain ⟨⟨name, s5⟩, h5, h⟩ := Option.bind_eq_some_iff.mp h
  obtain ⟨s6, h6, h⟩ := Option.bind_eq_some_iff.mp h
  obtain ⟨s7, h7, h⟩ := Option.bind_eq_some_iff.mp h
  obtain ⟨⟨raw, s8⟩, h8, h⟩ := Option.bind_eq_some_iff.mp h
  cases h
  have e3 : s3.IsEndOf s :=
    (Slice.isEndOf_words h1 h2 h3).trans (Slice.isEndOf_dropWhile isIndent s)
  have e6 : s6.IsEndOf s3 := (isEndOf_skipType h6).trans ((Slice.isEndOf_skipBlanks s5).trans
    ((isEndOf_identifier h5).trans (Slice.isEndOf_skipBlanks? h4)))
  have e7 : s7.skipBlanks.IsEndOf s6 :=
    (Slice.isEndOf_skipBlanks s7).trans (Slice.isEndOf_expect h7)
  exact ⟨s7.skipBlanks, e7.trans (e6.trans e3), h8⟩

theorem exists_literal_of_readField {s rest : Slice} {x : Scalar}
    (h : readField s = some (x, rest)) :
    ∃ s' : Slice, s'.IsEndOf s ∧ Quoted.read s' = some (x.raw, rest) := by
  obtain ⟨⟨name, s1⟩, h1, h⟩ := Option.bind_eq_some_iff.mp h
  obtain ⟨s2, h2, h⟩ := Option.bind_eq_some_iff.mp h
  obtain ⟨⟨raw, s3⟩, h3, h⟩ := Option.bind_eq_some_iff.mp h
  cases h
  exact ⟨s2.skipBlanks, (Slice.isEndOf_skipBlanks s2).trans ((Slice.isEndOf_expect h2).trans
    ((Slice.isEndOf_skipBlanks s1).trans (isEndOf_identifier h1))), h3⟩

theorem takesParts_of_literal {reader : Slice.Reader Scalar}
    (h : ∀ {s x rest}, reader s = some (x, rest) →
      ∃ s' : Slice, s'.IsEndOf s ∧ Quoted.read s' = some (x.raw, rest)) :
    Slice.TakesParts reader fun x => [x.raw] where
  leaves := by
    intro s x rest hr
    obtain ⟨s', hend, hread⟩ := h hr
    exact (Quoted.takesParts_read.leaves _ _ _ hread).trans hend
  inside := by
    intro s x rest hr part hpart
    obtain ⟨s', hend, hread⟩ := h hr
    exact (Quoted.takesParts_read.inside hread part hpart).trans_isEndOf hend

theorem takesParts_read : Slice.TakesParts read fun x => [x.raw] :=
  takesParts_of_literal exists_literal_of_read

theorem takesParts_readField : Slice.TakesParts readField fun x => [x.raw] :=
  takesParts_of_literal exists_literal_of_readField

end Scalar

theorem HeaderObject.leavesEnd_readStart : Slice.LeavesEnd readStart := by
  intro s a rest h
  obtain ⟨s1, h1, h⟩ := Option.bind_eq_some_iff.mp h
  obtain ⟨s2, h2, h⟩ := Option.bind_eq_some_iff.mp h
  obtain ⟨s3, h3, h⟩ := Option.bind_eq_some_iff.mp h
  obtain ⟨s4, h4, h⟩ := Option.bind_eq_some_iff.mp h
  obtain ⟨s5, h5, h⟩ := Option.bind_eq_some_iff.mp h
  obtain ⟨s6, h6, h⟩ := Option.bind_eq_some_iff.mp h
  obtain ⟨s7, h7, h⟩ := Option.bind_eq_some_iff.mp h
  obtain ⟨s8, h8, h⟩ := Option.bind_eq_some_iff.mp h
  cases h
  have e3 : s3.IsEndOf s := Slice.isEndOf_words h1 h2 h3
  have e5 : s5.IsEndOf s3 := (Slice.isEndOf_expectText h5).trans (Slice.isEndOf_skipBlanks? h4)
  have e7 : s7.IsEndOf s5 := (Slice.isEndOf_expect h7).trans
    ((isEndOf_skipWordType h6).trans (Slice.isEndOf_skipBlanks s5))
  have e8 : rest.IsEndOf s7 := (Slice.isEndOf_expect h8).trans (Slice.isEndOf_skipBlanks s7)
  exact e8.trans (e7.trans (e5.trans e3))

theorem isPartOf_headerObject? {source whole body : Slice}
    (h : headerObject? source = some (whole, body)) :
    whole.IsPartOf source ∧ body.IsPartOf source := by
  obtain ⟨⟨start, a, rest⟩, hfind, h⟩ := Option.bind_eq_some_iff.mp h
  obtain ⟨hstart, hrest⟩ := HeaderObject.leavesEnd_readStart.find hfind
  dsimp only at h
  split at h
  · cases h
    exact ⟨(Slice.isPartOf_take _ start).trans_isEndOf hstart,
      (Slice.isPartOf_take _ rest).trans_isEndOf (hrest.trans hstart)⟩
  · cases h
    exact ⟨hstart.isPartOf, (hrest.trans hstart).isPartOf⟩

theorem exists_splitAt?_of_readInterface {s body rest : Slice}
    (h : readInterface s = some (body, rest)) :
    ∃ s' : Slice, s'.IsEndOf s ∧ s'.splitAt? "\x7d" = some (body, rest) := by
  obtain ⟨s1, h1, h⟩ := Option.bind_eq_some_iff.mp h
  obtain ⟨s2, h2, h⟩ := Option.bind_eq_some_iff.mp h
  obtain ⟨s3, h3, h⟩ := Option.bind_eq_some_iff.mp h
  obtain ⟨s4, h4, h⟩ := Option.bind_eq_some_iff.mp h
  obtain ⟨⟨name, s5⟩, h5, h⟩ := Option.bind_eq_some_iff.mp h
  obtain ⟨s6, h6, h⟩ := Option.bind_eq_some_iff.mp h
  have e3 : s3.IsEndOf s := Slice.isEndOf_words h1 h2 h3
  have e6 : s6.IsEndOf s3 := (Slice.isEndOf_expect h6).trans ((Slice.isEndOf_skipBlanks s5).trans
    ((Slice.isEndOf_run h5).trans (Slice.isEndOf_skipBlanks? h4)))
  exact ⟨s6, e6.trans e3, h⟩

theorem takesParts_readInterface : Slice.TakesParts readInterface fun body => [body] where
  leaves := by
    intro s body rest h
    obtain ⟨s', hend, hsplit⟩ := exists_splitAt?_of_readInterface h
    exact (Slice.isEndOf_splitAt? hsplit).trans hend
  inside := by
    intro s body rest h
    obtain ⟨s', hend, hsplit⟩ := exists_splitAt?_of_readInterface h
    exact List.forall_mem_singleton.mpr ((Slice.isPartOf_splitAt? hsplit).trans_isEndOf hend)

namespace Member

theorem isPartOf_readKind {s kind rest : Slice} (h : readKind s = some (kind, rest)) :
    kind.IsPartOf s := by
  obtain ⟨s1, h1, h⟩ := Option.bind_eq_some_iff.mp h
  exact (Slice.isPartOf_run h).trans_isEndOf
    ((Slice.isEndOf_dropWhile isIndent s1).trans (Slice.isEndOf_expectText h1))

theorem takesParts_read : Slice.TakesParts read fun m => m.kind.toList where
  leaves := leavesEnd_read
  inside := by
    intro s m rest h part hpart
    obtain ⟨s', hend, ⟨hnone, -⟩ | ⟨kind, hkind, hk⟩⟩ := exists_readKind_of_read h
    · rw [hnone] at hpart
      cases hpart
    · rw [hkind] at hpart
      cases List.mem_singleton.mp hpart
      exact (isPartOf_readKind hk).trans_isEndOf hend

end Member

namespace Literal

inductive Left (body : Slice) : Slice → Prop
  | all : Left body body
  | next {s : Slice} : Left body s → s.chars ≠ [] → Left body (s.drop ((nextPiece s).2 + 1))

variable {body s : Slice}

theorem Left.isEndOf (h : Left body s) : s.IsEndOf body := by
  induction h with
  | all => exact Slice.isEndOf_refl body
  | next _ _ ih => exact (Slice.isEndOf_drop _ _).trans ih

theorem exists_left_of_mem_pieces {piece : Piece} (h : piece ∈ pieces body) :
    ∃ s, Left body s ∧ s.chars ≠ [] ∧ piece = (nextPiece s).1 := by
  suffices hleft : ∀ n s, s.chars.length = n → Left body s → piece ∈ pieces s →
      ∃ s, Left body s ∧ s.chars ≠ [] ∧ piece = (nextPiece s).1 from hleft _ _ rfl .all h
  clear h
  intro n
  induction n using Nat.strong_induction_on with
  | _ n ih =>
    intro s hn hs h
    obtain ⟨start, cs⟩ := s
    cases cs with
    | nil =>
      rw [pieces_nil] at h
      cases h
    | cons c cs =>
      have hne : c :: cs ≠ [] := List.cons_ne_nil c cs
      rw [pieces_of_nextPiece rfl rfl] at h
      rcases List.mem_cons.mp h with rfl | h
      · exact ⟨⟨start, c :: cs⟩, hs, hne, rfl⟩
      · exact ih _ (hn ▸ Slice.length_drop_lt rfl _) _ rfl (hs.next hne) h

inductive Interpolates (body : Slice) : (code expression : Slice) → Prop
  | front {s : Slice} {cs : List Char} {n : Nat} : Left body s → s.chars = '$' :: '{' :: cs →
      expressionLength 0 cs = some n → Interpolates body (s.take (n + 3)) ((s.drop 2).take n)

theorem Interpolates.isPartOf {code expression : Slice} (h : Interpolates body code expression) :
    code.IsPartOf body ∧ expression.IsPartOf code := by
  cases h with
  | @front s cs n hs hchars hn =>
    refine ⟨(Slice.isPartOf_take _ s).trans_isEndOf hs.isEndOf, ['$', '{'], cs.drop n |>.take 1,
      ?_, ?_⟩
    · rw [Slice.chars_take, Slice.chars_take, Slice.chars_drop, hchars, List.take_succ_cons,
        List.take_succ_cons, List.take_add]
      rfl
    · rw [Slice.take, Slice.drop, hchars]
      rfl

theorem interpolates_of_unsupported {code : Slice} (h : .unsupported code ∈ pieces body) :
    ∃ expression, Interpolates body code expression := by
  obtain ⟨s, hs, hne, hpiece⟩ := exists_left_of_mem_pieces h
  unfold nextPiece at hpiece
  split at hpiece
  · cases hpiece
  · cases hpiece
  · rename_i cs hchars
    split at hpiece
    · cases hpiece
    · rename_i n hn
      split at hpiece
      · cases hpiece
      · cases hpiece
        exact ⟨_, .front hs hchars hn⟩
  · cases hpiece

end Literal

/-- What is cut out of a module on the way to its template. -/
inductive Sliced (source : Slice) : Slice → Prop
  | scalar {x : Scalar} : x ∈ scalars source → Sliced source x.raw
  | header {whole body : Slice} : headerObject? source = some (whole, body) → Sliced source whole
  | headerBody {whole body : Slice} : headerObject? source = some (whole, body) →
      Sliced source body
  | field {whole body : Slice} {x : Scalar} : headerObject? source = some (whole, body) →
      x ∈ body.findAll Scalar.readField → Sliced source x.raw
  | interface {start body rest : Slice} :
      source.find readInterface = some (start, body, rest) → Sliced source body
  | kind {members : List Member} {m : Member} {kind : Slice} :
      interfaceMembers? source = some members → m ∈ members → m.kind = some kind →
      Sliced source kind
  | contentStart {start rest : Slice} :
      source.find ContentStart.read = some (start, (), rest) → Sliced source (start.before rest)
  | content {body : Slice} : contentBody source = .ok body → Sliced source body
  | segment {body : Slice} {segment : Segment} : contentBody source = .ok body →
      segment ∈ segments body → Sliced source segment.slice
  | openingTag {body : Slice} {segment : Segment} : contentBody source = .ok body →
      segment ∈ segments body →
      Sliced source (segment.slice.take (Shape.openingTag segment.slice.chars).length)
  | interpolation {body code expression : Slice} {segment : Segment} :
      contentBody source = .ok body → segment ∈ segments body →
      Literal.Interpolates segment.slice code expression → Sliced source code
  | expression {body code expression : Slice} {segment : Segment} :
      contentBody source = .ok body → segment ∈ segments body →
      Literal.Interpolates segment.slice code expression → Sliced source expression

variable {source : Slice}

theorem isPartOf_kind {members : List Member} {m : Member} {kind : Slice}
    (h : interfaceMembers? source = some members) (hm : m ∈ members) (hk : m.kind = some kind) :
    kind.IsPartOf source := by
  obtain ⟨⟨start, body, rest⟩, hfind, rfl⟩ := Option.map_eq_some_iff.mp h
  have hbody : body.IsPartOf source :=
    takesParts_readInterface.find hfind body (List.mem_singleton_self body)
  have hkind : kind.IsPartOf body :=
    Member.takesParts_read.of_mem_findAllInLines hm kind (by simp [hk])
  exact hkind.trans hbody

theorem isPartOf_segment {body : Slice} {segment : Segment} (h : contentBody source = .ok body)
    (hs : segment ∈ segments body) : segment.slice.IsPartOf source :=
  ((covers_segments body).inside segment hs).trans (isPartOf_contentBody h)

theorem Sliced.isPartOf {part : Slice} (h : Sliced source part) : part.IsPartOf source := by
  cases h with
  | scalar hx =>
    exact Scalar.takesParts_read.of_mem_findAllInLines hx _ (List.mem_singleton_self _)
  | header hobject => exact (isPartOf_headerObject? hobject).1
  | headerBody hobject => exact (isPartOf_headerObject? hobject).2
  | field hobject hx =>
    have hfield := Scalar.takesParts_readField.of_mem_findAll hx _ (List.mem_singleton_self _)
    exact hfield.trans (isPartOf_headerObject? hobject).2
  | interface hfind => exact takesParts_readInterface.find hfind _ (List.mem_singleton_self _)
  | kind hmembers hm hk => exact isPartOf_kind hmembers hm hk
  | contentStart hfind =>
    exact (Slice.isPartOf_take _ _).trans_isEndOf (ContentStart.leavesEnd_read.find hfind).1
  | content hbody => exact isPartOf_contentBody hbody
  | segment hbody hs => exact isPartOf_segment hbody hs
  | openingTag hbody hs => exact (Slice.isPartOf_take _ _).trans (isPartOf_segment hbody hs)
  | interpolation hbody hs hi => exact hi.isPartOf.1.trans (isPartOf_segment hbody hs)
  | expression hbody hs hi =>
    exact hi.isPartOf.2.trans (hi.isPartOf.1.trans (isPartOf_segment hbody hs))

end Source

end EmailTemplates
