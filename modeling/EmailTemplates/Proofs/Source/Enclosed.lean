import EmailTemplates.Proofs.Source.Account
import EmailTemplates.Proofs.Source.Content
import EmailTemplates.Proofs.Source.LoneAnchor
import EmailTemplates.Proofs.Source.Rewritten

namespace EmailTemplates.Source

open EmailTemplates.Text (Slice)
open Tag (bounds_angle takeWhile_angle)
open Outcome

variable {cs ds inside inner name markup : List Char} {scheme : ColorScheme} {tag : String}
  {content : Block.Content} {s rest : Slice}

theorem Tag.exists_of_read {t : Tag} (hs : TagsApart s.chars) (h : read s = some (t, rest)) :
    ∃ inside, s.chars = '<' :: (inside ++ '>' :: rest.chars) ∧ t.Encloses inside := by
  obtain ⟨n, cs⟩ := s
  cases cs with
  | nil => cases h
  | cons c cs =>
    obtain rfl : c = '<' := by
      by_contra hc
      rw [read_eq_none hc] at h
      cases h
    have hmem : '>' ∈ cs := by
      by_contra hmem
      rw [read_of_not_mem hmem] at h
      cases h
    obtain ⟨inside, after, rfl, hinside⟩ := List.eq_append_cons_of_mem hmem
    obtain ⟨m, hm⟩ := read_angles hinside n after
    obtain ⟨t', hbetween, hpair⟩ := Option.map_eq_some_iff.mp (hm.symm.trans h)
    cases hpair
    exact ⟨inside, rfl, hs.encloses hinside hbetween⟩

inductive IsElement (name : List Char) : List Char → Prop
  | alone {inside : List Char} : '>' ∉ inside → IsElement name ('<' :: (inside ++ ['>']))
  | enclosed {inside inner closing : List Char} {t : Tag} : '>' ∉ inside → Leads name 0 inner 0 →
      t.Encloses closing → t.closing = true →
      IsElement name ('<' :: (inside ++ '>' :: (inner ++ '<' :: (closing ++ ['>']))))

theorem isElement_of_element? (hs : TagsApart s.chars)
    (h : Segment.element? s = some (.element tag true, rest)) {taken : List Char}
    (htaken : s.chars = taken ++ rest.chars) : IsElement tag.toList taken := by
  obtain ⟨⟨t, r⟩, hread, h⟩ := Option.bind_eq_some_iff.mp h
  obtain ⟨inside, hchars, hencloses⟩ := Tag.exists_of_read hs hread
  obtain ⟨-, h⟩ := unless_none_eq_some.mp h
  dsimp only at h
  split at h
  · cases h
    have htag : taken = '<' :: (inside ++ ['>']) := by
      refine List.append_cancel_right (htaken.symm.trans (hchars.trans ?_))
      simp
    rw [htag]
    exact .alone hencloses.noAngle
  · split at h
    · rename_i hclosing
      cases h
      have hr : TagsApart r.chars := hs.suffix ⟨'<' :: (inside ++ ['>']), by rw [hchars]; simp⟩
      obtain ⟨inner, closing, hinner, hleads, t', hencloses', -, hcloses⟩ :=
        exists_leads_of_afterClosing hr hclosing
      have htag : taken = '<' :: (inside ++ '>' :: (inner ++ '<' :: (closing ++ ['>']))) := by
        refine List.append_cancel_right (htaken.symm.trans (hchars.trans ?_))
        rw [hinner]
        simp
      rw [htag, String.toList_ofList]
      exact .enclosed hencloses.noAngle hleads hencloses' hcloses
    · cases h

theorem isElement_of_mem_segments (hs : TagsApart s.chars) {segment : Segment}
    (h : segment ∈ segments s) (hkind : segment.kind = .element tag true) :
    IsElement tag.toList segment.slice.chars := by
  obtain ⟨s', hend, hnext, hchars⟩ := exists_next_of_mem_segments h
  have helement := Segment.element?_of_next (hnext.symm.trans hkind)
  have hpair : Segment.next s' = (.element tag true, (Segment.next s').2) :=
    Prod.ext (hnext.symm.trans hkind) rfl
  rw [hpair] at helement
  exact isElement_of_element? (hs.suffix hend.suffix) helement hchars

theorem IsElement.rewrites (h : IsElement name cs) (hr : Rewrites cs ds) : IsElement name ds := by
  cases h with
  | alone hinside =>
    obtain ⟨ds, rfl, htail⟩ := hr.of_angle
    obtain ⟨inside', rest, rfl, hinside', hrest⟩ := htail.split (.inr rfl)
    rw [hrest.eq_nil_iff.mpr rfl]
    exact .alone (hinside'.not_mem (.inr rfl) hinside)
  | enclosed hinside hleads hencloses hcloses =>
    obtain ⟨ds, rfl, htail⟩ := hr.of_angle
    obtain ⟨inside', behind, rfl, hinside', hbehind⟩ := htail.split (.inr rfl)
    obtain ⟨inner, behind, rfl, hinner, hbehind⟩ := hbehind.split (.inl rfl)
    obtain ⟨closing, rest, rfl, hclosing, hrest⟩ := hbehind.split (.inr rfl)
    rw [hrest.eq_nil_iff.mpr rfl]
    exact .enclosed (hinside'.not_mem (.inr rfl) hinside) (hleads.rewrites hinner)
      (hencloses.rewrites hclosing) hcloses

theorem IsElement.leads_inner (h : IsElement name cs) (hinner : Shape.inner? cs = some inner) :
    Leads name 0 inner 0 := by
  have hdrop {inside : List Char} (hinside : '>' ∉ inside) (rest : List Char) :
      ('<' :: (inside ++ '>' :: rest)).dropWhile (· != '>') = '>' :: rest := by
    refine @Slice.dropWhile_append ('<' :: inside) ('>' :: rest) _ (fun c hc => bne_iff_ne.mpr ?_)
      (by simp)
    rintro rfl
    exact hinside (List.mem_of_ne_of_mem (by decide) hc)
  cases h with
  | alone hinside =>
    rw [Shape.inner?, hdrop hinside] at hinner
    cases hinner
  | @enclosed inside inner' closing t hinside hleads hencloses hcloses =>
    obtain ⟨cs, rfl⟩ := hencloses.exists_slash hcloses
    have hclosing : ¬ ['<', '/'] <:+: cs ++ ['>'] := by
      rw [List.infix_concat_iff, List.suffix_concat_iff]
      rintro ((hnil | ⟨front, heq, -⟩) | hin)
      · cases hnil
      · have hlast := congrArg List.getLast? heq
        rw [List.getLast?_concat] at hlast
        cases hlast
      · exact hencloses.apart (hin.trans (List.suffix_cons '/' cs).isInfix)
    rw [Shape.inner?, hdrop hinside] at hinner
    dsimp only at hinner
    rw [List.cons_append, Shape.beforeLastClosing_append hclosing] at hinner
    obtain rfl := Option.some.inj hinner
    exact hleads

theorem Leads.contained (h : Leads name 0 cs 0) : Contained name cs :=
  (h.rewrites (Literal.rewrites_encode cs)).skipsTo

theorem leads_of_anchor {attributes body : List Char} (ha : Tag.IsInside attributes)
    (hname : ['a'] ≠ name)
    (h : Leads name 0 (Tag.written false "a".toList attributes ++ (body ++ "</a>".toList)) 0) :
    Leads name 0 body 0 := by
  have hopening := Tag.between?_written (by decide : Tag.isTagName ['a'] = true) ha false
  have hclosing := Tag.between?_written (by decide : Tag.isTagName ['a'] = true) Tag.isInside_nil
    true
  have hinside : '>' ∉ 'a' :: attributes :=
    List.not_mem_cons_of_ne_of_not_mem (by decide) ha.noAngle
  have hend : ∀ inside rest, "</a>".toList = inside ++ '>' :: rest → '>' ∉ inside →
      ['<', '/'] <+: inside := by
    intro inside rest heq hin
    rw [← takeWhile_angle hin rest, ← heq]
    decide
  rw [Tag.written_append] at h
  obtain ⟨k, hmoves, hbehind⟩ := h.of_tag hinside hopening
  obtain rfl := hmoves.eq_of_ne hname
  obtain ⟨k, hbody, hbehind⟩ := hbehind.split (bounds_angle _) hend
  obtain ⟨l, hmoves, hnil⟩ := @Leads.of_tag [] ['/', 'a'] _ _ _ _ hbehind (by decide) hclosing
  obtain rfl := hmoves.eq_of_ne hname
  obtain rfl := hnil.eq_of_not_mem List.not_mem_nil
  exact hbody

theorem contained_ofList {name : String} (h : Leads name.toList 0 cs 0) :
    ∀ p ∈ [(name, String.ofList cs)], Contained p.1.toList p.2.toList := by
  refine List.forall_mem_singleton.mpr ?_
  rw [String.toList_ofList]
  exact h.contained

namespace Shape

theorem exists_readsLink (h : link? scheme inner = some content) :
    ∃ text url color attributes body, content = .link text url color ∧
      ReadsLink scheme inner attributes body text url color := by
  have hcontent : ∃ text url color, content = .link text url color := by
    obtain ⟨_, -, h⟩ := Option.bind_eq_some_iff.mp h
    obtain ⟨_, -, h⟩ := Option.bind_eq_some_iff.mp h
    obtain ⟨-, h⟩ := unless_none_eq_some.mp h
    cases h
    exact ⟨_, _, _, rfl⟩
  obtain ⟨text, url, color, rfl⟩ := hcontent
  obtain ⟨attributes, body, hreads⟩ := link?_eq_some_iff.mp h
  exact ⟨text, url, color, attributes, body, rfl, hreads⟩

theorem contained_of_paragraph? (h : paragraph? scheme markup = some content)
    (he : IsElement "p".toList markup) : content.Contained := by
  obtain ⟨inner, hinner, h⟩ := Option.bind_eq_some_iff.mp h
  have hleads := (he.leads_inner hinner).trim
  dsimp only at h
  split at h
  · cases h
    exact List.forall_mem_nil _
  · split at h
    · rename_i hlink
      cases h
      obtain ⟨text, url, color, attributes, body, rfl, hreads⟩ := exists_readsLink hlink
      rw [hreads.markup] at hleads
      refine List.forall_mem_singleton.mpr ?_
      rw [hreads.isText]
      exact (leads_of_anchor hreads.isInside (by decide) hleads).trim.contained
    · split at h
      · cases h
      · cases h
        exact contained_ofList hleads

theorem contained_of_heading? {level : UInt8} (h : heading? level markup = some content)
    (he : IsElement ("h" ++ level.toNat.repr).toList markup) : content.Contained := by
  obtain ⟨inner, hinner, h⟩ := Option.bind_eq_some_iff.mp h
  obtain ⟨-, h⟩ := unless_none_eq_some.mp h
  cases h
  exact contained_ofList (he.leads_inner hinner).trim

end Shape

theorem contained_of_recognize (h : recognize scheme tag markup = some content)
    (he : IsElement tag.toList markup) (hlist : content.kind ≠ .list)
    (hbutton : content.kind ≠ .button) : content.Contained := by
  cases recognized_of_recognize h with
  | greeting | divider | spacer | image => exact List.forall_mem_nil _
  | paragraph | link => exact Shape.contained_of_paragraph? h he
  | heading _ hsize =>
    rw [Shape.recognize_heading_tag hsize] at h
    exact Shape.contained_of_heading? h he
  | list => exact absurd rfl hlist
  | button => exact absurd rfl hbutton

theorem enclosed_withMarkedScheme (own : Option ColorScheme) (content : Block.Content) :
    (Content.withMarkedScheme own content).enclosed = content.enclosed := by
  cases content <;> rfl

theorem contained_content {source : Slice}
    (hbody : ∀ body, contentBody source = .ok body → '\\' ∉ body.chars ∧ TagsApart body.chars) :
    ∀ b ∈ (Source.content scheme source).1, b.kind ≠ .list → b.kind ≠ .button →
      b.content.Contained := by
  intro b hb hlist hbutton
  cases hsource : contentBody source with
  | error e =>
    rw [Source.content, hsource] at hb
    cases hb
  | ok body =>
    obtain ⟨hescape, hapart⟩ := hbody body hsource
    obtain ⟨segment, hsegment, hbecomes⟩ := becomes_of_mem_content hsource hb
    cases hbecomes with
    | @block tag id content own hkind hrecognize =>
      have hpart : '\\' ∉ segment.slice.chars := by
        obtain ⟨before, after, hchars, -⟩ := (covers_segments body).inside segment hsegment
        exact fun hmem => hescape (by simp [hchars, hmem])
      have helement := (isElement_of_mem_segments hapart hsegment hkind).rewrites
        (Literal.rewrites_text hpart segment.slice.start)
      rw [Block.kind, Content.kind_withMarkedScheme] at hlist hbutton
      rw [Block.Content.Contained, enclosed_withMarkedScheme]
      exact contained_of_recognize hrecognize helement hlist hbutton

end EmailTemplates.Source
