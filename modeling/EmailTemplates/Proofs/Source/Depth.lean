import EmailTemplates.Proofs.Source.Between

namespace EmailTemplates.Source

open EmailTemplates.Text (Slice)
open Tag (between? Bounds bounds_angle takeWhile_angle between?_takeWhile_append)

variable {c : Char} {cs ds inside name : List Char} {depth depth' : Nat}

namespace Tag

inductive Moves (name : List Char) (tag : Tag) : Nat → Nat → Prop
  | other (depth : Nat) : tag.name ≠ name ∨ tag.selfClosing = true → Moves name tag depth depth
  | opens (depth : Nat) : tag.name = name → tag.selfClosing = false → tag.closing = false →
      Moves name tag depth (depth + 1)
  | closes (depth : Nat) : tag.name = name → tag.selfClosing = false → tag.closing = true →
      Moves name tag (depth + 1) depth

theorem Moves.add {tag : Tag} (h : tag.Moves name depth depth') (k : Nat) :
    tag.Moves name (depth + k) (depth' + k) := by
  cases h with
  | other _ hother => exact .other _ hother
  | opens _ hname hself hopening =>
    rw [Nat.add_right_comm]
    exact .opens _ hname hself hopening
  | closes _ hname hself hclosing =>
    rw [Nat.add_right_comm]
    exact .closes _ hname hself hclosing

theorem Moves.eq_of_ne {tag : Tag} (h : tag.Moves name depth depth') (hname : tag.name ≠ name) :
    depth = depth' := by
  cases h with
  | other => rfl
  | opens _ heq => exact absurd heq hname
  | closes _ heq => exact absurd heq hname

theorem moves_or (tag : Tag) (name : List Char) (depth : Nat) :
    (∃ depth', tag.Moves name depth depth') ∨
      depth = 0 ∧ tag.name = name ∧ tag.selfClosing = false ∧ tag.closing = true := by
  by_cases hname : tag.name = name
  · cases hself : tag.selfClosing with
    | true => exact .inl ⟨depth, .other depth (.inr hself)⟩
    | false =>
      cases hclosing : tag.closing with
      | false => exact .inl ⟨depth + 1, .opens depth hname hself hclosing⟩
      | true =>
        cases depth with
        | zero => exact .inr ⟨rfl, hname, rfl, rfl⟩
        | succ depth => exact .inl ⟨depth, .closes depth hname hself hclosing⟩
  · exact .inl ⟨depth, .other depth (.inl hname)⟩

end Tag

/-- With so many elements of the name open in front of the text, as many are open behind it. The
text has all of each tag that begins in it. -/
inductive Leads (name : List Char) : Nat → List Char → Nat → Prop
  | nil (depth : Nat) : Leads name depth [] depth
  | char {depth depth' : Nat} {c : Char} {cs : List Char} : c ≠ '<' → Leads name depth cs depth' →
      Leads name depth (c :: cs) depth'
  | angle {depth depth' : Nat} {cs : List Char} : between? (cs.takeWhile (· != '>')) = none →
      Leads name depth cs depth' → Leads name depth ('<' :: cs) depth'
  | tag {depth k depth' : Nat} {tag : Tag} {inside cs : List Char} : tag.Encloses inside →
      tag.Moves name depth k → Leads name k cs depth' →
      Leads name depth ('<' :: (inside ++ '>' :: cs)) depth'

theorem Leads.add (h : Leads name depth cs depth') (k : Nat) :
    Leads name (depth + k) cs (depth' + k) := by
  induction h with
  | nil => exact .nil _
  | char hc _ ih => exact ih.char hc
  | angle hnone _ ih => exact ih.angle hnone
  | tag hinside hmoves _ ih => exact ih.tag hinside (hmoves.add k)

namespace Segment

theorem afterClosing_of_read_none {n : Nat} (h : Tag.read ⟨n, c :: cs⟩ = none) (depth : Nat) :
    afterClosing name depth ⟨n, c :: cs⟩ = afterClosing name depth ⟨n + c.utf8Size, cs⟩ :=
  afterClosing_congr (Slice.find_of_none h)

theorem afterClosing_of_moves {tag : Tag} {s rest : Slice} (h : Tag.read s = some (tag, rest))
    (hmoves : tag.Moves name depth depth') :
    afterClosing name depth s = afterClosing name depth' rest := by
  rw [afterClosing_of_some (Slice.find_of_some h)]
  cases hmoves with
  | other _ hother => rw [if_pos hother]
  | opens _ hname hself hopening => simp [hname, hself, hopening]
  | closes _ hname hself hclosing => simp [hname, hself, hclosing]

theorem afterClosing_of_leads (h : Leads name depth cs depth') (n : Nat) (rest : List Char) :
    ∃ m, afterClosing name depth ⟨n, cs ++ '<' :: rest⟩ =
      afterClosing name depth' ⟨m, '<' :: rest⟩ := by
  induction h generalizing n with
  | nil => exact ⟨n, rfl⟩
  | @char depth _ c cs hc _ ih =>
    obtain ⟨m, hm⟩ := ih (n + c.utf8Size)
    exact ⟨m, (afterClosing_of_read_none (Tag.read_eq_none hc n _) depth).trans hm⟩
  | @angle depth _ cs hnone _ ih =>
    obtain ⟨m, hm⟩ := ih (n + '<'.utf8Size)
    have hnone' := (between?_takeWhile_append (bounds_angle rest) cs).mpr hnone
    exact ⟨m, (afterClosing_of_read_none (Tag.read_of_between? hnone' n) depth).trans hm⟩
  | @tag depth _ _ tag inside cs hinside hmoves _ ih =>
    obtain ⟨k, hk⟩ := Tag.read_angles hinside.noAngle n (cs ++ '<' :: rest)
    rw [hinside.isTag] at hk
    obtain ⟨m, hm⟩ := ih k
    refine ⟨m, ?_⟩
    rw [List.cons_append, List.append_assoc, List.cons_append, afterClosing_of_moves hk hmoves, hm]

end Segment

theorem Leads.skipsTo (h : Leads name 0 cs 0) : Segment.SkipsTo name cs := by
  intro depth n rest
  have hdepth := h.add depth
  rw [Nat.zero_add] at hdepth
  exact Segment.afterClosing_of_leads hdepth n rest

theorem exists_leads_of_afterClosing {s rest : Slice} (hs : TagsApart s.chars)
    (h : Segment.afterClosing name depth s = some rest) :
    ∃ inner inside, s.chars = inner ++ '<' :: (inside ++ '>' :: rest.chars) ∧
      Leads name depth inner 0 ∧
      ∃ tag : Tag, tag.Encloses inside ∧ tag.name = name ∧ tag.closing = true := by
  obtain ⟨n, cs⟩ := s
  induction hlen : cs.length using Nat.strong_induction_on generalizing n cs depth with
  | _ len ih =>
    subst hlen
    cases cs with
    | nil =>
      rw [Segment.afterClosing] at h
      cases h
    | cons c cs =>
      -- where no tag is read the search goes on behind the character
      have hgoOn (hread : Tag.read ⟨n, c :: cs⟩ = none) :
          ∃ inner inside, cs = inner ++ '<' :: (inside ++ '>' :: rest.chars) ∧
            Leads name depth inner 0 ∧
            ∃ tag : Tag, tag.Encloses inside ∧ tag.name = name ∧ tag.closing = true := by
        rw [Segment.afterClosing_of_read_none hread] at h
        exact ih _ (Nat.lt_succ_self _) _ _ (hs.suffix (List.suffix_cons c cs)) h rfl
      by_cases hc : c = '<'
      · subst hc
        cases hbetween : between? (cs.takeWhile (· != '>')) with
        | none =>
          obtain ⟨inner, inside, rfl, hleads, hclosing⟩ :=
            hgoOn (Tag.read_of_between? hbetween n)
          refine ⟨'<' :: inner, inside, rfl, hleads.angle ?_, hclosing⟩
          exact (between?_takeWhile_append (bounds_angle _) inner).mp hbetween
        | some tag =>
          have hmem : '>' ∈ cs := by
            by_contra hmem
            obtain ⟨inner, inside, rfl, -⟩ := hgoOn (Tag.read_of_not_mem hmem n)
            simp at hmem
          obtain ⟨inside, after, rfl, hinside⟩ := List.eq_append_cons_of_mem hmem
          rw [takeWhile_angle hinside] at hbetween
          have hencloses : tag.Encloses inside := hs.encloses hinside hbetween
          obtain ⟨m, hm⟩ := Tag.read_angles hinside n after
          rw [hbetween, Option.map_some] at hm
          rcases tag.moves_or name depth with ⟨k, hmoves⟩ | ⟨rfl, hname, hself, hclosing⟩
          · rw [Segment.afterClosing_of_moves hm hmoves] at h
            have hafter : TagsApart after := hs.suffix ⟨'<' :: (inside ++ ['>']), by simp⟩
            obtain ⟨inner, inside', rfl, hleads, htag⟩ := ih _ (by simp; omega) _ _ hafter h rfl
            exact ⟨'<' :: (inside ++ '>' :: inner), inside', by simp, hleads.tag hencloses hmoves,
              htag⟩
          · rw [Segment.afterClosing_of_some (Slice.find_of_some hm)] at h
            simp only [hname, hself, hclosing, ne_eq, not_true_eq_false, Bool.false_eq_true,
              or_self, if_false, Bool.not_true, Option.some.injEq] at h
            subst h
            exact ⟨[], inside, rfl, .nil 0, tag, hencloses, hname, hclosing⟩
      · obtain ⟨inner, inside, rfl, hleads, hclosing⟩ := hgoOn (Tag.read_eq_none hc n cs)
        exact ⟨c :: inner, inside, rfl, hleads.char hc, hclosing⟩

theorem leads_append_iff (h : '<' ∉ cs) :
    Leads name depth (cs ++ ds) depth' ↔ Leads name depth ds depth' := by
  induction cs with
  | nil => rfl
  | cons c cs ih =>
    rw [List.mem_cons, not_or] at h
    rw [List.cons_append, ← ih h.2]
    refine ⟨fun hleads => ?_, .char (Ne.symm h.1)⟩
    generalize cs ++ ds = rest at hleads
    cases hleads with
    | char _ hleads => exact hleads
    | angle => exact absurd rfl h.1
    | tag => exact absurd rfl h.1

namespace Leads

theorem eq_of_not_mem (h : Leads name depth cs depth') (hcs : '<' ∉ cs) : depth = depth' := by
  rw [← List.append_nil cs, leads_append_iff hcs] at h
  cases h
  rfl

theorem of_tag {tag : Tag} (h : Leads name depth ('<' :: (inside ++ '>' :: cs)) depth')
    (hinside : '>' ∉ inside) (htag : between? inside = some tag) :
    ∃ k, tag.Moves name depth k ∧ Leads name k cs depth' := by
  generalize hds : inside ++ '>' :: cs = ds at h
  have htake : ds.takeWhile (· != '>') = inside := by rw [← hds, takeWhile_angle hinside]
  cases h with
  | char hne => exact absurd rfl hne
  | angle hnone =>
    rw [htake, htag] at hnone
    cases hnone
  | tag hencloses hmoves hleads =>
    rw [takeWhile_angle hencloses.noAngle] at htake
    subst htake
    obtain rfl := Option.some.inj (htag.symm.trans hencloses.isTag)
    obtain rfl := (List.cons.inj (List.append_cancel_left hds)).2
    exact ⟨_, hmoves, hleads⟩

theorem split (h : Leads name depth (cs ++ ds) depth') (hhead : ∀ c ∈ ds.head?, Bounds c)
    (hds : ∀ inside rest, ds = inside ++ '>' :: rest → '>' ∉ inside → ['<', '/'] <+: inside) :
    ∃ k, Leads name depth cs k ∧ Leads name k ds depth' := by
  generalize hall : cs ++ ds = all at h
  induction h generalizing cs with
  | nil depth =>
    obtain ⟨rfl, rfl⟩ := List.append_eq_nil_iff.mp hall
    exact ⟨depth, .nil depth, .nil depth⟩
  | @char depth depth' c rest hc hrest ih =>
    rcases List.append_eq_cons_iff.mp hall with ⟨rfl, rfl⟩ | ⟨cs, rfl, hcs⟩
    · exact ⟨depth, .nil depth, hrest.char hc⟩
    · obtain ⟨k, hleads, hbehind⟩ := ih hcs.symm
      exact ⟨k, hleads.char hc, hbehind⟩
  | @angle depth depth' rest hnone hrest ih =>
    rcases List.append_eq_cons_iff.mp hall with ⟨rfl, rfl⟩ | ⟨cs, rfl, rfl⟩
    · exact ⟨depth, .nil depth, hrest.angle hnone⟩
    · obtain ⟨k, hleads, hbehind⟩ := ih rfl
      exact ⟨k, hleads.angle ((between?_takeWhile_append hhead cs).mp hnone), hbehind⟩
  | @tag depth _ depth' tag inside rest hencloses hmoves hrest ih =>
    rcases List.append_eq_cons_iff.mp hall with ⟨rfl, rfl⟩ | ⟨cs, rfl, hcs⟩
    · exact ⟨depth, .nil depth, hrest.tag hencloses hmoves⟩
    · rcases Slice.mem_parts hcs.symm with ⟨after, rfl, rfl⟩ | ⟨inside', rfl, hafter⟩
      · obtain ⟨k, hleads, hbehind⟩ := ih rfl
        exact ⟨k, by simpa using hleads.tag hencloses hmoves, hbehind⟩
      · refine absurd ?_ hencloses.apart
        have hinside := hds _ _ hafter fun hmem =>
          hencloses.noAngle (List.mem_append_right cs hmem)
        exact hinside.isInfix.trans (List.suffix_append cs inside').isInfix

theorem trim (h : Leads name depth cs depth') : Leads name depth (Text.trim cs) depth' := by
  obtain ⟨before, after, hcs, hbefore, hafter⟩ := Text.exists_blanks cs
  have hclose : '>' ∉ after := Text.not_mem_of_blank (by decide) hafter
  have hbounds : ∀ c ∈ after.head?, Bounds c := by
    intro c hc
    have hblank := hafter c (List.mem_of_mem_head? hc)
    refine ⟨Text.isWord_of_isBlank hblank, ?_⟩
    rintro rfl
    exact absurd hblank (by decide)
  rw [hcs, leads_append_iff (Text.not_mem_of_blank (by decide) hbefore)] at h
  obtain ⟨k, htrim, hblank⟩ := h.split hbounds fun inside rest hrest =>
    absurd (by simp [hrest]) hclose
  rwa [← hblank.eq_of_not_mem (Text.not_mem_of_blank (by decide) hafter)]

end Leads

end EmailTemplates.Source
