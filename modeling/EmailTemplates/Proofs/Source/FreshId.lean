import EmailTemplates.Proofs.Source.Named

namespace EmailTemplates.Source.Content

variable {used : List String} {marked : Option String} {kind : BlockKind} {index m n : Nat}
  {id : String}

/-- Counting up from `n`, the first number to give a free id is `m`. -/
inductive Tries (used : List String) (kind : BlockKind) : (n m : Nat) → Prop
  | free {n : Nat} : numberedId kind n ∉ used → Tries used kind n n
  | taken {n m : Nat} : numberedId kind n ∈ used → Tries used kind (n + 1) m → Tries used kind n m

theorem tries_iff_isLeast :
    Tries used kind n m ↔ IsLeast {k | n ≤ k ∧ numberedId kind k ∉ used} m := by
  constructor
  · intro h
    induction h with
    | free hfree => exact ⟨⟨Nat.le_refl _, hfree⟩, fun k hk => hk.1⟩
    | @taken n m hmem _ ih =>
      obtain ⟨⟨hle, hfree⟩, hleast⟩ := ih
      refine ⟨⟨Nat.le_of_succ_le hle, hfree⟩, fun k ⟨hk, hkfree⟩ => hleast ⟨?_, hkfree⟩⟩
      exact Nat.lt_of_le_of_ne hk fun heq => hkfree (heq ▸ hmem)
  · rintro ⟨⟨hle, hfree⟩, hleast⟩
    induction hd : m - n generalizing n with
    | zero =>
      obtain rfl : n = m := by omega
      exact .free hfree
    | succ d ih =>
      have hmem : numberedId kind n ∈ used := by
        by_contra hnot
        have hmn : m ≤ n := hleast ⟨Nat.le_refl n, hnot⟩
        omega
      have hnext : m ∈ lowerBounds {k | n + 1 ≤ k ∧ numberedId kind k ∉ used} :=
        fun k hk => hleast ⟨Nat.le_of_succ_le hk.1, hk.2⟩
      exact .taken hmem (ih hnext (by omega) (by omega))

theorem exists_tries (used : List String) (kind : BlockKind) (index : Nat) :
    ∃ n, Tries used kind (index + 1) n ∧ freshId used kind index = numberedId kind n := by
  obtain ⟨k, hfind, hfresh⟩ := exists_find?_freshId used kind index
  obtain ⟨hk, -, hbefore⟩ := List.find?_range_eq_some.mp hfind
  refine ⟨index + 1 + k, tries_iff_isLeast.mpr ⟨⟨Nat.le_add_right _ k, by simpa using hk⟩, ?_⟩,
    hfresh⟩
  rintro m ⟨hle, hm⟩
  by_contra hlt
  obtain ⟨j, rfl⟩ := Nat.exists_eq_add_of_le hle
  have hj := hbefore j (by omega)
  simp [hm] at hj

/-- The id that a block of a kind gets at a place, if `marked` is the id that a marker gives it. -/
inductive Chosen (used : List String) (marked : Option String) (kind : BlockKind) (index : Nat) :
    String → Prop
  | marked {id : String} : marked = some id → id ∉ used → Chosen used marked kind index id
  | numbered {n : Nat} : (∀ id ∈ marked, id ∈ used) →
      IsLeast {k | index < k ∧ numberedId kind k ∉ used} n →
      Chosen used marked kind index (numberedId kind n)

theorem chosen_iff : Chosen used marked kind index id ↔ id = chosenId used marked kind index := by
  obtain ⟨n, htries, hfresh⟩ := exists_tries used kind index
  have hleast := tries_iff_isLeast.mp htries
  cases hfilter : marked.filter fun id => !used.contains id with
  | some own =>
    obtain ⟨rfl, hown⟩ := Option.filter_eq_some_iff.mp hfilter
    have hfree : own ∉ used := by simpa using hown
    rw [chosenId, hfilter]
    constructor
    · intro h
      cases h with
      | marked hid _ => exact (Option.some.inj hid).symm
      | numbered hused _ => exact absurd (hused own rfl) hfree
    · rintro rfl
      exact .marked rfl hfree
  | none =>
    have hused : ∀ id ∈ marked, id ∈ used := by
      simpa using Option.filter_eq_none_iff.mp hfilter
    rw [chosenId, hfilter]
    change _ ↔ id = freshId used kind index
    rw [hfresh]
    constructor
    · intro h
      cases h with
      | marked hid hfree => exact absurd (hused _ hid) hfree
      | numbered _ hother => rw [hother.unique hleast]
    · rintro rfl
      exact .numbered hused hleast

theorem add_eq (c : Content) (content : Block.Content) :
    let r := c.nextId content.kind c.blocks.length
    c.add content = { r.2 with
      blocks := c.blocks ++ [⟨r.1, withMarkedScheme (c.marker.bind (·.scheme)) content⟩] } := by
  simp only [add, nextId, kind_withMarkedScheme]

theorem nextId_chosen (c : Content) (kind : BlockKind) (index : Nat) :
    let r := c.nextId kind index
    (∃ n, Tries c.usedIds kind (index + 1) n ∧
        freshId c.usedIds kind index = numberedId kind n) ∧
      r.1 ∉ c.usedIds ∧
      (∀ id, Chosen c.usedIds (c.marker.map (·.id)) kind index id ↔ id = r.1) ∧
      r.2 = { c with usedIds := c.usedIds ++ [r.1], marker := none } ∧
      ∀ content : Block.Content,
        let next := c.nextId content.kind c.blocks.length
        c.add content = { next.2 with
          blocks := c.blocks ++ [⟨next.1, withMarkedScheme (c.marker.bind (·.scheme)) content⟩] } :=
  ⟨exists_tries c.usedIds kind index, chosenId_not_mem kind index, fun _ => chosen_iff, rfl,
    c.add_eq⟩

example : chosenId ["intro", "list-3"] (some "intro") .list 2 = "list-4" := by decide

end EmailTemplates.Source.Content
