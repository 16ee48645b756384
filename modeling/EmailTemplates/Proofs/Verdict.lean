import EmailTemplates.Draft.Basic
import EmailTemplates.Proofs.Source.Recognize
import EmailTemplates.Proofs.Variable.Names
import EmailTemplates.Source.Generate

namespace EmailTemplates

open Outcome

inductive IsFirst {α : Type} (P : α → Prop) : List α → α → Prop
  | here {x : α} {xs : List α} : P x → IsFirst P (x :: xs) x
  | there {x y : α} {xs : List α} : ¬ P y → IsFirst P xs x → IsFirst P (y :: xs) x

namespace IsFirst

variable {α : Type} {P : α → Prop} {xs ys : List α} {x y : α}

theorem mem_and_holds (h : IsFirst P xs x) : x ∈ xs ∧ P x := by
  induction h with
  | here hx => exact ⟨List.mem_cons_self, hx⟩
  | there _ _ ih => exact ⟨List.mem_cons_of_mem _ ih.1, ih.2⟩

theorem cons_iff : IsFirst P (y :: ys) x ↔ P y ∧ x = y ∨ ¬ P y ∧ IsFirst P ys x := by
  constructor
  · rintro (hx | ⟨hy, h⟩)
    · exact .inl ⟨hx, rfl⟩
    · exact .inr ⟨hy, h⟩
  · rintro (⟨hy, rfl⟩ | ⟨hy, h⟩)
    · exact .here hy
    · exact .there hy h

theorem append_iff :
    IsFirst P (xs ++ ys) x ↔ IsFirst P xs x ∨ (∀ a ∈ xs, ¬ P a) ∧ IsFirst P ys x := by
  induction xs with
  | nil =>
    have hnil : ¬ IsFirst P [] x := nofun
    simp [hnil]
  | cons a xs ih =>
    rw [List.cons_append, cons_iff, cons_iff, ih, List.forall_mem_cons]
    tauto

theorem exists_of_mem (hmem : y ∈ xs) (hy : P y) : ∃ x, IsFirst P xs x := by
  induction xs with
  | nil => cases hmem
  | cons a xs ih =>
    by_cases ha : P a
    · exact ⟨a, .here ha⟩
    · rcases List.mem_cons.mp hmem with rfl | hmem
      · exact absurd hy ha
      · obtain ⟨x, hx⟩ := ih hmem
        exact ⟨x, .there ha hx⟩

end IsFirst

namespace Variable

theorem eq_or_eq_chars_unbraced (cs : List Char) :
    cs = unbraced cs ∨ cs = Token.chars (unbraced cs) := by
  unfold unbraced
  split
  · rename_i inner
    split
    · rename_i reversed hrev
      refine .inr ?_
      have hinner := congrArg List.reverse hrev
      simp only [List.reverse_reverse, List.reverse_cons, List.append_assoc, List.cons_append,
        List.nil_append] at hinner
      simp [Token.chars, hinner]
    · exact .inl rfl
  · exact .inl rfl

theorem eq_or_eq_token_of_nameOf? {field name : String} (h : nameOf? field = some name) :
    field = name ∨ field = token name := by
  simp only [nameOf?] at h
  split at h
  · cases h
    rw [token, String.toList_ofList]
    refine (eq_or_eq_chars_unbraced field.toList).imp (fun hcs => ?_) fun hcs => ?_
    · rw [← hcs, String.ofList_toList]
    · rw [← hcs, String.ofList_toList]
  · cases h

end Variable

namespace Block

inductive Requirement where
  | text (value : String)
  | items (count : Nat)
  | steps (count : Nat)
  | variable (value : String)
  | contentId (value : String)
  | width (pixels : UInt32)
  | height (pixels : UInt32)
  | level (level : UInt8)
deriving DecidableEq, Repr

namespace Requirement

def Met : Requirement → Prop
  | text value => ∃ c ∈ value.toList, Text.isBlank c = false
  | items count | steps count => count ≠ 0
  | «variable» value => ∃ name, Variable.isValidName name = true ∧
      (value = name ∨ value = Variable.token name)
  | contentId value => value.toList ≠ [] ∧
      ∀ c ∈ value.toList, c.isAlphanum = true ∨ c ∈ ['_', '-', '.', '@']
  | width pixels => 1 ≤ pixels.toNat ∧ pixels.toNat ≤ 600
  | height pixels => pixels ≠ 0
  | level number => 1 ≤ number.toNat ∧ number.toNat ≤ 3

def defect : Requirement → Defect
  | text _ => .blank
  | items _ => .noItems
  | steps _ => .noSteps
  | «variable» value => .notAVariable value
  | contentId _ => .notAContentId
  | width _ => .widthOutOfRange 600
  | height _ => .noHeight
  | level _ => .levelOutOfRange

theorem met_text {value : String} : (text value).Met ↔ Text.isBlankText value = false := by
  rw [Text.isBlankText, List.all_eq_false]
  simp only [Met, Bool.not_eq_true]

theorem met_variable {value : String} :
    («variable» value).Met ↔ ∃ name, Variable.nameOf? value = some name := by
  constructor
  · rintro ⟨name, hname, rfl | rfl⟩
    · exact ⟨_, Variable.nameOf?_bare hname⟩
    · exact ⟨_, Variable.nameOf?_token hname⟩
  · rintro ⟨name, hname⟩
    exact ⟨name, Variable.isValidName_of_nameOf? hname, Variable.eq_or_eq_token_of_nameOf? hname⟩

theorem met_contentId {value : String} : (contentId value).Met ↔ isContentId value = true := by
  simp only [Met, isContentId, Text.isNameChar, Bool.and_eq_true, Bool.not_eq_true',
    List.isEmpty_eq_false_iff, List.all_eq_true, Bool.or_eq_true, beq_iff_eq, List.mem_cons,
    List.not_mem_nil, or_false, or_assoc]

theorem met_width {pixels : UInt32} : (width pixels).Met ↔ Fragment.isWidth pixels = true := by
  rw [Fragment.isWidth, Bool.and_eq_true, decide_eq_true_eq, decide_eq_true_eq]
  exact Iff.rfl

theorem met_level {number : UInt8} :
    (level number).Met ↔ ∃ size, Fragment.headingSize? number = some size := by
  unfold Fragment.headingSize?
  simp only [Met]
  split <;> simp_all
  omega

end Requirement

def Content.requirements : Content → List (String × Requirement)
  | greeting nameVariable => [("nameVariable", .variable nameVariable)]
  | paragraph text => [("text", .text text)]
  | infoBox _ items _ =>
    ("items", .items items.length) :: items.map fun item => ("items.label", .text item.label)
  | button label urlVariable _ =>
    [("label", .text label), ("urlVariable", .variable urlVariable)]
  | stepList _ steps =>
    ("steps", .steps steps.length) :: steps.map fun step => ("steps.title", .text step.title)
  | code value _ => [("code", .text value)]
  | image contentId _ width =>
    [("contentId", .text contentId), ("contentId", .contentId contentId)] ++
      width.toList.map fun pixels => ("width", .width pixels)
  | divider => []
  | spacer height => [("height", .height height)]
  | heading text level => [("text", .text text), ("level", .level level)]
  | list items _ => [("items", .items items.length)]
  | link text urlVariable _ => [("text", .text text), ("urlVariable", .variable urlVariable)]
  | customHtml _ => []

def Content.WellFormed (content : Content) : Prop :=
  ∀ p ∈ content.requirements, p.2.Met

structure Blamed (id : String) (asked : List (String × Requirement)) (m : MalformedBlock) :
    Prop where
  blockId : m.blockId = id
  field : ∃ r, IsFirst (fun p => ¬ p.2.Met) asked (m.field, r) ∧ m.defect = r.defect

end Block

namespace Fragment

open Block (Requirement Blamed)

variable {α : Type} {id field : String} {asked : List (String × Requirement)}

def Asks (id : String) (x : Except MalformedBlock α) (asked : List (String × Requirement)) :
    Prop :=
  ∀ m, x = .error m ↔ Blamed id asked m

theorem exists_blamed (id : String) {p : String × Requirement} (hmem : p ∈ asked)
    (hp : ¬ p.2.Met) : ∃ m, Blamed id asked m := by
  obtain ⟨⟨field, r⟩, hfirst⟩ := IsFirst.exists_of_mem (P := fun p => ¬ p.2.Met) hmem hp
  exact ⟨⟨id, field, r.defect⟩, rfl, r, hfirst, rfl⟩

theorem Asks.met_of_ok {a : α} (h : Asks id (.ok a) asked) : ∀ p ∈ asked, p.2.Met := by
  intro p hmem
  by_contra hp
  obtain ⟨m, hm⟩ := exists_blamed id hmem hp
  cases (h m).mpr hm

theorem Asks.not_met_of_error {e : MalformedBlock}
    (h : Asks id (.error e : Except MalformedBlock α) asked) : ¬ ∀ p ∈ asked, p.2.Met := by
  intro hmet
  obtain ⟨-, r, hfirst, -⟩ := (h e).mp rfl
  exact hfirst.mem_and_holds.2 (hmet _ hfirst.mem_and_holds.1)

theorem asks_ok (a : α) : Asks id (.ok a) [] := by
  intro m
  constructor
  · rintro ⟨⟩
  · rintro ⟨-, r, ⟨⟩, -⟩

theorem asks_one {x : Except MalformedBlock α} {r : Requirement} (hmet : r.Met → ∃ a, x = .ok a)
    (hunmet : ¬ r.Met → x = malformed id field r.defect) : Asks id x [(field, r)] := by
  intro m
  by_cases h : r.Met
  · obtain ⟨a, rfl⟩ := hmet h
    constructor
    · rintro ⟨⟩
    · rintro ⟨-, s, hfirst, -⟩
      obtain ⟨hmem, hs⟩ := hfirst.mem_and_holds
      cases List.mem_singleton.mp hmem
      exact absurd h hs
  · rw [hunmet h]
    constructor
    · rintro ⟨⟩
      exact ⟨rfl, r, .here h, rfl⟩
    · rintro ⟨hid, s, hfirst, hdefect⟩
      obtain ⟨hmem, -⟩ := hfirst.mem_and_holds
      obtain ⟨blockId, f, defect⟩ := m
      cases List.mem_singleton.mp hmem
      subst hid hdefect
      rfl

theorem Asks.bind {β : Type} {x : Except MalformedBlock α} {f : α → Except MalformedBlock β}
    {more : List (String × Requirement)} (hx : Asks id x asked) (hf : ∀ a, Asks id (f a) more) :
    Asks id (x >>= f) (asked ++ more) := by
  intro m
  cases x with
  | error e =>
    have hme : (Except.error e : Except MalformedBlock β) = .error m ↔ Blamed id asked m := by
      rw [← hx m, Except.error.injEq, Except.error.injEq]
    change (Except.error e : Except MalformedBlock β) = .error m ↔ _
    rw [hme]
    constructor
    · rintro ⟨hid, r, hfirst, hdefect⟩
      exact ⟨hid, r, IsFirst.append_iff.mpr (.inl hfirst), hdefect⟩
    · rintro ⟨hid, r, hfirst, hdefect⟩
      rcases IsFirst.append_iff.mp hfirst with hfirst | ⟨hmet, -⟩
      · exact ⟨hid, r, hfirst, hdefect⟩
      · obtain ⟨-, s, hs, -⟩ := (hx e).mp rfl
        exact absurd hs.mem_and_holds.2 (hmet _ hs.mem_and_holds.1)
  | ok a =>
    change f a = .error m ↔ _
    have hmet := hx.met_of_ok
    rw [hf a m]
    constructor
    · rintro ⟨hid, r, hfirst, hdefect⟩
      refine ⟨hid, r, IsFirst.append_iff.mpr (.inr ⟨fun p hp => ?_, hfirst⟩), hdefect⟩
      exact not_not_intro (hmet p hp)
    · rintro ⟨hid, r, hfirst, hdefect⟩
      refine ⟨hid, r, ?_, hdefect⟩
      rcases IsFirst.append_iff.mp hfirst with hfirst | ⟨-, hfirst⟩
      · exact absurd (hmet _ hfirst.mem_and_holds.1) hfirst.mem_and_holds.2
      · exact hfirst

theorem asks_forM {xs : List α} {f : α → Except MalformedBlock Unit}
    {ask : α → String × Requirement} (h : ∀ x, Asks id (f x) [ask x]) :
    Asks id (xs.forM f) (xs.map ask) := by
  induction xs with
  | nil => exact asks_ok ()
  | cons x xs ih => exact (h x).bind fun _ => ih

theorem asks_unless {c : Prop} [Decidable c] {r : Requirement}
    {rest : Unit → Except MalformedBlock α} {other : Except MalformedBlock α}
    (hc : ¬ c ↔ r.Met) (h : Asks id other asked) :
    Asks id (if c then malformed id field r.defect >>= rest else other) ((field, r) :: asked) := by
  have hguard : Asks id (if c then malformed id field r.defect else .ok ()) [(field, r)] := by
    refine asks_one (fun hmet => ?_) fun hunmet => ?_
    · exact ⟨(), if_neg (hc.mpr hmet)⟩
    · exact if_pos (not_not.mp (mt hc.mp hunmet))
  have hbind := hguard.bind fun _ => h
  by_cases hif : c
  · rw [if_pos hif] at hbind ⊢
    exact hbind
  · rw [if_neg hif] at hbind ⊢
    exact hbind

theorem asks_requireText (field value : String) :
    Asks id (requireText id field value) [(field, .text value)] := by
  refine asks_one (fun hmet => ?_) fun hunmet => ?_
  · exact ⟨(), requireText_eq_ok.mpr (Block.Requirement.met_text.mp hmet)⟩
  · rw [Block.Requirement.met_text, Bool.not_eq_false] at hunmet
    exact if_pos hunmet

theorem asks_requireVariable (field value : String) :
    Asks id (requireVariable id field value) [(field, .variable value)] := by
  refine asks_one (fun hmet => ?_) fun hunmet => ?_
  · obtain ⟨name, hname⟩ := Block.Requirement.met_variable.mp hmet
    exact ⟨name, requireVariable_eq_ok.mpr hname⟩
  · rw [requireVariable]
    split
    · rename_i name hname
      exact absurd (Block.Requirement.met_variable.mpr ⟨name, hname⟩) hunmet
    · rfl

end Fragment

namespace Block

open Fragment Requirement

theorem asks_fragment (scheme : ColorScheme) (b : Block) :
    Asks b.id (b.fragment scheme) b.content.requirements := by
  obtain ⟨id, content⟩ := b
  cases content with
  | greeting v => exact (asks_requireVariable _ v).bind fun _ => asks_ok _
  | paragraph text => exact (asks_requireText _ text).bind fun _ => asks_ok _
  | infoBox title items own =>
    have hlabels : Asks id (items.forM fun item => requireText id "items.label" item.label)
        (items.map fun item => ("items.label", .text item.label)) :=
      asks_forM fun item => asks_requireText _ item.label
    refine asks_unless (r := .items items.length) ?_ ?_
    · simp [Met]
    · have h := hlabels.bind fun _ => asks_ok (infoBoxMarkup (own.getD scheme).palette title items)
      rwa [List.append_nil] at h
  | button label v own =>
    refine (asks_requireText _ label).bind fun _ => ?_
    exact (asks_requireVariable _ v).bind fun _ => asks_ok _
  | stepList title steps =>
    have htitles : Asks id (steps.forM fun step => requireText id "steps.title" step.title)
        (steps.map fun step => ("steps.title", .text step.title)) :=
      asks_forM fun step => asks_requireText _ step.title
    refine asks_unless (r := .steps steps.length) ?_ ?_
    · simp [Met]
    · have h := htitles.bind fun _ => asks_ok (stepListMarkup scheme.palette title steps)
      rwa [List.append_nil] at h
  | code value label => exact (asks_requireText _ value).bind fun _ => asks_ok _
  | image contentId alt width =>
    refine (asks_requireText _ contentId).bind fun _ => ?_
    refine asks_unless (r := .contentId contentId) ?_ ?_
    · simp [met_contentId]
    · cases width with
      | none => exact asks_ok _
      | some pixels =>
        refine asks_unless (r := .width pixels) ?_ (asks_ok _)
        simp [met_width]
  | divider => exact asks_ok _
  | spacer height => exact asks_unless (r := .height height) Iff.rfl (asks_ok _)
  | heading text level =>
    refine (asks_requireText _ text).bind fun _ => ?_
    refine asks_one (fun hmet => ?_) fun hunmet => ?_
    · obtain ⟨size, hsize⟩ := met_level.mp hmet
      simp only [hsize]
      exact ⟨_, rfl⟩
    · split
      · rename_i size hsize
        exact absurd (met_level.mpr ⟨size, hsize⟩) hunmet
      · rfl
  | list items ordered =>
    refine asks_unless (r := .items items.length) ?_ (asks_ok _)
    simp [Met]
  | link text v own =>
    refine (asks_requireText _ text).bind fun _ => ?_
    exact (asks_requireVariable _ v).bind fun _ => asks_ok _
  | customHtml html => exact asks_ok _

end Block

namespace Template

def Accepted (t : Template) : Prop :=
  t.validate = .ok () ∧ ∀ b ∈ t.blocks, b.content.WellFormed

def RefusedFor (t : Template) : RenderError → Prop
  | .invalidTemplate e => t.validate = .error e
  | .malformedBlock m => t.validate = .ok () ∧
      ∃ b, IsFirst (fun b => ¬ b.content.WellFormed) t.blocks b ∧
        Block.Blamed b.id b.content.requirements m

/-- An outcome that says of the template whether it is accepted, and why it is not. -/
structure Judged {α : Type} (t : Template) (x : Except RenderError α) : Prop where
  accepts : (∃ a, x = .ok a) ↔ t.Accepted
  refuses : ∀ e, x = .error e ↔ t.RefusedFor e

variable {α β : Type} {t : Template}

theorem mapM_fragment_eq_error {scheme : ColorScheme} {blocks : List Block} {m : MalformedBlock} :
    blocks.mapM (Block.fragment scheme) = .error m ↔
      ∃ b, IsFirst (fun b => ¬ b.content.WellFormed) blocks b ∧
        Block.Blamed b.id b.content.requirements m := by
  induction blocks with
  | nil =>
    constructor
    · rintro ⟨⟩
    · rintro ⟨b, ⟨⟩, -⟩
  | cons b blocks ih =>
    rw [List.mapM_cons]
    have hb := Block.asks_fragment scheme b
    cases hx : b.fragment scheme with
    | error e =>
      rw [hx] at hb
      have hbad : ¬ b.content.WellFormed := hb.not_met_of_error
      constructor
      · rintro ⟨⟩
        exact ⟨b, .here hbad, (hb _).mp rfl⟩
      · rintro ⟨c, hc, hblamed⟩
        rcases IsFirst.cons_iff.mp hc with ⟨-, rfl⟩ | ⟨hgood, -⟩
        · rw [(hb m).mpr hblamed]
          rfl
        · exact absurd hbad hgood
    | ok fragment =>
      rw [hx] at hb
      have hgood : b.content.WellFormed := hb.met_of_ok
      refine (bind_eq_error_of_ok fun fragments => ⟨fragment :: fragments, rfl⟩).trans ?_
      refine ih.trans ?_
      constructor
      · rintro ⟨c, hc, hblamed⟩
        exact ⟨c, .there (not_not_intro hgood) hc, hblamed⟩
      · rintro ⟨c, hc, hblamed⟩
        rcases IsFirst.cons_iff.mp hc with ⟨hbad, -⟩ | ⟨-, hc⟩
        · exact absurd hgood hbad
        · exact ⟨c, hc, hblamed⟩

theorem exists_refusedFor (h : ¬ t.Accepted) : ∃ e, t.RefusedFor e := by
  cases hv : t.validate with
  | error e => exact ⟨.invalidTemplate e, hv⟩
  | ok u =>
    obtain ⟨b, hmem, hb⟩ : ∃ b ∈ t.blocks, ¬ b.content.WellFormed := by
      by_contra hall
      push Not at hall
      exact h ⟨hv, hall⟩
    obtain ⟨c, hc⟩ := IsFirst.exists_of_mem (P := fun b => ¬ b.content.WellFormed) hmem hb
    obtain ⟨p, hp, hunmet⟩ : ∃ p ∈ c.content.requirements, ¬ p.2.Met := by
      by_contra hall
      push Not at hall
      exact hc.mem_and_holds.2 hall
    obtain ⟨m, hm⟩ := Fragment.exists_blamed c.id hp hunmet
    exact ⟨.malformedBlock m, hv, c, hc, hm⟩

theorem not_accepted_of_refusedFor {e : RenderError} (h : t.RefusedFor e) : ¬ t.Accepted := by
  rintro ⟨hv, hall⟩
  cases e with
  | invalidTemplate e =>
    rw [RefusedFor, hv] at h
    cases h
  | malformedBlock m =>
    obtain ⟨-, b, hb, -⟩ := h
    exact hb.mem_and_holds.2 (hall b hb.mem_and_holds.1)

theorem judged_of_refuses {x : Except RenderError α} (h : ∀ e, x = .error e ↔ t.RefusedFor e) :
    t.Judged x := by
  refine ⟨⟨?_, fun haccepted => ?_⟩, h⟩
  · rintro ⟨a, rfl⟩
    by_contra hnot
    obtain ⟨e, he⟩ := exists_refusedFor hnot
    cases (h e).mpr he
  · cases x with
    | error e => exact absurd haccepted (not_accepted_of_refusedFor ((h e).mp rfl))
    | ok a => exact ⟨a, rfl⟩

theorem fragments_eq_error {e : RenderError} :
    t.fragments = .error e ↔
      ∃ m, t.blocks.mapM (Block.fragment t.colorScheme) = .error m ∧ e = .malformedBlock m := by
  rw [fragments]
  cases t.blocks.mapM (Block.fragment t.colorScheme) with
  | error m =>
    constructor
    · rintro ⟨⟩
      exact ⟨m, rfl, rfl⟩
    · rintro ⟨m, ⟨⟩, rfl⟩
      rfl
  | ok ms =>
    constructor
    · rintro ⟨⟩
    · rintro ⟨m, ⟨⟩, -⟩

theorem judged_bind {f : List Markup → Except RenderError α} (hf : ∀ ms, ∃ a, f ms = .ok a) :
    t.Judged (t.check >>= fun _ => t.fragments >>= f) := by
  refine judged_of_refuses fun e => ?_
  cases hv : t.validate with
  | error reason =>
    have hc : t.check = .error (.invalidTemplate reason) := by rw [check, hv]; rfl
    rw [hc]
    change (.error (.invalidTemplate reason) : Except RenderError α) = .error e ↔ _
    cases e with
    | invalidTemplate e => simp [RefusedFor, hv]
    | malformedBlock m => simp [RefusedFor, hv]
  | ok u =>
    rw [check_eq_ok.mpr hv]
    change (t.fragments >>= f) = .error e ↔ _
    rw [bind_eq_error_of_ok hf, fragments_eq_error]
    cases e with
    | invalidTemplate e => simp [RefusedFor, hv]
    | malformedBlock m => simp [RefusedFor, hv, mapM_fragment_eq_error]

theorem Judged.map {x : Except RenderError α} (h : t.Judged x) (f : α → β) :
    t.Judged (x >>= fun a => pure (f a)) := by
  refine judged_of_refuses fun e => ?_
  rw [← h.refuses e]
  exact bind_eq_error_of_ok fun a => ⟨f a, rfl⟩

theorem judged_generate (t : Template) : t.Judged t.generate :=
  judged_bind fun _ => ⟨_, rfl⟩

theorem judged_render (t : Template) (values : Values) (options : RenderOptions) :
    t.Judged (t.render values options) :=
  judged_bind fun _ => ⟨_, rfl⟩

theorem judged_alike (t : Template) :
    t.Judged t.generate ∧
      (∀ values options, t.Judged (t.render values options)) ∧
      (∀ values mode, t.Judged (t.renderContent values mode)) ∧
      ∀ d : Draft, d.template = t →
        t.Judged d.preview ∧ (∀ values, t.Judged (d.previewWith values)) ∧
          t.Judged d.storedMarkup := by
  refine ⟨judged_generate t, judged_render t, fun values mode => ?_, ?_⟩
  · exact (judged_render t values _).map RenderedEmail.html
  · rintro d rfl
    refine ⟨judged_render _ _ _, fun values => judged_render _ _ _, ?_⟩
    exact (judged_render d.template _ _).map RenderedEmail.html

end Template

end EmailTemplates
