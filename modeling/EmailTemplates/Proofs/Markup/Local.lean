import EmailTemplates.Proofs.Draft.Valid
import EmailTemplates.Proofs.Template.Undo

namespace EmailTemplates

open Outcome

section Lists

variable {ε α β γ : Type} {R : α → β → Prop} {x : α} {xs : List α} {ys : List β} {i : Nat}

theorem forall₂_map_iff {g : β → γ} {zs : List γ} :
    List.Forall₂ (fun x z => ∃ y, R x y ∧ g y = z) xs zs ↔
      ∃ ys, List.Forall₂ R xs ys ∧ ys.map g = zs := by
  constructor
  · intro h
    induction h with
    | nil => exact ⟨[], .nil, rfl⟩
    | cons hxz _ ih =>
      obtain ⟨y, hxy, rfl⟩ := hxz
      obtain ⟨ys, hys, rfl⟩ := ih
      exact ⟨y :: ys, .cons hxy hys, rfl⟩
  · rintro ⟨ys, h, rfl⟩
    induction h with
    | nil => exact .nil
    | cons hxy _ ih => exact .cons ⟨_, hxy, rfl⟩ ih

theorem forall₂_insertIdx (hi : i ≤ xs.length) : List.Forall₂ R (xs.insertIdx i x) ys ↔
    ∃ y others, R x y ∧ List.Forall₂ R xs others ∧ ys = others.insertIdx i y := by
  induction i generalizing xs ys with
  | zero =>
    rw [List.insertIdx_zero, List.forall₂_cons_left_iff]
    simp only [List.insertIdx_zero]
  | succ i ih =>
    cases xs with
    | nil => cases hi
    | cons x' xs =>
      rw [List.insertIdx_succ_cons]
      constructor
      · rintro (_ | ⟨hx', h⟩)
        obtain ⟨y, others, hx, hothers, rfl⟩ := (ih (Nat.le_of_succ_le_succ hi)).mp h
        exact ⟨y, _ :: others, hx, .cons hx' hothers, rfl⟩
      · rintro ⟨y, _, hx, _ | ⟨hx', hothers⟩, rfl⟩
        exact .cons hx' ((ih (Nat.le_of_succ_le_succ hi)).mpr ⟨y, _, hx, hothers, rfl⟩)

theorem mapM_insertIdx_eq_error {f : α → Except ε β} {e : ε} (hx : f x = .error e)
    (hxs : List.Forall₂ (fun x y => f x = .ok y) xs ys) (hi : i ≤ xs.length) :
    (xs.insertIdx i x).mapM f = .error e := by
  induction hxs generalizing i with
  | nil =>
    cases Nat.le_zero.mp hi
    rw [List.insertIdx_zero, List.mapM_cons, hx]
    rfl
  | cons hx' _ ih =>
    cases i with
    | zero =>
      rw [List.insertIdx_zero, List.mapM_cons, hx]
      rfl
    | succ i =>
      rw [List.insertIdx_succ_cons, List.mapM_cons, hx', ih (Nat.le_of_succ_le_succ hi)]
      rfl

theorem map_insertIdx_eraseIdx (g : α → β) : ((xs.insertIdx i x).map g).eraseIdx i = xs.map g := by
  rw [List.map_insertIdx, List.eraseIdx_insertIdx_self]

theorem map_insertIdx_set {g : α → β} {y : β} (hi : i ≤ xs.length) :
    ((xs.insertIdx i x).map g).set i y = (xs.map g).insertIdx i y := by
  rw [List.map_insertIdx, Template.set_insertIdx]
  rwa [List.length_map]

end Lists

namespace Markup

def Surrounds (f : Markup → Markup) : Prop :=
  ∃ above below, ∀ m, f m = above ++ m ++ below

variable {f : Markup → Markup}

theorem surrounds_self : Surrounds fun m => m :=
  ⟨[], [], fun m => by simp⟩

theorem Surrounds.below (h : Surrounds f) (k : Markup) : Surrounds fun m => k ++ f m := by
  obtain ⟨above, below, h⟩ := h
  exact ⟨k ++ above, below, fun m => by simp [h]⟩

theorem Surrounds.above (h : Surrounds f) (k : Markup) : Surrounds fun m => f m ++ k := by
  obtain ⟨above, below, h⟩ := h
  exact ⟨above, below ++ k, fun m => by simp [h]⟩

theorem Surrounds.container (h : Surrounds f) (tag : String) (attributes : List Attribute) :
    Surrounds fun m => container tag attributes (f m) :=
  (h.below _).above _

end Markup

theorem Envelope.surrounds_wrap (e : Envelope) (p : Parts) :
    Markup.Surrounds fun m => e.wrap { p with content := m } := by
  cases e with
  | bare => exact Markup.surrounds_self
  | full =>
    have hcontent : Markup.Surrounds fun m => content { p with content := m } :=
      (Markup.surrounds_self.container _ _).container _ _
    change Markup.Surrounds fun m => Markup.line _ ++ Markup.container _ _ (head p ++
      Markup.container _ _ (p.preheader.toList.flatMap _ ++
        Markup.container _ _ (Markup.container _ _ (Markup.container _ _ (Markup.container _ _
          (banner p ++ header p ++ content { p with content := m } ++ footer p))))))
    refine .below (.container (.below (.container (.below ?_ _) _ _) _) _ _) _
    refine .container (.container (.container (.container ?_ _ _) _ _) _ _) _ _
    exact (hcontent.below _).above _

structure Frame where
  subject : String
  preheader : Option String
  header : Header
  colorScheme : ColorScheme
  footer : Footer
deriving DecidableEq, Repr

def Template.frame (t : Template) : Frame :=
  ⟨t.subject, t.preheader, t.header, t.colorScheme, t.footer⟩

def Frame.template (frame : Frame) : Template where
  slug := ""
  name := ""
  description := none
  subject := frame.subject
  preheader := frame.preheader
  colorScheme := frame.colorScheme
  header := frame.header
  blocks := []
  footer := frame.footer
  declarations := []
  context := none

structure Surroundings where
  above : String
  below : String
deriving DecidableEq, Repr

namespace Surroundings

def nothing : Surroundings :=
  ⟨"", ""⟩

def around (s : Surroundings) (content : String) : String :=
  s.above ++ content ++ s.below

end Surroundings

namespace Block

def Content.ownScheme? : Content → Option ColorScheme
  | .infoBox _ _ own | .button _ _ own | .link _ _ own => own
  | _ => none

def html (filling : Filling) (scheme : ColorScheme) (b : Block) : Except MalformedBlock String :=
  (b.fragment scheme).map filling.markup

def Htmls (filling : Filling) (scheme : ColorScheme) (blocks : List Block) (fs : List String) :
    Prop :=
  List.Forall₂ (fun b f => b.html filling scheme = .ok f) blocks fs

theorem html_of_ownScheme {b : Block} (h : b.content.ownScheme?.isSome = true) (filling : Filling)
    (x y : ColorScheme) : b.html filling x = b.html filling y := by
  obtain ⟨own, hown⟩ := Option.isSome_iff_exists.mp h
  obtain ⟨id, content⟩ := b
  cases content <;> cases hown <;> rfl

end Block

namespace Filling

variable (filling : Filling)

theorem markup_append (m n : Markup) :
    filling.markup (m ++ n) = filling.markup m ++ filling.markup n := by
  rw [markup, Markup.fill_append, String.ofList_append]
  rfl

theorem markup_flatten (ms : List Markup) :
    filling.markup ms.flatten = String.join (ms.map filling.markup) := by
  induction ms with
  | nil => rfl
  | cons m ms ih => rw [List.flatten_cons, markup_append, ih, List.map_cons, String.join_cons]

end Filling

theorem Filling.unresolved_perm (filling : Filling) {names names' : List String}
    (h : names.Perm names') : (filling.unresolved names).Perm (filling.unresolved names') := by
  unfold Filling.unresolved
  cases filling.mode with
  | preserve => exact .refl []
  | substitute => exact h.filter _

theorem Variable.sorted_of_perm {names names' : List String} (h : names.Perm names') :
    sorted names = sorted names' := by
  refine (pairwise_sorted names).eq_of_mem_iff (pairwise_sorted names') fun n => ?_
  rw [mem_sorted, mem_sorted, h.mem_iff]

namespace Template

variable {t t' : Template} {values : Values} {options : RenderOptions} {s : Surroundings}
  {fs : List String} {e : RenderedEmail} {b old : Block} {id : String} {i target : Nat}

theorem html_emailOf_bare {ms : List Markup} (h : options.envelope = .bare) :
    (t.emailOf values options ms).html =
      String.join (ms.map (Filling.mk options.mode values).markup) := by
  rw [emailOf, h]
  exact Filling.markup_flatten _ ms

def SurroundedBy (frame : Frame) (values : Values) (options : RenderOptions) (s : Surroundings) :
    Prop :=
  ∀ (t : Template) (ms : List Markup), frame = t.frame → (t.emailOf values options ms).html =
    s.around (String.join (ms.map (Filling.mk options.mode values).markup))

theorem exists_surroundedBy (frame : Frame) (values : Values) (options : RenderOptions) :
    ∃ s, (options.envelope = .bare → s = .nothing) ∧ SurroundedBy frame values options s := by
  let filling : Filling := ⟨options.mode, values⟩
  cases he : options.envelope with
  | bare =>
    refine ⟨.nothing, fun _ => rfl, fun t ms _ => ?_⟩
    rw [html_emailOf_bare he, Surroundings.around, Surroundings.nothing, String.empty_append,
      String.append_empty]
  | full =>
    obtain ⟨above, below, h⟩ := Envelope.surrounds_wrap .full (frame.template.parts options [])
    refine ⟨⟨filling.markup above, filling.markup below⟩, nofun, ?_⟩
    rintro t ms rfl
    calc (t.emailOf values options ms).html
      _ = filling.markup (Envelope.full.wrap
            { t.frame.template.parts options [] with content := ms.flatten }) := by
          rw [emailOf, he]
          rfl
      _ = filling.markup (above ++ ms.flatten ++ below) := congrArg filling.markup (h ms.flatten)
      _ = _ := by
          rw [Filling.markup_append, Filling.markup_append, Filling.markup_flatten]
          rfl

structure Assembles (t : Template) (values : Values) (options : RenderOptions) (s : Surroundings)
    (fs : List String) (e : RenderedEmail) : Prop where
  rendered : t.render values options = .ok e
  fragments : Block.Htmls ⟨options.mode, values⟩ t.colorScheme t.blocks fs
  content : t.renderContent values options.mode = .ok (String.join fs)
  html : e.html = s.around (String.join fs)

structure Adopts (t : Template) (values : Values) (options : RenderOptions) (s : Surroundings)
    (b : Block) (fragmentsWith : String → List String) : Prop where
  drawn : ∀ f, b.html ⟨options.mode, values⟩ t.colorScheme = .ok f →
    ∃ e, t.Assembles values options s (fragmentsWith f) e
  refused : ∀ m, b.html ⟨options.mode, values⟩ t.colorScheme = .error m →
    t.render values options = .error (.malformedBlock m)

theorem htmls_iff {filling : Filling} : Block.Htmls filling t.colorScheme t.blocks fs ↔
    ∃ ms, t.Fragments ms ∧ ms.map filling.markup = fs := by
  simp only [Block.Htmls, Block.html, map_eq_ok, Block.fragment_eq_ok]
  exact forall₂_map_iff

theorem assembles_emailOf {ms : List Markup} (hs : SurroundedBy t.frame values options s)
    (hv : t.validate = .ok ()) (hms : t.Fragments ms) :
    t.Assembles values options s (ms.map (Filling.mk options.mode values).markup)
      (t.emailOf values options ms) where
  rendered := render_eq_ok.mpr ⟨hv, ms, hms, rfl⟩
  fragments := htmls_iff.mpr ⟨ms, hms, rfl⟩
  content := by
    rw [renderContent, render_eq_ok.mpr ⟨hv, ms, hms, rfl⟩]
    exact congrArg Except.ok (html_emailOf_bare rfl)
  html := hs t ms rfl

namespace Placed

variable {others : List Block}

theorem fragments_iff {ms : List Markup} (h : Placed b i others t) :
    t.Fragments ms ↔ ∃ m ns, Block.Draws t.colorScheme b.content m ∧
      (t.withBlocks others).Fragments ns ∧ ms = ns.insertIdx i m := by
  rw [Fragments, h.blocks]
  exact forall₂_insertIdx h.fits

theorem adopts {ns : List Markup} (h : Placed b i others t)
    (hs : SurroundedBy t.frame values options s) (hv : t.validate = .ok ())
    (hns : (t.withBlocks others).Fragments ns) :
    t.Adopts values options s b fun f =>
      (ns.map (Filling.mk options.mode values).markup).insertIdx i f := by
  constructor
  · intro f hf
    obtain ⟨m, hm, rfl⟩ := map_eq_ok.mp hf
    have hms : t.Fragments (ns.insertIdx i m) :=
      h.fragments_iff.mpr ⟨m, ns, Block.fragment_eq_ok.mp hm, hns, rfl⟩
    rw [← List.map_insertIdx]
    exact ⟨_, assembles_emailOf hs hv hms⟩
  · intro m hm
    have hothers : List.Forall₂ (fun b m => b.fragment t.colorScheme = .ok m) others ns := by
      simp only [Block.fragment_eq_ok]
      exact hns
    have hblocks := mapM_insertIdx_eq_error (map_eq_error.mp hm) hothers h.fits
    rw [← h.blocks] at hblocks
    simp only [render, renderIn, check, hv, fragments, hblocks]
    rfl

end Placed

theorem unresolved_emailOf_of_perm {ms ms' : List Markup} (h : ms.Perm ms') (t : Template)
    (values : Values) (options : RenderOptions) :
    (t.emailOf values options ms).unresolved = (t.emailOf values options ms').unresolved := by
  have hfilled : (filledParts (t.parts options ms.flatten)).Perm
      (filledParts (t.parts options ms'.flatten)) := by
    simp only [filledParts, List.append_assoc]
    exact h.flatten.append_right _
  exact Variable.sorted_of_perm (Filling.unresolved_perm _ (hfilled.filterMap _))

/-- What the changes to the blocks do to the fragments of an email. -/
structure ChangesLocally (t : Template) (values : Values) (options : RenderOptions)
    (s : Surroundings) (fs : List String) (e : RenderedEmail) : Prop where
  replaced : ∀ b old t', t.replaceBlock b = .ok (old, t') → ∃ i, t.position? b.id = some i ∧
    t'.Adopts values options s b fun f => fs.set i f
  inserted : ∀ i b t', t.insertBlock i b = .ok t' →
    t'.Adopts values options s b fun f => fs.insertIdx i f
  removed : ∀ id old t', t.removeBlock id = .ok (old, t') → ∃ i, t.position? id = some i ∧
    ∃ e', t'.Assembles values options s (fs.eraseIdx i) e'
  moved : ∀ id target t', t.moveBlock id target = .ok t' → ∃ i f, t.position? id = some i ∧
    fs[i]? = some f ∧ ((fs.eraseIdx i).insertIdx target f).Perm fs ∧
    ∃ e', t'.Assembles values options s ((fs.eraseIdx i).insertIdx target f) e' ∧
      e'.subject = e.subject ∧ e'.unresolved = e.unresolved

section Changes

variable {ms : List Markup} (hs : SurroundedBy t.frame values options s)
  (hv : t.validate = .ok ()) (hms : t.Fragments ms)
include hs hv hms

theorem adopts_of_replaceBlock (h : t.replaceBlock b = .ok (old, t')) :
    ∃ i, t.position? b.id = some i ∧ t'.Adopts values options s b fun f =>
      (ms.map (Filling.mk options.mode values).markup).set i f := by
  have hv' := validate_replaceBlock hv h
  obtain ⟨i, others, hid, hold, rfl⟩ := placed_of_replaceBlock (hasDistinctIds_of_validate hv) h
  obtain ⟨m, ns, hm, hns, rfl⟩ := hold.fragments_iff.mp hms
  have hb := hold.moved hid.symm hold.fits
  refine ⟨i, hid ▸ hold.position?, ?_⟩
  simp only [map_insertIdx_set (hns.length_eq ▸ hold.fits : i ≤ ns.length)]
  exact hb.adopts hs hv' hns

theorem adopts_of_insertBlock (h : t.insertBlock i b = .ok t') :
    t'.Adopts values options s b fun f =>
      (ms.map (Filling.mk options.mode values).markup).insertIdx i f := by
  have hv' := validate_insertBlock hv h
  obtain ⟨rfl, -, hb⟩ := placed_of_insertBlock h
  exact hb.adopts hs hv' hms

theorem assembles_of_removeBlock (h : t.removeBlock id = .ok (old, t')) :
    ∃ i, t.position? id = some i ∧ ∃ e', t'.Assembles values options s
      ((ms.map (Filling.mk options.mode values).markup).eraseIdx i) e' := by
  have hv' := validate_removeBlock hv h
  obtain ⟨i, others, rfl, -, hold, rfl⟩ := placed_of_removeBlock (hasDistinctIds_of_validate hv) h
  obtain ⟨m, ns, hm, hns, rfl⟩ := hold.fragments_iff.mp hms
  refine ⟨i, hold.position?, (t.withBlocks others).emailOf values options ns, ?_⟩
  rw [map_insertIdx_eraseIdx]
  exact assembles_emailOf hs hv' hns

theorem assembles_of_moveBlock (h : t.moveBlock id target = .ok t') :
    let fs := ms.map (Filling.mk options.mode values).markup
    let e := t.emailOf values options ms
    ∃ i f, t.position? id = some i ∧ fs[i]? = some f ∧
      ((fs.eraseIdx i).insertIdx target f).Perm fs ∧
      ∃ e', t'.Assembles values options s ((fs.eraseIdx i).insertIdx target f) e' ∧
        e'.subject = e.subject ∧ e'.unresolved = e.unresolved := by
  intro fs e
  have hv' := validate_moveBlock hv h
  obtain ⟨b, i, others, rfl, hb, htarget, rfl⟩ :=
    placed_of_moveBlock (hasDistinctIds_of_validate hv) h
  obtain ⟨m, ns, hm, hns, rfl⟩ := hb.fragments_iff.mp hms
  have hi : i ≤ ns.length := hns.length_eq ▸ hb.fits
  have hn : target ≤ ns.length := hns.length_eq ▸ htarget
  have hperm : (ns.insertIdx target m).Perm (ns.insertIdx i m) :=
    (List.perm_insertIdx m ns hn).trans (List.perm_insertIdx m ns hi).symm
  have hms' := (hb.moved rfl htarget).fragments_iff.mpr ⟨m, ns, hm, hns, rfl⟩
  refine ⟨i, (Filling.mk options.mode values).markup m, hb.position?, ?_, ?_⟩
  · rw [List.getElem?_map, List.getElem?_insertIdx_self, if_pos hi, Option.map_some]
  · rw [map_insertIdx_eraseIdx, ← List.map_insertIdx]
    refine ⟨hperm.map _, _, assembles_emailOf hs hv' hms', rfl, ?_⟩
    exact unresolved_emailOf_of_perm hperm t values options

theorem changesLocally_emailOf :
    t.ChangesLocally values options s (ms.map (Filling.mk options.mode values).markup)
      (t.emailOf values options ms) where
  replaced _ _ _ h := adopts_of_replaceBlock hs hv hms h
  inserted _ _ _ h := adopts_of_insertBlock hs hv hms h
  removed _ _ _ h := assembles_of_removeBlock hs hv hms h
  moved _ _ _ h := assembles_of_moveBlock hs hv hms h

end Changes

theorem edits_local (frame : Frame) (values : Values) (options : RenderOptions) :
    (∀ b : Block, b.content.ownScheme?.isSome = true →
      ∀ x y, b.html ⟨options.mode, values⟩ x = b.html ⟨options.mode, values⟩ y) ∧
    ∃ s : Surroundings, (options.envelope = .bare → s = .nothing) ∧
      ∀ (t : Template) (e : RenderedEmail), frame = t.frame → t.render values options = .ok e →
        ∃ fs, t.Assembles values options s fs e ∧ t.ChangesLocally values options s fs e := by
  refine ⟨fun b h => Block.html_of_ownScheme h _, ?_⟩
  obtain ⟨s, hbare, hs⟩ := exists_surroundedBy frame values options
  refine ⟨s, hbare, ?_⟩
  rintro t e rfl h
  obtain ⟨hv, ms, hms, rfl⟩ := render_eq_ok.mp h
  exact ⟨_, assembles_emailOf hs hv hms, changesLocally_emailOf hs hv hms⟩

theorem edits_local_welcome :
    let t := SystemTemplate.welcome.starter
    let options : RenderOptions := { RenderOptions.ofMode .preserve with envelope := .bare }
    let b : Block := ⟨"intro", .button "Pay" "invoice_url" (some .green)⟩
    (∀ x y, b.html .preserve x = b.html .preserve y) ∧
    ∃ fs e, t.Assembles .empty options .nothing fs e ∧
      (∃ old t' f e', t.replaceBlock b = .ok (old, t') ∧ b.html .preserve .blue = .ok f ∧
        t'.Assembles .empty options .nothing (fs.set 1 f) e') ∧
      ∃ f t' e', fs[1]? = some f ∧ t.moveBlock "intro" 0 = .ok t' ∧
        t'.Assembles .empty options .nothing ((fs.eraseIdx 1).insertIdx 0 f) e' ∧
        e'.unresolved = e.unresolved := by
  intro t options b
  have ht : t.render .empty options = .ok _ :=
    SystemTemplate.render_starter SystemTemplate.welcome_mem_all .empty options
  obtain ⟨hown, s, hbare, h⟩ := edits_local t.frame .empty options
  cases hbare rfl
  obtain ⟨fs, hfs, hchanges⟩ := h t _ rfl ht
  refine ⟨hown b rfl, fs, _, hfs, ?_, ?_⟩
  · obtain ⟨i, hi, hadopts⟩ := hchanges.replaced b _ _ rfl
    cases hi.symm.trans (rfl : t.position? "intro" = some 1)
    obtain ⟨e', he'⟩ := hadopts.drawn _ rfl
    exact ⟨_, _, _, e', rfl, rfl, he'⟩
  · obtain ⟨i, f, hi, hf, -, e', he', -, hunresolved⟩ := hchanges.moved "intro" 0 _ rfl
    cases hi.symm.trans (rfl : t.position? "intro" = some 1)
    exact ⟨f, _, e', hf, rfl, he', hunresolved⟩

end Template

end EmailTemplates
