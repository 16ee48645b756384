import EmailTemplates.Proofs.Source.Dropped
import EmailTemplates.Proofs.Source.Taken
import EmailTemplates.Proofs.Source.Told

namespace EmailTemplates

open Source
open Text (byteLength trim)

namespace Block.Content

/-- Drawn in a template of the scheme, it has not the shape of another kind. -/
def Distinct (scheme : ColorScheme) : Content → Prop
  | paragraph text =>
    Shape.greeting? (trim text.toList) = none ∧ Shape.link? scheme (trim text.toList) = none
  | content@(infoBox ..) | content@(code ..) => ∀ core, Draws scheme content (Markup.line core) →
      Shape.button? scheme (Markup.text core) = none
  | customHtml _ => False
  | _ => True

end Block.Content

namespace Source

open Markup (text line element authored)
open Shape

variable {scheme : ColorScheme}

def kindOfTag? : String → Option BlockKind
  | "h1" | "h2" | "h3" => some .heading
  | "hr" => some .divider
  | "div" => some .spacer
  | "img" => some .image
  | "ul" | "ol" => some .list
  | "table" => some .button
  | _ => none

theorem kindOfTag?_heading {level : UInt8} {size : String}
    (h : Fragment.headingSize? level = some size) :
    kindOfTag? ("h" ++ level.toNat.repr) = some .heading := by
  unfold Fragment.headingSize? at h
  split at h
  iterate 3
    rename_i hl
    rw [hl]
    rfl
  cases h

theorem kindOfTag?_list (ordered : Bool) : kindOfTag? (listTag ordered) = some .list := by
  cases ordered <;> rfl

theorem kind_of_recognize {tag : String} {markup : List Char} {content : Block.Content}
    {kind : BlockKind} (hk : kindOfTag? tag = some kind)
    (h : recognize scheme tag markup = some content) : content.kind = kind := by
  refine Option.some.inj (Eq.trans ?_ hk)
  cases recognized_of_recognize h with
  | heading _ hsize => exact (kindOfTag?_heading hsize).symm
  | @list _ ordered => exact (kindOfTag?_list ordered).symm
  | greeting => cases hk
  | paragraph => cases hk
  | link => cases hk
  | button => rfl
  | image => rfl
  | divider => rfl
  | spacer => rfl

structure Faithful (scheme : ColorScheme) (p : Block × Markup) (s : Stretch) : Prop where
  drawn : s.drawn = p
  standing : s.Standing
  kinds : s.unread scheme = [] →
    (s.elements.filterMap (Stretch.content? scheme)).map (·.kind) = [p.1.kind]

theorem faithful_line {b : Block} {tag : String} {core : Markup} (hs : Stands core tag)
    (hk : ∀ content, recognize scheme tag (text core) = some content → content.kind = b.kind) :
    Faithful scheme (b, line core) ⟨b, (tag, core), []⟩ where
  drawn := congrArg (Prod.mk b) (List.flatMap_singleton ..)
  standing := List.forall_mem_singleton.mpr hs
  kinds h := by
    cases hr : Stretch.content? scheme (tag, core) with
    | none => simp [Stretch.unread, Stretch.elements, hr] at h
    | some content => simp [Stretch.elements, hr, hk content hr]

theorem faithful_table {b : Block} {core : Markup} (hs : Stands core "table")
    (hr : recognize scheme "table" (text core) = none) (above : Option Markup)
    (ha : ∀ m ∈ above, Stands m "p") :
    ∃ s, Faithful scheme (b, above.toList.flatMap line ++ line core) s := by
  have hread : Stretch.content? scheme ("table", core) = none := hr
  cases above with
  | none => exact ⟨_, faithful_line hs fun content h => by rw [hr] at h; cases h⟩
  | some m =>
    refine ⟨⟨b, ("p", m), [("table", core)]⟩, ?_, ?_, fun h => ?_⟩
    · simp [Stretch.drawn, Stretch.elements]
    · exact List.forall_mem_cons.mpr ⟨ha m rfl, List.forall_mem_singleton.mpr hs⟩
    · cases hm : Stretch.content? scheme ("p", m) <;>
        simp [Stretch.unread, Stretch.elements, hm, hread] at h

theorem exists_faithful {id : String} {content : Block.Content} {m : Markup}
    (hd : Block.Draws scheme content m) (hc : content.Contained) (hs : content.Distinct scheme) :
    ∃ s, Faithful scheme (⟨id, content⟩, m) s := by
  cases hd with
  | greeting hv =>
    have hname := Variable.isValidName_of_nameOf? hv
    refine ⟨_, faithful_line (stands_greeting hname) fun content h => ?_⟩
    rw [recognize_greeting hname] at h
    cases h
    rfl
  | paragraph hblank =>
    have ha := (isOpening_style isTag_p Style.plain_bodyText).writable
    refine ⟨_, faithful_line (stands_authored isTag_p (by decide) Style.plain_bodyText
      (hc _ List.mem_cons_self)) fun content h => ?_⟩
    change paragraph? scheme _ = some content at h
    rw [paragraph?_authored ha, hs.1, hs.2, hblank] at h
    cases h
    rfl
  | @button label v url own _ hv =>
    have hu := Variable.isValidName_of_nameOf? hv
    obtain ⟨core, hcore, hstands⟩ : ∃ core,
        Fragment.buttonMarkup (own.getD scheme).palette label url = line core ∧
          Stands core "table" :=
      ⟨_, Markup.container_eq _ _ _, stands_button hu (own.getD scheme) (hc _ List.mem_cons_self)⟩
    rw [hcore]
    exact ⟨_, faithful_line hstands fun content => kind_of_recognize rfl⟩
  | image _ hid hw =>
    exact ⟨_, faithful_line (stands_image hid _ _) fun content => kind_of_recognize rfl⟩
  | divider => exact ⟨_, faithful_line stands_divider fun content => kind_of_recognize rfl⟩
  | spacer hh => exact ⟨_, faithful_line (stands_spacer _) fun content => kind_of_recognize rfl⟩
  | heading _ hsize =>
    exact ⟨_, faithful_line (stands_heading hsize (hc _ List.mem_cons_self)) fun content =>
      kind_of_recognize (kindOfTag?_heading hsize)⟩
  | @list items ordered hne =>
    obtain ⟨core, hcore, hstands⟩ : ∃ core, Fragment.listMarkup items ordered = line core ∧
        Stands core (listTag ordered) :=
      ⟨_, Markup.container_eq _ _ _, stands_list ordered fun item hitem =>
        hc _ (List.mem_map_of_mem hitem)⟩
    rw [hcore]
    exact ⟨_, faithful_line hstands fun content => kind_of_recognize (kindOfTag?_list ordered)⟩
  | @link s v url own hblank hv =>
    have hu := Variable.isValidName_of_nameOf? hv
    refine ⟨_, faithful_line (stands_link hu (own.getD scheme) (hc _ List.mem_cons_self))
      fun content h => ?_⟩
    rw [recognize_link hblank hu] at h
    cases h
    rfl
  | @infoBox title items own hne hi =>
    obtain ⟨core, hcore, htable⟩ := isTable_infoBox (own.getD scheme).plain_palette own hc.tabled
    have hdraws : Block.Draws scheme (.infoBox title items own) _ := .infoBox hne hi
    rw [hcore] at hdraws ⊢
    exact faithful_table htable.stands (hs core hdraws) none (by simp)
  | @code value label hblank =>
    obtain ⟨core, hcore, htable⟩ := isTable_code scheme.plain_palette hc.tabled
    have hdraws : Block.Draws scheme (.code value label) _ := .code hblank
    rw [hcore] at hdraws ⊢
    exact faithful_table htable.stands (hs core hdraws) none (by simp)
  | @stepList title steps hne =>
    obtain ⟨core, hcore, htable, hr⟩ := isTable_stepList scheme.plain_palette hne
      (fun _ => contained_of_not_mem) hc.tabled
    let above := title.map fun s => element "p" [.style Fragment.stepListTitle] (authored s)
    have habove : ∀ m ∈ above, Stands m "p" := by
      intro m hm
      obtain ⟨s, hmem, rfl⟩ := Option.map_eq_some_iff.mp hm
      exact stands_authored isTag_p (by decide) Fragment.plain_stepListTitle (hc ("p", s)
        (List.mem_append_left _ (List.mem_map_of_mem (Option.mem_toList.mpr hmem))))
    have hlist : title.toList.map (fun s => element "p" [.style Fragment.stepListTitle]
        (authored s)) = above.toList := by
      cases title <;> rfl
    rw [hcore, hlist]
    exact faithful_table htable.stands (hr scheme) above habove
  | customHtml => exact hs.elim

namespace Content

variable {c : Content}

theorem foldl_elements {elements : List (String × Markup)} {pieces : List Segment}
    (hp : pieces.map Segment.shape = elements.map Stretch.elementShape) (c : Content) :
    ∃ ws, List.Forall₂ TellsUnread
        ((elements.filter fun e => (Stretch.content? scheme e).isNone).map (·.1)) ws ∧
      (pieces.foldl (addSegment scheme) c).warnings = c.warnings ++ ws ∧
      (pieces.foldl (addSegment scheme) c).blocks.map (·.kind) = c.blocks.map (·.kind) ++
        (elements.filterMap (Stretch.content? scheme)).map (·.kind) := by
  induction elements generalizing pieces c with
  | nil =>
    cases List.map_eq_nil_iff.mp hp
    exact ⟨[], .nil, (List.append_nil _).symm, (List.append_nil _).symm⟩
  | cons e elements ih =>
    obtain ⟨piece, pieces, rfl, hpiece, hpieces⟩ := List.map_eq_cons_iff.mp hp
    rw [List.foldl_cons]
    cases hr : Stretch.content? scheme e with
    | none =>
      let w := withRebuildHint (skippedElement e.1 piece.slice.span)
      obtain ⟨ws, hws, hwarnings, hblocks⟩ := ih hpieces (c.skip w)
      rw [addSegment_unread hr hpiece, List.filter_cons_of_pos (by simp [hr]),
        List.filterMap_cons_none hr]
      refine ⟨w :: ws, .cons ⟨piece.slice.span, rfl⟩ hws, ?_, hblocks⟩
      exact hwarnings.trans (List.append_assoc _ _ _)
    | some content =>
      obtain ⟨kind, ⟨n, cs⟩⟩ := piece
      obtain ⟨rfl, rfl⟩ := Prod.mk.inj hpiece
      obtain ⟨ws, hws, hwarnings, hblocks⟩ := ih hpieces (c.add content)
      have hadd := @addSegment_element scheme _ e.1 _ hr c n
      rw [hadd, List.filter_cons_of_neg (by simp [hr]), List.filterMap_cons_some hr]
      refine ⟨ws, hws, hwarnings, hblocks.trans ?_⟩
      simp [add, nextId, Block.kind, kind_withMarkedScheme]

theorem foldl_markerShape {b : Block} {pieces : List Segment}
    (hp : pieces.map Segment.shape = markerShape scheme b) (c : Content) :
    (pieces.foldl (addSegment scheme) c).warnings = c.warnings ∧
      (pieces.foldl (addSegment scheme) c).blocks = c.blocks := by
  unfold markerShape at hp
  split at hp
  · rename_i hn
    obtain ⟨⟨kind, ⟨n, cs⟩⟩, pieces, rfl, hcomment, hp⟩ := List.map_eq_cons_iff.mp hp
    cases List.map_eq_nil_iff.mp hp
    obtain ⟨rfl, rfl⟩ := Prod.mk.inj hcomment
    rw [List.foldl_cons, List.foldl_nil, addSegment_marker (m := markerOf scheme b) hn]
    exact ⟨rfl, rfl⟩
  · cases List.map_eq_nil_iff.mp hp
    exact ⟨rfl, rfl⟩

end Content

/-- Going down the blocks, each is told of, and then nothing is asked of those below it, or keeps to
its elements and to the shape of its kind. -/
inductive Discernible (scheme : ColorScheme) : List (Block × Markup) → Prop
  | nil : Discernible scheme []
  | told {b : Block} {m : Markup} {below : List (Block × Markup)} : Told scheme m below →
      Discernible scheme ((b, m) :: below)
  | distinct {b : Block} {m : Markup} {below : List (Block × Markup)} : b.content.Contained →
      b.content.Distinct scheme → Discernible scheme below → Discernible scheme ((b, m) :: below)

theorem kinds_of_silent_segments {bms : List (Block × Markup)} (h : Discernible scheme bms)
    (hd : ∀ p ∈ bms, Block.Draws scheme p.1.content p.2) (c : Content) (n : Nat)
    (hw : ((segments ⟨n, '\n' :: (contentText scheme bms).toList⟩).foldl
      (Content.addSegment scheme) c).warnings = c.warnings) :
    ((segments ⟨n, '\n' :: (contentText scheme bms).toList⟩).foldl
      (Content.addSegment scheme) c).blocks.map (·.kind) =
        c.blocks.map (·.kind) ++ bms.map (·.1.kind) := by
  induction h generalizing c n with
  | nil =>
    have hnil : (contentText scheme []).toList = [] := rfl
    rw [hnil, segments_nil]
    exact (List.append_nil _).symm
  | @told b m below htold =>
    -- the skipped segment would have been reported
    obtain ⟨pieces, k, hsegments, -⟩ := segments_markerLine scheme b n
      ((literalText m).toList ++ (contentText scheme below).toList)
    obtain ⟨segment, hmem, -, hskipped⟩ := htold (k + byteLength ['\n'])
    have hchars : (contentText scheme ((b, m) :: below)).toList = (markerLine scheme b).toList ++
        ((literalText m).toList ++ (contentText scheme below).toList) := by
      simp only [contentText, String.toList_append, List.append_assoc]
    have hin : segment ∈ segments ⟨n, '\n' :: (contentText scheme ((b, m) :: below)).toList⟩ := by
      rw [hchars, hsegments, ← List.singleton_append, segments_blanks (by decide)]
      exact List.mem_append_right pieces hmem
    have hlt := Content.length_warnings_of_mem hin hskipped c
    rw [hw] at hlt
    exact absurd hlt (Nat.lt_irrefl _)
  | @distinct b m below hc hs _ ih =>
    obtain ⟨hdraws, hrest⟩ := List.forall_mem_cons.mp hd
    obtain ⟨s, hdrawn, hstanding, hkinds⟩ := @exists_faithful scheme b.id _ _ hdraws hc hs
    change s.drawn = (b, m) at hdrawn
    obtain ⟨pieces, k, hsegments, hpieces⟩ := @segments_drawn scheme _ hstanding n below
    rw [hdrawn] at hsegments
    obtain ⟨marks, elements, rfl, hmarks, helements⟩ := List.map_eq_append_iff.mp hpieces
    obtain ⟨hmarked, hmarkedBlocks⟩ := Content.foldl_markerShape hmarks c
    obtain ⟨ws, hws, hwarnings, hblocks⟩ :=
      Content.foldl_elements helements (marks.foldl (Content.addSegment scheme) c)
    rw [hsegments, List.foldl_append, List.foldl_append] at hw ⊢
    rw [hmarked] at hwarnings
    -- a warning now would still be there at the end
    have hnone : ws = [] := by
      have hprefix := @Content.warnings_prefix_foldl scheme
        (segments ⟨k, '\n' :: (contentText scheme below).toList⟩)
        (elements.foldl (Content.addSegment scheme) (marks.foldl (Content.addSegment scheme) c))
      rw [hw, hwarnings] at hprefix
      have hlength := hprefix.length_le
      rw [List.length_append] at hlength
      exact List.length_eq_zero_iff.mp (by omega)
    subst hnone
    rw [List.append_nil] at hwarnings
    have hread := hkinds (List.forall₂_nil_right_iff.mp hws)
    rw [ih hrest _ k (hw.trans hwarnings.symm), hblocks, hmarkedBlocks, hread, List.append_assoc]
    rfl

end Source

namespace Template

theorem kinds_of_silent {t u : Template} {ms : List Markup} {source : String}
    (hg : t.generate = .ok source)
    (hf : ∀ words ∈ contentPhrases, ∀ s ∈ t.headStrings, Absent words s.toList)
    (hms : t.fragments = .ok ms) (hs : Discernible t.colorScheme (t.blocks.zip ms))
    (hu : (Import.ofSource source).template = some u)
    (hw : (Import.ofSource source).warnings = []) :
    u.blocks.map (·.kind) = t.blocks.map (·.kind) := by
  obtain ⟨hv, ms', hms', rfl⟩ := generate_eq_ok.mp hg
  obtain rfl : ms' = ms := Except.ok.inj ((fragments_eq_ok.mpr hms').symm.trans hms)
  obtain ⟨⟨ws, hscheme⟩, hblocks, hreported, -⟩ := Import.taken_of_ofSource hu
  rw [colorScheme_moduleText hf hv ms'] at hscheme
  have hsame : u.colorScheme = t.colorScheme := (congrArg Prod.fst (Except.ok.inj hscheme)).symm
  rw [hsame] at hblocks hreported
  obtain ⟨n, hcontent⟩ := content_of_moduleText hf hv hms'
  rw [hw, List.infix_nil, hcontent] at hreported
  obtain ⟨hsame, hdraws⟩ := List.forall₂_iff_zip.mp hms'
  have hkinds := kinds_of_silent_segments hs (fun p hp => hdraws hp) ⟨[], [], none, []⟩ n hreported
  rw [hblocks, hcontent, readSegments, hkinds, List.map_nil, List.nil_append]
  conv_rhs => rw [← List.map_fst_zip hsame.le, List.map_map]
  rfl

theorem kinds_of_silent_welcome :
    (∀ words ∈ contentPhrases, ∀ s ∈ declaredWelcome.headStrings, Absent words s.toList) ∧
    ∃ source ms u, declaredWelcome.generate = .ok source ∧ declaredWelcome.fragments = .ok ms ∧
      Discernible declaredWelcome.colorScheme (declaredWelcome.blocks.zip ms) ∧
      (Import.ofSource source).template = some u ∧ (Import.ofSource source).warnings = [] ∧
      u.blocks.map (·.kind) = [.greeting, .paragraph] := by
  have hi := importable_declaredWelcome
  have hms := SystemTemplate.fragments_starter SystemTemplate.welcome
  have hg : declaredWelcome.generate = .ok _ :=
    generate_eq_ok.mpr ⟨validate_declaredWelcome, _, hms, rfl⟩
  have hf := absent_contentPhrases hi.sayable.free
  have hc := contained_of_fragments hi hms
  obtain ⟨hgreeting, hparagraph⟩ := List.forall_mem_cons.mp hc
  have hdistinct : (Block.ofKind .paragraph "intro").content.Distinct .blue :=
    ⟨by decide, by decide⟩
  have hs : Discernible declaredWelcome.colorScheme (declaredWelcome.blocks.zip
      [Fragment.greetingMarkup "customer_name",
        Fragment.paragraphMarkup "Add your message here."]) :=
    .distinct hgreeting trivial (.distinct (hparagraph _ List.mem_cons_self) hdistinct .nil)
  have hsource := ofSource_of_readable hi.sayable validate_declaredWelcome hms hi.named
    (fun b hb => readable_of_importable (hi.shown b hb) _) hc
  have hu := congrArg Import.template hsource
  have hw := congrArg Import.warnings hsource
  exact ⟨hf, _, _, _, hg, fragments_eq_ok.mpr hms, hs, hu, hw,
    kinds_of_silent hg hf (fragments_eq_ok.mpr hms) hs hu hw⟩

def rawWelcome : Template :=
  { declaredWelcome with blocks := [⟨"raw", .customHtml "<p>Custom content</p>"⟩] }

theorem raw_taken_for_paragraph : ∃ source u, rawWelcome.generate = .ok source ∧
    Import.ofSource source = ⟨some u, [], []⟩ ∧ u.blocks.map (·.kind) = [.paragraph] ∧
    rawWelcome.blocks.map (·.kind) = [.customHtml] := by
  have hsayable : rawWelcome.Sayable :=
    ⟨by decide, by decide, by decide, ⟨by decide +kernel, by decide⟩, by decide, by decide⟩
  have hms : rawWelcome.Fragments [Fragment.customHtml "<p>Custom content</p>"] :=
    .cons .customHtml .nil
  have hg : rawWelcome.generate = .ok _ := generate_eq_ok.mpr ⟨rfl, _, hms, rfl⟩
  have hleaves : Leaves rawWelcome.colorScheme
      (⟨"raw", .customHtml "<p>Custom content</p>"⟩, Fragment.customHtml "<p>Custom content</p>")
      (some ⟨"raw", .paragraph "Custom content"⟩) [] := by
    have hcontained : Contained "p".toList (Markup.text (Markup.authored "Custom content")) := by
      rw [Shape.text_authored]
      exact contained_of_not_mem (by decide)
    refine ⟨by decide, ⟨⟨"raw", .customHtml "<p>Custom content</p>"⟩,
      ("p", Markup.element "p" [] (Markup.authored "Custom content")), []⟩, by decide +kernel, ?_,
      by simp, by decide +kernel, by decide +kernel⟩
    exact List.forall_mem_singleton.mpr
      (stands_element ⟨Shape.isTag_p, by simp⟩ (by decide) hcontained)
  obtain ⟨ws, hcontent, hws⟩ := @content_of_leaves _ (absent_contentPhrases hsayable.free) rfl _ hms
    (fun _ => some ⟨"raw", .paragraph "Custom content"⟩) (fun _ => [])
    (List.forall_mem_singleton.mpr hleaves)
  cases List.forall₂_nil_left_iff.mp hws
  have hsource := ofSource_of_sayable hsayable rfl hms
  rw [hcontent] at hsource
  have hself := Import.declaring_self
    (t := { rawWelcome with blocks := [⟨"raw", .paragraph "Custom content"⟩] })
    ⟨by decide +kernel, by decide⟩ rfl []
  exact ⟨_, _, hg, hsource.trans hself, rfl, rfl⟩

end Template

end EmailTemplates
