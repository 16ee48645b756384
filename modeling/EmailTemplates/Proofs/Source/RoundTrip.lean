import EmailTemplates.Proofs.Source.Envelope
import EmailTemplates.Proofs.Source.Stretch
import EmailTemplates.Proofs.SystemTemplate

namespace EmailTemplates

namespace Source

open Text (Slice)

theorem filter_declared {t : Template} (h : t.DeclaresAll) :
    (t.variableNames.filter fun name => !t.declares name) = [] := by
  rw [List.filter_eq_nil_iff]
  intro name hname
  obtain ⟨d, hd, hn⟩ := List.mem_map.mp (h.1 name hname)
  simp only [Template.declares, Bool.not_eq_true', Bool.not_eq_false, List.any_eq_true]
  exact ⟨d, hd, by simp [hn]⟩

theorem allDeclarations_of_declaresAll {t : Template} (h : t.DeclaresAll) :
    allDeclarations t = t.declarations := by
  rw [allDeclarations, filter_declared h, List.map_nil, List.append_nil]

theorem withInferred_of_declaresAll {t : Template} (h : t.DeclaresAll) :
    withInferred (some t.declarations) t.variableNames = (t.declarations, []) := by
  have hnone : (t.variableNames.filter fun name => !t.declarations.any (·.name == name)) = [] :=
    filter_declared h
  rw [withInferred, hnone, List.map_nil, List.map_nil, List.append_nil]

variable {t : Template}

theorem filter_readable (h : t.Sayable) :
    (t.declarations.filter fun d => !beginsWithDigit d.name) = t.declarations := by
  refine List.filter_eq_self.mpr fun d hd => ?_
  rw [Bool.not_eq_true', beginsWithDigit, Option.any_eq_false]
  exact h.digits d hd

theorem interface_of_sayable (h : t.Sayable) (hv : t.validate = .ok ()) (ms : List Markup) :
    interface (Slice.ofString (t.moduleText ms)) = (some t.declarations, []) := by
  have hall := allDeclarations_of_declaresAll h.declared
  have hdistinct : ((allDeclarations t).map (·.name)).Nodup := hall ▸ h.declared.2
  rw [interface_moduleText h.free hv hdistinct, hall, filter_readable h]

theorem ofSource_of_sayable (h : t.Sayable) (hv : t.validate = .ok ()) {ms : List Markup}
    (hms : t.Fragments ms) :
    Import.ofSource (t.moduleText ms) = Import.declaring (some t.declarations)
      (content t.colorScheme (Slice.ofString (t.moduleText ms))).2
      { t with
        blocks := (content t.colorScheme (Slice.ofString (t.moduleText ms))).1
        declarations := [] } := by
  rw [ofSource_moduleText h.free hv h.preheader h.emoji h.subtitle hms,
    interface_of_sayable h hv ms, List.nil_append]

theorem content_of_leaves
    (hf : ∀ words ∈ contentPhrases, ∀ s ∈ t.headStrings, Absent words s.toList)
    (hv : t.validate = .ok ()) {ms : List Markup} (hms : t.Fragments ms) {left : Block → Option Block}
    {unread : Block → List String}
    (h : ∀ p ∈ t.blocks.zip ms, Leaves t.colorScheme p (left p.1) (unread p.1)) :
    ∃ ws, content t.colorScheme (Slice.ofString (t.moduleText ms)) =
        (t.blocks.filterMap left, ws) ∧
      List.Forall₂ TellsUnread (t.blocks.flatMap unread) ws := by
  have hlength : t.blocks.length ≤ ms.length := (List.forall₂_iff_zip.mp hms).1.le
  have hblocks : (t.blocks.zip ms).map Prod.fst = t.blocks := List.map_fst_zip hlength
  have hids : ((t.blocks.zip ms).map (·.1.id)).Nodup := by
    have hmap : ((t.blocks.zip ms).map Prod.fst).map (·.id) = (t.blocks.zip ms).map (·.1.id) :=
      List.map_map
    rw [← hmap, hblocks]
    exact (Template.hasDistinctIds_of_validate hv).2
  have hleft : (t.blocks.zip ms).filterMap (fun p => left p.1) = t.blocks.filterMap left := by
    conv_rhs => rw [← hblocks, List.filterMap_map]
    rfl
  have hunread : (t.blocks.zip ms).flatMap (fun p => unread p.1) = t.blocks.flatMap unread := by
    conv_rhs => rw [← hblocks, List.flatMap_map]
  obtain ⟨n, hcontent⟩ := content_of_moduleText hf hv hms
  obtain ⟨ws, hws, hfold⟩ := foldl_segments h ⟨[], [], none, []⟩ rfl
    (by simpa using hids) n
  refine ⟨ws, ?_, hunread ▸ hws⟩
  rw [hcontent, readSegments, hfold, hleft]
  rfl

theorem leaves_of_reads {scheme : ColorScheme} {b : Block} {core : Markup}
    (hn : Marker.canName b.id = true) (h : Reads scheme core (b.content.shown scheme)) :
    Leaves scheme (b, Markup.line core) (some b) [] := by
  obtain ⟨tag, hstands, hr⟩ := h
  have hb := @Content.withMarkedScheme_shown scheme b
  have hread : Stretch.content? scheme (tag, core) = some (b.content.shown scheme) := hr
  refine ⟨hn, ⟨b, (tag, core), []⟩, ?_, List.forall_mem_singleton.mpr hstands, by simp, ?_, ?_⟩
  · exact congrArg (Prod.mk b) (List.flatMap_singleton ..)
  · rw [Stretch.left, hread, Option.map_some, hb]
  · rw [Stretch.unread, Stretch.elements, List.filter_singleton, hread]
    rfl

theorem content_of_readable
    (hf : ∀ words ∈ contentPhrases, ∀ s ∈ t.headStrings, Absent words s.toList)
    (hv : t.validate = .ok ()) {ms : List Markup} (hms : t.Fragments ms) (hn : ∀ b ∈ t.blocks, Marker.canName b.id = true)
    (hr : ∀ b ∈ t.blocks, b.content.Readable t.colorScheme)
    (hc : ∀ b ∈ t.blocks, b.content.Contained) :
    content t.colorScheme (Slice.ofString (t.moduleText ms)) = (t.blocks, []) := by
  have hleaves : ∀ p ∈ t.blocks.zip ms, Leaves t.colorScheme p (some p.1) [] := by
    rintro ⟨b, m⟩ hp
    have hb : b ∈ t.blocks := (List.of_mem_zip hp).1
    obtain ⟨core, rfl, hreads⟩ :=
      reads_of_readable ((List.forall₂_iff_zip.mp hms).2 hp) (hr b hb) (hc b hb)
    exact leaves_of_reads (hn b hb) hreads
  obtain ⟨ws, hcontent, hws⟩ := @content_of_leaves _ hf hv _ hms some (fun _ => []) hleaves
  have hnone : t.blocks.flatMap (fun _ => ([] : List String)) = [] := by simp
  rw [hnone, List.forall₂_nil_left_iff] at hws
  rw [hcontent, List.filterMap_some, hws]

theorem contained_of_fragments (h : t.Importable) {ms : List Markup} (hms : t.Fragments ms) :
    ∀ b ∈ t.blocks, b.content.Contained := by
  obtain ⟨hlength, hdrawn⟩ := List.forall₂_iff_zip.mp hms
  intro b hb
  rw [← List.map_fst_zip hlength.le] at hb
  obtain ⟨⟨b, m⟩, hp, rfl⟩ := List.mem_map.mp hb
  exact contained_of_importable (h.shown b (List.of_mem_zip hp).1) (hdrawn hp)

theorem content_moduleText (h : t.Importable) (hv : t.validate = .ok ()) {ms : List Markup}
    (hms : t.Fragments ms) :
    content t.colorScheme (Slice.ofString (t.moduleText ms)) = (t.blocks, []) :=
  content_of_readable (absent_contentPhrases h.sayable.free) hv hms h.named
    (fun b hb => readable_of_importable (h.shown b hb) _) (contained_of_fragments h hms)

end Source

namespace Import

theorem declaring_self {t : Template} (hd : t.DeclaresAll) (hv : t.validate = .ok ())
    (warnings : List Diagnostic) :
    declaring (some t.declarations) warnings { t with declarations := [] } =
      ⟨some t, [], warnings⟩ := by
  have hdeclared := Source.withInferred_of_declaresAll hd
  unfold declaring
  rw [variableNames_declarations, hdeclared]
  simp only [hv, List.append_nil]

end Import

namespace Template

open Source

theorem ofSource_of_leaves {t : Template} (h : t.Sayable) (hv : t.validate = .ok ())
    {ms : List Markup} (hms : t.Fragments ms) {left : Block → Option Block}
    {unread : Block → List String}
    (hl : ∀ p ∈ t.blocks.zip ms, Leaves t.colorScheme p (left p.1) (unread p.1))
    (hd : ({ t with blocks := t.blocks.filterMap left } : Template).DeclaresAll)
    (hleft : ({ t with blocks := t.blocks.filterMap left } : Template).validate = .ok ()) :
    ∃ warnings, Import.ofSource (t.moduleText ms) =
        ⟨some { t with blocks := t.blocks.filterMap left }, [], warnings⟩ ∧
      List.Forall₂ TellsUnread (t.blocks.flatMap unread) warnings := by
  obtain ⟨warnings, hcontent, hwarnings⟩ := content_of_leaves (absent_contentPhrases h.free) hv hms hl
  refine ⟨warnings, ?_, hwarnings⟩
  rw [ofSource_of_sayable h hv hms, hcontent]
  exact Import.declaring_self hd hleft warnings

theorem ofSource_of_readable {t : Template} (h : t.Sayable) (hv : t.validate = .ok ())
    {ms : List Markup} (hms : t.Fragments ms) (hn : ∀ b ∈ t.blocks, Marker.canName b.id = true)
    (hr : ∀ b ∈ t.blocks, b.content.Readable t.colorScheme)
    (hc : ∀ b ∈ t.blocks, b.content.Contained) :
    Import.ofSource (t.moduleText ms) = ⟨some t, [], []⟩ := by
  rw [ofSource_of_sayable h hv hms, content_of_readable (absent_contentPhrases h.free) hv hms hn hr hc]
  exact Import.declaring_self h.declared hv []

theorem ofSource_of_generate {t : Template} {source : String} (hg : t.generate = .ok source)
    (h : t.Importable) : Import.ofSource source = ⟨some t, [], []⟩ := by
  obtain ⟨hv, ms, hms, rfl⟩ := generate_eq_ok.mp hg
  rw [ofSource_of_sayable h.sayable hv hms, content_moduleText h hv hms]
  exact Import.declaring_self h.declared hv []

def declaredWelcome : Template :=
  { SystemTemplate.welcome.starter with declarations := [⟨"customer_name", .text, false⟩] }

theorem validate_declaredWelcome : declaredWelcome.validate = .ok () := rfl

theorem importable_declaredWelcome : declaredWelcome.Importable where
  named := by decide
  shown := by
    have hblocks : declaredWelcome.blocks = [⟨"greeting", .greeting "\x7b\x7bcustomer_name\x7d\x7d"⟩,
        ⟨"intro", .paragraph "Add your message here."⟩] := rfl
    rw [hblocks]
    simp only [List.forall_mem_cons, List.not_mem_nil, IsEmpty.forall_iff, implies_true, and_true]
    refine ⟨⟨"customer_name", rfl⟩, ⟨by decide, by decide, onlyInline_of_not_mem (by decide)⟩, ?_⟩
    decide
  preheader := by decide
  emoji := by decide
  subtitle := by decide
  declared := ⟨by decide +kernel, by decide⟩
  digits := by decide
  free := by decide

theorem ofSource_of_generate_welcome : declaredWelcome.Importable ∧
    ∃ source, declaredWelcome.generate = .ok source ∧
      Import.ofSource source = ⟨some declaredWelcome, [], []⟩ := by
  have hg : declaredWelcome.generate = .ok _ := generate_eq_ok.mpr
    ⟨validate_declaredWelcome, _, SystemTemplate.fragments_starter _, rfl⟩
  exact ⟨importable_declaredWelcome, _, hg, ofSource_of_generate hg importable_declaredWelcome⟩

end Template

end EmailTemplates
