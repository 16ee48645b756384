import EmailTemplates.Proofs.Source.Named

namespace EmailTemplates

open Source
open Text (Slice)

namespace Import

theorem declaring_of_valid {declared : Option (List VariableDeclaration)}
    {warnings : List Diagnostic} {t : Template}
    (h : ({ t with declarations := (withInferred declared t.variableNames).1 } :
      Template).validate = .ok ()) :
    (declaring declared warnings t).errors = [] ∧ (declaring declared warnings t).template =
      some { t with declarations := (withInferred declared t.variableNames).1 } := by
  unfold declaring
  simp only [h, and_self]

end Import

namespace Template

theorem validateDeclarations_of_forall {ds : List VariableDeclaration}
    (h : ∀ d ∈ ds, Variable.isValidName d.name = true) : validateDeclarations ds = .ok () := by
  induction ds with
  | nil => rfl
  | cons d ds ih =>
    obtain ⟨hd, hds⟩ := List.forall_mem_cons.mp h
    rw [validateDeclarations, if_pos hd, ih hds]

structure SameEnvelope (t u : Template) : Prop where
  slug : u.slug = t.slug
  name : u.name = t.name
  description : u.description = t.description
  subject : u.subject = t.subject
  preheader : u.preheader = t.preheader
  colorScheme : u.colorScheme = t.colorScheme
  header : u.header = t.header
  footer : u.footer = t.footer
  context : u.context = t.context

theorem validate_of_envelope {t : Template} (hv : t.validate = .ok ()) {blocks : List Block}
    {declarations : List VariableDeclaration}
    (hb : (∀ b ∈ blocks, b.id ≠ "") ∧ (blocks.map (·.id)).Nodup)
    (hd : ∀ d ∈ declarations, Variable.isValidName d.name = true) :
    ({ t with blocks, declarations } : Template).validate = .ok () := by
  obtain ⟨hslug, hname, hsubject, htitle, -, -⟩ := validate_eq_ok.mp hv
  refine validate_eq_ok.mpr ⟨hslug, hname, hsubject, htitle, ?_, validateDeclarations_of_forall hd⟩
  exact validateIds_eq_ok.mpr ⟨fun b hmem => ⟨hb.1 b hmem, List.not_mem_nil⟩, hb.2⟩

theorem envelope_of_generate {t : Template} {source : String} (hg : t.generate = .ok source)
    (hf : ∀ s ∈ t.strings, Free s.toList) (hp : ∀ s ∈ t.preheader, Text.isBlankText s = false)
    (he : t.header.emoji ≠ some "") (hs : t.header.subtitle ≠ some "") :
    ∃ u, (Import.ofSource source).template = some u ∧ (Import.ofSource source).errors = [] ∧
      t.SameEnvelope u := by
  obtain ⟨hv, ms, hms, rfl⟩ := generate_eq_ok.mp hg
  have htexts : ∀ s ∈ t.texts, Free s.toList := fun s hmem => hf s (mem_strings_of_mem_texts hmem)
  obtain ⟨declared, hdeclared, hnames⟩ := isValidName_interface htexts hv ms
  obtain ⟨hnamed, hdistinct⟩ := ids_content t.colorScheme (Slice.ofString (t.moduleText ms))
  rw [ofSource_moduleText htexts hv hp he hs hms, hdeclared]
  generalize content t.colorScheme (Slice.ofString (t.moduleText ms)) = c at hnamed hdistinct ⊢
  generalize (interface (Slice.ofString (t.moduleText ms))).2 = warnings
  have hvalid := validate_of_envelope hv
    ⟨fun b hb => Marker.ne_empty_of_canName (hnamed b hb), hdistinct⟩
    (@isValidName_withInferred declared ({ t with blocks := c.1, declarations := [] } :
      Template).variableNames hnames fun n hn => isValidName_of_mem_variableNames hn)
  obtain ⟨herrors, htemplate⟩ := @Import.declaring_of_valid (some declared) (warnings ++ c.2)
    { t with blocks := c.1, declarations := [] } hvalid
  exact ⟨_, htemplate, herrors, rfl, rfl, rfl, rfl, rfl, rfl, rfl, rfl, rfl⟩

def notice : Template where
  slug := "2-notices"
  name := "It's a \"notice\""
  description := some "one\n  two\tthree \\"
  subject := "Re: `$\x7bdata.x\x7d` \x7b\x7b2nd_name\x7d\x7d"
  preheader := some "*/ \x7d; // 'now"
  colorScheme := .red
  header := ⟨some "🧾", "Don't \x7d stop", some "\x7b 'title': \"no\" \x7d,"⟩
  blocks := [⟨"a block", .infoBox (some "<p>\n`") [⟨"Total", "\x7b\x7bamount\x7d\x7d"⟩] none⟩,
    ⟨"--", .customHtml "loose <!-- block: -- --> `$\x7b1\x7d\n  const name = 'other';"⟩]
  footer := ⟨.minimal, some "\\' // Ünter\r\n"⟩
  declarations := [⟨"amount", .money, true⟩, ⟨"amount", .text, false⟩]
  context := some ""

theorem validate_notice : notice.validate = .ok () := rfl

theorem fragments_notice : ∃ ms, notice.Fragments ms :=
  ⟨_, .cons (.infoBox (by simp) (by decide)) (.cons .customHtml .nil)⟩

theorem free_notice : ∀ s ∈ notice.strings, Free s.toList := by
  decide

theorem envelope_of_generate_notice : ∃ source, notice.generate = .ok source ∧
    (∀ s ∈ notice.strings, Free s.toList) ∧ (∀ s ∈ notice.preheader, Text.isBlankText s = false) ∧
      notice.header.emoji ≠ some "" ∧ notice.header.subtitle ≠ some "" ∧
        ∃ u, (Import.ofSource source).template = some u ∧ (Import.ofSource source).errors = [] ∧
          notice.SameEnvelope u := by
  obtain ⟨ms, hms⟩ := fragments_notice
  have hg : notice.generate = .ok (notice.moduleText ms) :=
    generate_eq_ok.mpr ⟨validate_notice, ms, hms, rfl⟩
  have hp : ∀ s ∈ notice.preheader, Text.isBlankText s = false := by decide
  have he : notice.header.emoji ≠ some "" := by decide
  have hs : notice.header.subtitle ≠ some "" := by decide
  exact ⟨_, hg, free_notice, hp, he, hs, envelope_of_generate hg free_notice hp he hs⟩

end Template

end EmailTemplates
