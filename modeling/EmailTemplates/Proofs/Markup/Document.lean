import EmailTemplates.Proofs.Markup.Drawn
import EmailTemplates.Variable.Reference

namespace EmailTemplates

def Field.text? : Field → Option String
  | .text _ value => some value
  | .variable .. => none

namespace Envelope

open Markup Attribute Design
open Text (Plain plain_ofList plain_append plain_repr)

variable {Loose : Markup → Prop}

structure Parts.Drawn (Loose : Markup → Prop) (p : Parts) : Prop where
  subject : Loose p.subject
  preheader : ∀ m ∈ p.preheader, Loose m
  emoji : ∀ m ∈ p.emoji, Loose m
  title : Loose p.title
  subtitle : ∀ m ∈ p.subtitle, Loose m
  content : p.content.Drawn Loose
  note : ∀ m ∈ p.note, Loose m
  palette : p.palette.Plain
  companyName : Loose (.fixed (Text.escaped p.company.name))
  address : ∀ s ∈ p.company.address, Loose (.fixed (Text.escaped s))
  supportEmail : ∀ s ∈ p.company.supportEmail, Loose (.fixed (Text.escaped s)) ∧
    Loose (.fixed ("mailto:" ++ Text.escaped s))

theorem drawn_optionalLine {text : Option Markup} {tag : String} {s : Style}
    (ht : tag ∈ elementTags) (hs : s.Plain) (h : ∀ m ∈ text, Loose m) :
    Markup.Drawn Loose
      (text.toList.flatMap fun m => line (Markup.element tag [style s] m)) := by
  refine .flatMap fun m hm => .line (.loose ht ?_ (h m (Option.mem_toList.mp hm)))
  exact List.forall_mem_singleton.mpr (drawn_style hs)

theorem drawn_head {p : Parts} (h : Loose p.subject) : Markup.Drawn Loose (head p) := by
  refine .container (by decide) (by simp)
    (.append (.append (.append (.line ?_) (.line ?_)) (.line ?_)) (.line ?_))
  · refine .void (by simp) (List.forall_mem_singleton.mpr ?_)
    exact .fixed (plain_ofList _ (by decide)) (plain_ofList _ (by decide))
  · refine .void (by simp) (List.forall_mem_cons.mpr ⟨?_, List.forall_mem_singleton.mpr ?_⟩) <;>
      exact .fixed (plain_ofList _ (by decide)) (plain_ofList _ (by decide))
  · refine .void (by simp) (List.forall_mem_singleton.mpr ?_)
    exact .fixed (plain_ofList _ (by decide)) (plain_ofList _ (by decide))
  · exact .loose (by decide) (by simp) h

theorem plain_bodyStyle : bodyStyle.Plain := by
  simp only [bodyStyle, Style.plain_prop, Style.plain_empty, true_and]
  and_intros <;> exact plain_ofList _ (by decide)

theorem plain_preheaderStyle : preheaderStyle.Plain := by
  simp only [preheaderStyle, Style.plain_prop, Style.plain_empty, true_and]
  and_intros <;> exact plain_ofList _ (by decide)

theorem plain_cardStyle : cardStyle.Plain := by
  simp only [cardStyle, Style.plain_prop, Style.plain_empty, true_and, plain_append]
  and_intros <;> first | exact plain_repr contentWidth | exact plain_ofList _ (by decide)

theorem plain_bannerStyle : bannerStyle.Plain := by
  simp only [bannerStyle, Style.plain_prop, Style.plain_empty, true_and, and_true, plain_fontFamily]
  and_intros <;> exact plain_ofList _ (by decide)

theorem drawn_banner (p : Parts) : Markup.Drawn Loose (banner p) := by
  unfold banner
  split
  · refine .container (by decide) (by simp) (.line (.element
      (by decide) ?_ (.fixed (plain_ofList _ (by decide)))))
    exact List.forall_mem_singleton.mpr (drawn_style plain_bannerStyle)
  · exact .nil

theorem plain_bandStyle {p : Parts} (hp : p.palette.Plain) : (bandStyle p).Plain := by
  simp only [bandStyle, Style.plain_prop, Style.plain_empty, true_and]
  refine ⟨⟨⟨⟨?_, hp.primary⟩, ?_, ?_⟩, ?_, ?_⟩, ?_, ?_⟩
  iterate 6 exact plain_ofList _ (by decide)
  split
  · exact plain_ofList _ (by decide)
  · simp only [plain_append]
    and_intros <;> exact plain_ofList _ (by decide)

theorem plain_emojiStyle : emojiStyle.Plain := by
  simp only [emojiStyle, Style.plain_prop, Style.plain_empty, true_and, plain_append]
  and_intros <;> exact plain_ofList _ (by decide)

theorem plain_titleStyle : titleStyle.Plain := by
  simp only [titleStyle, Style.plain_prop, Style.plain_empty, true_and, and_true, plain_fontFamily]
  and_intros <;> exact plain_ofList _ (by decide)

theorem plain_subtitleStyle : subtitleStyle.Plain := by
  simp only [subtitleStyle, Style.plain_prop, Style.plain_empty, true_and, and_true,
    plain_fontFamily, plain_append]
  and_intros <;> exact plain_ofList _ (by decide)

theorem drawn_header {p : Parts} (h : p.Drawn Loose) : Markup.Drawn Loose (header p) := by
  refine .container (by decide) (by simp) (.container (by decide)
    (List.forall_mem_singleton.mpr (drawn_style (plain_bandStyle h.palette)))
    (.append (.append ?_ (.line (.loose (by decide) ?_ h.title))) ?_))
  · exact drawn_optionalLine (by decide) plain_emojiStyle h.emoji
  · exact List.forall_mem_singleton.mpr (drawn_style plain_titleStyle)
  · exact drawn_optionalLine (by decide) plain_subtitleStyle h.subtitle

theorem drawn_content {p : Parts} (h : p.content.Drawn Loose) :
    Markup.Drawn Loose (content p) := by
  refine .container (by decide) (by simp)
    (.container (by decide) (List.forall_mem_singleton.mpr ?_) h)
  refine .fixed (plain_ofList _ (by decide)) ?_
  simp only [plain_append]
  and_intros <;> exact plain_ofList _ (by decide)

theorem plain_footerStyle : footerStyle.Plain := by
  simp only [footerStyle, Style.plain_prop, Style.plain_empty, true_and, plain_append]
  and_intros <;> exact plain_ofList _ (by decide)

theorem plain_noteStyle : noteStyle.Plain := by
  simp only [noteStyle, Style.plain_prop, plain_append]
  and_intros <;> first | exact Style.plain_mutedText | exact plain_ofList _ (by decide)

theorem drawn_footerLine {s : Style} {m : Markup} (hs : s.Plain) (h : Loose m) :
    Markup.Drawn Loose (footerLine s m) := by
  refine .line (.loose (by decide) ?_ h)
  exact List.forall_mem_singleton.mpr (drawn_style hs)

theorem drawn_supportLine {palette : Palette} (hp : palette.Plain) {address : String}
    (ha : Loose (.fixed address)) (hm : Loose (.fixed ("mailto:" ++ address))) :
    Markup.Drawn Loose (supportLine palette address) := by
  refine .line (.element (by decide)
    (List.forall_mem_singleton.mpr (drawn_style Style.plain_mutedText))
    (.append (.fixed (plain_ofList _ (by decide))) (.loose (by decide) ?_ ha)))
  refine List.forall_mem_cons.mpr ⟨.loose (plain_ofList _ (by decide)) hm, ?_⟩
  refine List.forall_mem_singleton.mpr (.fixed (plain_ofList _ (by decide)) ?_)
  simp only [plain_append]
  exact ⟨⟨plain_ofList _ (by decide), hp.primary⟩, plain_ofList _ (by decide)⟩

theorem drawn_footer {p : Parts} (h : p.Drawn Loose) : Markup.Drawn Loose (footer p) := by
  have hcell {lines : Markup} (hl : lines.Drawn Loose) :
      (container "tr" [] (container "td" [style footerStyle] lines)).Drawn Loose := by
    refine .container (by decide) (by simp) (.container (by decide)
      (List.forall_mem_singleton.mpr (drawn_style plain_footerStyle)) hl)
  have hname := drawn_footerLine Style.plain_mutedText h.companyName
  unfold footer
  split
  · exact .nil
  · exact hcell hname
  · refine hcell (.append (.append (.append (.flatMap ?_) hname) (.flatMap ?_)) (.flatMap ?_))
    · intro note hn
      exact drawn_footerLine plain_noteStyle (h.note note (Option.mem_toList.mp hn))
    · intro address ha
      exact drawn_footerLine Style.plain_mutedText (h.address address (Option.mem_toList.mp ha))
    · intro address ha
      obtain ⟨hl, hm⟩ := h.supportEmail address (Option.mem_toList.mp ha)
      exact drawn_supportLine h.palette hl hm

theorem drawn_document {p : Parts} (h : p.Drawn Loose) :
    ∃ html, html.Drawn Loose ∧ document p = line (fixed "<!DOCTYPE html>") ++ html := by
  refine ⟨_, ?_, rfl⟩
  refine .container (by decide) (List.forall_mem_singleton.mpr (.fixed
    (plain_ofList _ (by decide)) (plain_ofList _ (by decide)))) (.append (drawn_head h.subject) ?_)
  refine .container (by decide)
    (List.forall_mem_singleton.mpr (drawn_style plain_bodyStyle)) (.append ?_ ?_)
  · exact drawn_optionalLine (by decide) plain_preheaderStyle h.preheader
  refine .container (by decide) ?_ (.container (by decide) (by simp)
    (.container (by decide) ?_ (.container (by decide) ?_
      (.append (.append (.append (drawn_banner p) (drawn_header h)) (drawn_content h.content))
        (drawn_footer h)))))
  · refine List.forall_mem_append.mpr ⟨drawn_presentation, ?_⟩
    refine List.forall_mem_cons.mpr ⟨Fragment.drawn_width, List.forall_mem_singleton.mpr ?_⟩
    refine .fixed (plain_ofList _ (by decide)) ?_
    simp only [plain_append]
    and_intros <;> exact plain_ofList _ (by decide)
  · refine List.forall_mem_cons.mpr ⟨.fixed (plain_ofList _ (by decide)) (plain_ofList _ (by decide)), ?_⟩
    refine List.forall_mem_singleton.mpr (.fixed (plain_ofList _ (by decide)) ?_)
    simp only [plain_append]
    and_intros <;> exact plain_ofList _ (by decide)
  · refine List.forall_mem_append.mpr ⟨drawn_presentation, ?_⟩
    refine List.forall_mem_cons.mpr ⟨.fixed (plain_ofList _ (by decide)) (plain_repr _), ?_⟩
    exact List.forall_mem_singleton.mpr (drawn_style plain_cardStyle)

def doctype : Envelope → String
  | .full => "<!DOCTYPE html>\n"
  | .bare => ""

theorem drawn_wrap (e : Envelope) {p : Parts} (h : p.Drawn Loose) :
    ∃ html, html.Drawn Loose ∧ e.wrap p = Markup.fixed e.doctype ++ html := by
  cases e with
  | full =>
    obtain ⟨html, hhtml, hp⟩ := drawn_document h
    exact ⟨html, hhtml, hp⟩
  | bare => exact ⟨p.content, h.content, rfl⟩

end Envelope

def Company.details (c : Company) : List String :=
  c.name :: (c.address.toList ++ c.supportEmail.toList)

namespace Template

open Markup

def drawnTexts (t : Template) : List String :=
  t.headTexts ++ t.blocks.flatMap (fun b => b.fields.filterMap Field.text?) ++
    t.footer.note.toList

variable {Loose : Markup → Prop} {t : Template}

theorem drawn_of_fragments {ms : List Markup} (h : t.Fragments ms)
    (hcut : ∀ s, Loose (authored (s ++ "\n")) → Loose (authored s))
    (ht : ∀ s ∈ t.drawnTexts, Loose (authored s) ∧ Loose (escaped s)) :
    Markup.Drawn Loose ms.flatten := by
  refine .flatten fun m hm => ?_
  obtain ⟨b, hb, hdraws⟩ := h.exists_block hm
  refine Block.drawn_of_draws hdraws hcut fun name value hfield => ht value ?_
  refine List.mem_append_left _ (List.mem_append_right _ (List.mem_flatMap.mpr ⟨b, hb, ?_⟩))
  exact List.mem_filterMap.mpr ⟨_, hfield, rfl⟩

theorem drawn_parts {options : RenderOptions} {content : Markup} (h : content.Drawn Loose)
    (ht : ∀ s ∈ t.drawnTexts, Loose (authored s) ∧ Loose (escaped s))
    (hn : ∀ s ∈ options.company.footerNote, Loose (authored s))
    (hc : ∀ s ∈ options.company.details, Loose (.fixed (Text.escaped s)) ∧
      Loose (.fixed ("mailto:" ++ Text.escaped s))) :
    (t.parts options content).Drawn Loose := by
  have hmap {text : Option String} (htext : ∀ s ∈ text, Loose (authored s)) :
      ∀ m ∈ text.map authored, Loose m := by
    intro m hm
    obtain ⟨s, hs, rfl⟩ := Option.map_eq_some_iff.mp hm
    exact htext s hs
  have hhead : ∀ s ∈ t.headTexts, Loose (authored s) ∧ Loose (escaped s) := fun s hs =>
    ht s (List.mem_append_left _ (List.mem_append_left _ hs))
  have hnote : ∀ s ∈ t.note options.company, Loose (authored s) := by
    intro s hs
    rcases Option.or_eq_some_iff.mp hs with hs | ⟨-, hs⟩
    · exact (ht s (List.mem_append_right _ (Option.mem_toList.mpr hs))).1
    · exact hn s hs
  exact {
    subject := (hhead _ (by simp [headTexts])).2
    preheader := hmap fun s hs => (hhead s (by simp [headTexts, Option.mem_def.mp hs])).1
    emoji := hmap fun s hs => (hhead s (by simp [headTexts, Option.mem_def.mp hs])).1
    title := (hhead _ (by simp [headTexts])).1
    subtitle := hmap fun s hs => (hhead s (by simp [headTexts, Option.mem_def.mp hs])).1
    content := h
    note := hmap hnote
    palette := ColorScheme.plain_palette t.colorScheme
    companyName := (hc _ List.mem_cons_self).1
    address := fun s hs => (hc s (List.mem_cons_of_mem _
      (List.mem_append_left _ (Option.mem_toList.mpr hs)))).1
    supportEmail := fun s hs => hc s (List.mem_cons_of_mem _
      (List.mem_append_right _ (Option.mem_toList.mpr hs))) }

theorem drawn_wrap_parts {options : RenderOptions} {ms : List Markup} (h : t.Fragments ms)
    (hcut : ∀ s, Loose (authored (s ++ "\n")) → Loose (authored s))
    (ht : ∀ s ∈ t.drawnTexts, Loose (authored s) ∧ Loose (escaped s))
    (hn : ∀ s ∈ options.company.footerNote, Loose (authored s))
    (hc : ∀ s ∈ options.company.details, Loose (.fixed (Text.escaped s)) ∧
      Loose (.fixed ("mailto:" ++ Text.escaped s))) :
    ∃ html, html.Drawn Loose ∧ options.envelope.wrap (t.parts options ms.flatten) =
      .fixed options.envelope.doctype ++ html :=
  Envelope.drawn_wrap _ (drawn_parts (drawn_of_fragments h hcut ht) ht hn hc)

end Template

end EmailTemplates
