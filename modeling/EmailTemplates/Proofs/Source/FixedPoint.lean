import EmailTemplates.Proofs.Source.Enclosed
import EmailTemplates.Proofs.Source.Named
import EmailTemplates.Proofs.Source.RoundTrip
import EmailTemplates.Proofs.Source.Taken

namespace EmailTemplates

open Source
open Text (Slice)

namespace Import

variable {text : String} {t : Template}

theorem Taken.named (h : Taken text t) : ∀ b ∈ t.blocks, Marker.canName b.id = true := by
  rw [h.blocks]
  exact (ids_content t.colorScheme (Slice.ofString text)).1

theorem Taken.readable (h : Taken text t) : ∀ b ∈ t.blocks, b.content.Readable t.colorScheme := by
  intro b hb
  rw [h.blocks] at hb
  obtain ⟨tag, hrecognized⟩ := recognized_content t.colorScheme (Slice.ofString text) b hb
  exact hrecognized.readable

theorem Taken.sayable (h : Taken text t)
    (hd : ∀ d ∈ t.declarations, ∀ c ∈ d.name.toList.head?, c.isDigit = false)
    (hf : ∀ s ∈ t.texts, Free s.toList) : t.Sayable :=
  ⟨h.preheader, h.emoji, h.subtitle, h.usable.declaresAll, hd, hf⟩

theorem fixed_of_contained (h : (ofSource text).template = some t)
    (hf : ∀ s ∈ t.texts, Free s.toList)
    (hd : ∀ d ∈ t.declarations, ∀ c ∈ d.name.toList.head?, c.isDigit = false)
    (hc : ∀ b ∈ t.blocks, b.content.Contained) :
    ∃ source, t.generate = .ok source ∧ ofSource source = ⟨some t, [], []⟩ := by
  have htaken := taken_of_ofSource h
  obtain ⟨source, hg⟩ := htaken.usable.generates
  obtain ⟨hv, ms, hms, rfl⟩ := Template.generate_eq_ok.mp hg
  exact ⟨_, hg, Template.ofSource_of_readable (htaken.sayable hd hf) hv hms htaken.named
    htaken.readable hc⟩

theorem fixed_of_ofSource (h : (ofSource text).template = some t)
    (hbody : ∀ body, contentBody (.ofString text) = .ok body →
      '\\' ∉ body.chars ∧ TagsApart body.chars)
    (hf : ∀ s ∈ t.texts, Free s.toList)
    (hd : ∀ d ∈ t.declarations, ∀ c ∈ d.name.toList.head?, c.isDigit = false)
    (hc : ∀ b ∈ t.blocks, b.kind = .list ∨ b.kind = .button → b.content.Contained) :
    ∃ source, t.generate = .ok source ∧ ofSource source = ⟨some t, [], []⟩ := by
  refine fixed_of_contained h hf hd fun b hb => ?_
  by_cases hkind : b.kind = .list ∨ b.kind = .button
  · exact hc b hb hkind
  · obtain ⟨hlist, hbutton⟩ := not_or.mp hkind
    rw [(taken_of_ofSource h).blocks] at hb
    exact contained_content hbody b hb hlist hbutton

def handwrittenContent : String :=
  "<p>Hi <b>you</b></p><p><a href=\"$\x7bdata.url\x7d\">Read <i>on</i></a></p>" ++
  "<ul><li>or not</li></ul>"

theorem exists_forest_handwritten : ∃ f : Forest, f.chars = handwrittenContent.toList := by
  refine ⟨.element (.plain "p" (by decide)) rfl (.text "Hi ".toList (by decide)
    (.element (.plain "b" (by decide)) rfl (.text "you".toList (by decide) .nil) .nil))
    (.element (.plain "p" (by decide)) rfl
      (.element ⟨"a".toList, " href=\"$\x7bdata.url\x7d\"".toList, by decide, by decide,
          by decide, by decide⟩ rfl
        (.text "Read ".toList (by decide)
          (.element (.plain "i" (by decide)) rfl (.text "on".toList (by decide) .nil) .nil)) .nil)
      (.element (.plain "ul" (by decide)) rfl
        (.element (.plain "li" (by decide)) rfl (.text "or not".toList (by decide) .nil) .nil)
        .nil)), ?_⟩
  decide

def handwritten : String :=
  "export const slug = 'news';\nexport const subject = 'News';\n" ++
  "export const header = \x7b title: 'News' \x7d;\nexport const content = `" ++
  handwrittenContent ++ "`;\n"

def handwrittenTemplate : Template where
  slug := "news"
  name := "News"
  description := none
  subject := "News"
  preheader := none
  colorScheme := .blue
  header := ⟨none, "News", none⟩
  blocks := [⟨"paragraph-1", .paragraph "Hi <b>you</b>"⟩,
    ⟨"link-2", .link "Read <i>on</i>" "url" none⟩, ⟨"list-3", .list ["or not"] false⟩]
  footer := ⟨.standard, none⟩
  declarations := [⟨"url", .text, false⟩]
  context := none

theorem fixed_of_handwritten :
    (ofSource handwritten).template = some handwrittenTemplate ∧
    (∀ body, contentBody (.ofString handwritten) = .ok body →
      '\\' ∉ body.chars ∧ TagsApart body.chars) ∧
    (∀ s ∈ handwrittenTemplate.texts, Free s.toList) ∧
    (∀ d ∈ handwrittenTemplate.declarations, ∀ c ∈ d.name.toList.head?, c.isDigit = false) ∧
    (∀ b ∈ handwrittenTemplate.blocks, b.kind = .list ∨ b.kind = .button → b.content.Contained) ∧
    ∃ source, handwrittenTemplate.generate = .ok source ∧
      ofSource source = ⟨some handwrittenTemplate, [], []⟩ := by
  have htemplate : (ofSource handwritten).template = some handwrittenTemplate := by
    decide +kernel
  have hcontent : contentBody (.ofString handwritten) = .ok ⟨124, handwrittenContent.toList⟩ := by
    decide +kernel
  have hbody : ∀ body, contentBody (.ofString handwritten) = .ok body →
      '\\' ∉ body.chars ∧ TagsApart body.chars := by
    intro body hbody
    cases hcontent.symm.trans hbody
    obtain ⟨f, hf⟩ := exists_forest_handwritten
    exact ⟨by decide, hf ▸ f.tagsApart⟩
  have hfree : ∀ s ∈ handwrittenTemplate.texts, Free s.toList := by decide
  have hdigits : ∀ d ∈ handwrittenTemplate.declarations, ∀ c ∈ d.name.toList.head?,
      c.isDigit = false := by decide
  have hcontained : ∀ b ∈ handwrittenTemplate.blocks, b.kind = .list ∨ b.kind = .button →
      b.content.Contained := by
    simp only [handwrittenTemplate, List.forall_mem_cons, List.not_mem_nil, IsEmpty.forall_iff,
      implies_true, and_true]
    exact ⟨fun hkind => absurd hkind (by decide), fun hkind => absurd hkind (by decide),
      fun _ => List.forall_mem_singleton.mpr (contained_of_not_mem (by decide))⟩
  exact ⟨htemplate, hbody, hfree, hdigits, hcontained,
    fixed_of_ofSource htemplate hbody hfree hdigits hcontained⟩

end Import

end EmailTemplates
