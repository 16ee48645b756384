import EmailTemplates.Proofs.Markup.Settled
import EmailTemplates.Proofs.Markup.Unresolved

namespace EmailTemplates

namespace Token

/-- Two braces are opened only where a token starts. -/
def Tidy (cs : List Char) : Prop :=
  ∀ rest ∈ cs.tails, ['{', '{'] <+: rest → (read? rest).isSome = true

instance : DecidablePred Tidy :=
  fun cs => inferInstanceAs (Decidable (∀ rest ∈ cs.tails, _))

variable {c : Char} {cs ds : List Char}

theorem braces_prefix_cons : ['{', '{'] <+: c :: cs ↔ c = '{' ∧ cs.head? = some '{' := by
  cases cs <;> simp [List.cons_prefix_cons, eq_comm]

theorem read?_eq_none_of_not_braces (h : ¬ ['{', '{'] <+: cs) : read? cs = none := by
  cases hr : read? cs with
  | none => rfl
  | some p => exact absurd ⟨_, (eq_of_read? hr).2.symm⟩ h

theorem tidy_cons :
    Tidy (c :: cs) ↔ (['{', '{'] <+: c :: cs → (read? (c :: cs)).isSome = true) ∧ Tidy cs := by
  rw [Tidy, List.tails_cons, List.forall_mem_cons]
  rfl

theorem Tidy.of_append (h : Tidy (cs ++ ds)) : Tidy ds := by
  induction cs with
  | nil => exact h
  | cons c cs ih => exact ih (tidy_cons.mp h).2

theorem Tidy.prepend (hds : Tidy ds) (h : '{' ∉ cs) : Tidy (cs ++ ds) := by
  induction cs with
  | nil => exact hds
  | cons c cs ih =>
    rw [List.mem_cons, not_or] at h
    refine tidy_cons.mpr ⟨fun hbraces => ?_, ih h.2⟩
    exact absurd (braces_prefix_cons.mp hbraces).1.symm h.1

theorem Tidy.chars_append {name : List Char} (h : Tidy ds) (hname : isName name = true) :
    Tidy (chars name ++ ds) := by
  have hbrace := opening_not_mem_name hname
  refine tidy_cons.mpr ⟨fun _ => ?_, tidy_cons.mpr ⟨fun hbraces => ?_, h.prepend hbrace⟩⟩
  · exact congrArg Option.isSome (read?_chars hname ds)
  · have hhead : (name ++ ['}', '}'] ++ ds).head? = some '{' := (braces_prefix_cons.mp hbraces).2
    rw [List.head?_append_of_ne_nil _ (by simp)] at hhead
    exact absurd (List.mem_of_head? hhead) hbrace

theorem Tidy.not_braces (h : Tidy cs) (hr : read? cs = none) : ¬ ['{', '{'] <+: cs := by
  intro hbraces
  have hread := h cs ((List.mem_tails _ _).mpr List.suffix_rfl) hbraces
  rw [hr] at hread
  cases hread

theorem head?_of_head?_escape (h : (Text.escape cs).head? = some '{') : cs.head? = some '{' := by
  cases cs with
  | nil => exact h
  | cons c cs =>
    rw [Text.escape_cons] at h
    rcases Text.marks_escapeChar c with hc | ⟨tail, hc⟩
    · rwa [hc] at h
    · rw [hc] at h
      cases h

theorem Tidy.escape (h : Tidy cs) : Tidy (Text.escape cs) := by
  induction cs using text_induction with
  | nil => exact h
  | token name rest hname ih =>
    rw [Text.escape_append, Text.escape_chars hname]
    exact (ih h.of_append).chars_append hname
  | char c cs hr ih =>
    have hescape := ih (tidy_cons.mp h).2
    rw [Text.escape_cons]
    by_cases hc : c = '{'
    · subst hc
      refine tidy_cons.mpr ⟨fun hbraces => absurd ?_ (h.not_braces hr), hescape⟩
      exact braces_prefix_cons.mpr ⟨rfl, head?_of_head?_escape (braces_prefix_cons.mp hbraces).2⟩
    · exact hescape.prepend (Text.not_mem_escapeChar hc)

end Token

namespace Markup

open Token (Tidy)

theorem escaped_eq_authored (s : String) : escaped s = authored (Text.escaped s) := by
  rw [escaped, authored, Text.toList_escaped, Text.pieces_escape]

theorem Legible.mem_names {m : Markup} (h : m.Legible) {n : String}
    (hn : Variable.isValidName n = true) (hshown : Token.chars n.toList <:+: m.text) :
    n ∈ m.names := by
  rw [← h, names_pieces]
  exact List.mem_map.mpr ⟨n.toList, Token.mem_names_of_infix hn hshown, String.ofList_toList⟩

section

variable {value? : List Char → Option (List Char)}

theorem mem_names_filled {m : Markup} {n : String} (h : n ∈ names (m.filled value?)) :
    n ∈ m.names ∧ value? n.toList = none := by
  induction m with
  | nil => cases h
  | cons p m ih =>
    rw [filled, List.flatMap_cons, names_append, List.mem_append] at h
    cases p with
    | char c =>
      rcases h with h | h
      · cases h
      · exact ih h
    | reference name =>
      rcases h with h | h
      · cases hv : value? name with
        | none =>
          rw [filledPiece, hv] at h
          cases List.mem_singleton.mp h
          exact ⟨List.mem_cons_self, by rw [String.toList_ofList, hv]⟩
        | some value =>
          rw [filledPiece, hv] at h
          simp [names, List.filterMap_map] at h
      · exact (ih h).imp_left (List.mem_cons_of_mem _)

theorem head?_of_head?_fill_pieces {cs : List Char}
    (h : (fill value? (Token.pieces cs)).head? = some '{') : cs.head? = some '{' := by
  cases cs with
  | nil =>
    rw [Token.pieces_nil] at h
    exact h
  | cons c cs =>
    by_cases hc : c = '{'
    · rw [hc]
      rfl
    · rw [Token.pieces_cons (Token.read?_eq_none_of_head hc cs)] at h
      exact h

theorem legible_filled_of_newline {s : String}
    (h : Legible ((authored (s ++ "\n")).filled value?)) :
    Legible ((authored s).filled value?) := by
  have hbreak : Token.breaks '\n' = true := by decide
  have hcut := Token.pieces_append_of_breaks hbreak (text ((authored s).filled value?)) []
  rw [Token.pieces_newline] at hcut
  rw [Legible, authored_append_newline, line, filled_append, filled_fixed, text_append,
    text_fixed] at h
  exact List.append_cancel_right (hcut.symm.trans h)

variable (hvalue : ∀ name value, value? name = some value → '{' ∉ value)
include hvalue

theorem legible_filled_pieces {cs : List Char} (h : Tidy cs) :
    Legible (filled value? (Token.pieces cs)) := by
  induction cs using Token.text_induction with
  | nil =>
    rw [Token.pieces_nil]
    exact settled_nil.legible
  | token name rest hname ih =>
    have hreference : Variable.isValidName (.ofList name) = true := by
      rwa [Variable.isValidName, String.toList_ofList]
    have hsettled := settled_filled_reference hvalue hreference
    rw [reference, String.toList_ofList] at hsettled
    rw [Token.pieces_chars hname, ← List.singleton_append, filled_append]
    exact hsettled.append_legible (ih h.of_append)
  | char c cs hr ih =>
    have hrest := ih (Token.tidy_cons.mp h).2
    rw [Legible, text_filled] at hrest ⊢
    have hnone : Token.read? (c :: fill value? (Token.pieces cs)) = none := by
      refine Token.read?_eq_none_of_not_braces fun hbraces => h.not_braces hr ?_
      obtain ⟨hc, hhead⟩ := Token.braces_prefix_cons.mp hbraces
      exact Token.braces_prefix_cons.mpr ⟨hc, head?_of_head?_fill_pieces hhead⟩
    rw [Token.pieces_cons hr, fill, Token.pieces_cons hnone, hrest]
    rfl

theorem legible_filled_text {s : String} (h : Tidy s.toList) :
    Legible ((authored s).filled value?) ∧ Legible ((escaped s).filled value?) := by
  refine ⟨legible_filled_pieces hvalue h, ?_⟩
  rw [escaped_eq_authored, authored, Text.toList_escaped]
  exact legible_filled_pieces hvalue h.escape

end

end Markup

namespace RenderedEmail

/-- A token of the name is left for the reader of the email to see. -/
def Shows (e : RenderedEmail) (n : String) : Prop :=
  Token.chars n.toList <:+: e.html.toList ∨ Token.chars n.toList <:+: e.subject.toList

end RenderedEmail

namespace Filling

variable {v : Values} {n : String}

theorem get?_of_plainValue? (h : (Filling.mk .substitute v).plainValue? n.toList = none) :
    v.get? n = none := by
  rwa [plainValue?, Option.map_eq_none_iff, String.ofList_toList] at h

theorem get?_of_markupValue? (h : (Filling.mk .substitute v).markupValue? n.toList = none) :
    v.get? n = none :=
  get?_of_plainValue? (Option.map_eq_none_iff.mp h)

end Filling

namespace Template

open Markup

variable {t : Template} {options : RenderOptions} {v : Values}

theorem legible_filled_wrap {ms : List Markup} (h : t.Fragments ms)
    (ht : ∀ s ∈ t.drawnTexts, Token.Tidy s.toList)
    (hn : ∀ s ∈ options.company.footerNote, Token.Tidy s.toList)
    (hc : ∀ s ∈ options.company.details, '{' ∉ s.toList)
    {value? : List Char → Option (List Char)}
    (hvalue : ∀ name value, value? name = some value → '{' ∉ value) :
    Legible ((options.envelope.wrap (t.parts options ms.flatten)).filled value?) := by
  have hfixed {s : String} (hs : '{' ∉ s.toList) : Legible ((fixed s).filled value?) := by
    rw [filled_fixed]
    exact (settled_fixed hs).legible
  have hdetails : ∀ s ∈ options.company.details, '{' ∉ (Text.escaped s).toList := by
    intro s hs
    rw [Text.toList_escaped]
    exact Text.opening_not_mem_escape (hc s hs)
  have hwrap : ∃ html : Markup, html.Drawn (fun m => Legible (m.filled value?)) ∧
      options.envelope.wrap (t.parts options ms.flatten) =
        fixed options.envelope.doctype ++ html := by
    refine drawn_wrap_parts h (fun _ => legible_filled_of_newline)
      (fun s hs => legible_filled_text hvalue (ht s hs))
      (fun s hs => (legible_filled_text hvalue (hn s hs)).1) fun s hs => ?_
    refine ⟨hfixed (hdetails s hs), hfixed ?_⟩
    rw [String.toList_append, List.mem_append, not_or]
    exact ⟨by decide, hdetails s hs⟩
  obtain ⟨html, hhtml, heq⟩ := hwrap
  rw [heq, filled_append, filled_fixed]
  exact (options.envelope.settled_doctype.append (hhtml.settled_filled hvalue)).legible

theorem mem_unresolved_emailOf {ms : List Markup} {n : String} :
    n ∈ (t.emailOf v { options with mode := .substitute } ms).unresolved ↔
      n ∈ names (filledParts (t.parts options ms.flatten)) ∧ v.get? n = none := by
  rw [emailOf, Variable.mem_sorted, Filling.unresolved, List.mem_filter, Option.isNone_iff_eq_none]
  rfl

theorem drawn_of_shows {ms : List Markup} (h : t.Fragments ms)
    (ht : ∀ s ∈ t.drawnTexts, Token.Tidy s.toList)
    (hn : ∀ s ∈ options.company.footerNote, Token.Tidy s.toList)
    (hv : ∀ name value, v.get? name = some value → '{' ∉ value.toList)
    (hc : ∀ s ∈ options.company.details, '{' ∉ s.toList) {n : String}
    (hname : Variable.isValidName n = true)
    (hshown : (t.emailOf v { options with mode := .substitute } ms).Shows n) :
    (n ∈ names (options.envelope.wrap (t.parts options ms.flatten)) ∨
      n ∈ Variable.occurrences t.subject) ∧ v.get? n = none := by
  let filling : Filling := ⟨.substitute, v⟩
  have hplain : ∀ name value, filling.plainValue? name = some value → '{' ∉ value := by
    intro name value hvalue
    obtain ⟨found, hfound, rfl⟩ := Option.map_eq_some_iff.mp hvalue
    exact hv _ found hfound
  rcases hshown with hshown | hshown
  · have hmarkup : ∀ name value, filling.markupValue? name = some value → '{' ∉ value := by
      intro name value hvalue
      obtain ⟨plain, hfound, rfl⟩ := Option.map_eq_some_iff.mp hvalue
      exact Text.opening_not_mem_escape (hplain name plain hfound)
    rw [emailOf, Filling.markup, String.toList_ofList, ← text_filled] at hshown
    obtain ⟨hnames, hnone⟩ := mem_names_filled
      ((legible_filled_wrap h ht hn hc hmarkup).mem_names hname hshown)
    exact ⟨.inl hnames, Filling.get?_of_markupValue? hnone⟩
  · have hsubject : t.subject ∈ t.drawnTexts := by simp [drawnTexts, headTexts]
    rw [emailOf, Filling.plain, String.toList_ofList, ← text_filled] at hshown
    obtain ⟨hnames, hnone⟩ := mem_names_filled
      ((legible_filled_text hplain (ht _ hsubject)).1.mem_names hname hshown)
    exact ⟨.inr (names_authored t.subject ▸ hnames), Filling.get?_of_plainValue? hnone⟩

theorem mem_names_of_shows {ms : List Markup} (h : t.Fragments ms)
    (ht : ∀ s ∈ t.drawnTexts, Token.Tidy s.toList)
    (hn : ∀ s ∈ options.company.footerNote, Token.Tidy s.toList)
    (hv : ∀ name value, v.get? name = some value → '{' ∉ value.toList)
    (hc : ∀ s ∈ options.company.details, '{' ∉ s.toList) {n : String}
    (hname : Variable.isValidName n = true)
    (hshown : (t.emailOf v { options with mode := .substitute } ms).Shows n) :
    n ∈ names (filledParts (t.parts options ms.flatten)) ∧ v.get? n = none := by
  obtain ⟨hdrawn, hnone⟩ := drawn_of_shows h ht hn hv hc hname hshown
  refine ⟨?_, hnone⟩
  rcases hdrawn with hdrawn | hdrawn
  · exact Envelope.mem_names_of_wrap hdrawn
  · simp only [filledParts, parts, names_append, names_escaped, List.mem_append]
    tauto

theorem unresolved_of_shows {e : RenderedEmail}
    (ht : ∀ s ∈ t.drawnTexts, Token.Tidy s.toList)
    (hn : ∀ s ∈ options.company.footerNote, Token.Tidy s.toList)
    (hv : ∀ name value, v.get? name = some value → '{' ∉ value.toList)
    (hc : ∀ s ∈ options.company.details, '{' ∉ s.toList)
    (h : t.render v { options with mode := .substitute } = .ok e) :
    (∀ n, Variable.isValidName n = true → e.Shows n → n ∈ e.unresolved) ∧
      (e.unresolved = [] → ∀ n, Variable.isValidName n = true → ¬ e.Shows n) := by
  obtain ⟨-, ms, hms, rfl⟩ := render_eq_ok.mp h
  have hreported (n : String) (hname : Variable.isValidName n = true)
      (hshown : (t.emailOf v { options with mode := .substitute } ms).Shows n) :=
    mem_unresolved_emailOf.mpr (mem_names_of_shows hms ht hn hv hc hname hshown)
  refine ⟨hreported, fun hnone n hname hshown => ?_⟩
  have hmem := hreported n hname hshown
  rw [hnone] at hmem
  cases hmem

theorem unresolved_of_shows_welcome : ∃ e,
    SystemTemplate.welcome.starter.render (.ofList [("recipient", "Ada")])
        (.ofMode .substitute) = .ok e ∧
      (∀ n, Variable.isValidName n = true → e.Shows n → n ∈ e.unresolved) ∧
      (e.unresolved = [] → ∀ n, Variable.isValidName n = true → ¬ e.Shows n) := by
  have h := SystemTemplate.render_starter SystemTemplate.welcome_mem_all
    (.ofList [("recipient", "Ada")]) (.ofMode .substitute)
  have hvalues : ∀ name value,
      (Values.ofList [("recipient", "Ada")]).get? name = some value → '{' ∉ value.toList := by
    intro name value hv
    change [("recipient", "Ada")].lookup name = some value at hv
    rw [List.lookup_cons] at hv
    split at hv
    · cases hv
      decide
    · cases hv
  exact ⟨_, h, @unresolved_of_shows SystemTemplate.welcome.starter (.ofMode .substitute) _ _
    (by decide) (by decide) hvalues (by decide) h⟩

end Template

end EmailTemplates
