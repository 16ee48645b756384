import EmailTemplates.Proofs.Markup.Settled
import EmailTemplates.Proofs.SystemTemplate

namespace EmailTemplates

namespace Token

def replace (value? : List Char → Option (List Char)) (cs : List Char) : List Char :=
  match h : read? cs with
  | some (name, rest) =>
    have := length_of_read? h
    (value? name).getD (chars name) ++ replace value? rest
  | none =>
    match cs with
    | [] => []
    | c :: cs => c :: replace value? cs
termination_by cs.length

theorem replace_eq_fill (value? : List Char → Option (List Char)) (cs : List Char) :
    replace value? cs = Markup.fill value? (pieces cs) := by
  induction cs using text_induction with
  | nil =>
    rw [replace, pieces_nil]
    rfl
  | token name rest h ih =>
    rw [pieces_chars h, Markup.fill, ← ih, replace]
    split
    · rename_i n r hr
      rw [read?_chars h] at hr
      cases hr
      rfl
    · rename_i hr
      rw [read?_chars h] at hr
      cases hr
  | char c cs h ih =>
    rw [pieces_cons h, Markup.fill, ← ih, replace]
    split
    · rename_i n r hr
      rw [h] at hr
      cases hr
    · rfl

end Token

namespace Markup

theorem Legible.replace_text {m : Markup} (h : m.Legible)
    (value? : List Char → Option (List Char)) :
    Token.replace value? m.text = m.fill value? := by
  rw [Token.replace_eq_fill, h]

end Markup

structure Company.TokenFree (c : Company) : Prop where
  name : Token.names c.name.toList = []
  address : ∀ s ∈ c.address, Token.names s.toList = []
  supportEmail : ∀ s ∈ c.supportEmail, Token.names s.toList = []

theorem Company.tokenFree_unnamed : Company.unnamed.TokenFree where
  name := Token.names_of_not_mem (by decide)
  address := by simp [Company.unnamed]
  supportEmail := by simp [Company.unnamed]

namespace Template

open Markup

theorem legible_text (s : String) : (authored s).Legible ∧ (escaped s).Legible :=
  ⟨legible_authored s, legible_escaped s⟩

theorem legible_detail {c : Company} (hc : c.TokenFree) : ∀ s ∈ c.details,
    (fixed (Text.escaped s)).Legible ∧ (fixed ("mailto:" ++ Text.escaped s)).Legible := by
  intro s hs
  have hnames : Token.names s.toList = [] := by
    rcases List.mem_cons.mp hs with rfl | hs
    · exact hc.name
    · rcases List.mem_append.mp hs with hs | hs
      · exact hc.address s (Option.mem_toList.mp hs)
      · exact hc.supportEmail s (Option.mem_toList.mp hs)
  have hl := legible_fixed_escaped hnames
  exact ⟨hl, hl.fixed_append (by decide)⟩

theorem legible_wrap {t : Template} {options : RenderOptions} {ms : List Markup}
    (hc : options.company.TokenFree) (h : t.Fragments ms) :
    (options.envelope.wrap (t.parts options ms.flatten)).Legible := by
  obtain ⟨html, hhtml, heq⟩ := drawn_wrap_parts h (fun s _ => legible_authored s)
    (fun s _ => legible_text s) (fun s _ => legible_authored s) (legible_detail hc)
  rw [heq]
  exact (options.envelope.settled_doctype.append hhtml.settled).legible

end Template

namespace Values

def plain? (v : Values) (name : List Char) : Option (List Char) :=
  (v.get? (.ofList name)).map String.toList

def markup? (v : Values) (name : List Char) : Option (List Char) :=
  (v.get? (.ofList name)).map fun value => Text.escape value.toList

end Values

namespace RenderedEmail

def drawn (e : RenderedEmail) : String × String :=
  (e.subject, e.html)

/-- Values put into an email that was drawn without them, as they are into its subject and escaped
into its document. -/
def filledWith (v : Values) (e : RenderedEmail) : String × String :=
  (.ofList (Token.replace v.plain? e.subject.toList),
    .ofList (Token.replace v.markup? e.html.toList))

end RenderedEmail

namespace Filling

theorem plain_preserve (values : Values) (m : Markup) :
    (Filling.mk .preserve values).plain m = .ofList m.text := rfl

theorem markup_preserve (values : Values) (m : Markup) :
    (Filling.mk .preserve values).markup m = .ofList m.text := rfl

theorem plain_substitute (values : Values) (m : Markup) :
    (Filling.mk .substitute values).plain m = .ofList (m.fill values.plain?) := rfl

theorem markup_substitute (values : Values) (m : Markup) :
    (Filling.mk .substitute values).markup m = .ofList (m.fill values.markup?) := by
  have hvalue : (Filling.mk .substitute values).markupValue? = values.markup? := by
    funext n
    exact Option.map_map _ _ _
  rw [markup, hvalue]

end Filling

namespace Template

open Markup

theorem subject_emailOf (t : Template) (options : RenderOptions) (v w : Values) (ms : List Markup) :
    (t.emailOf v { options with mode := .substitute } ms).subject =
      ((t.emailOf w { options with mode := .preserve } ms).filledWith v).1 := by
  change (Filling.mk .substitute v).plain (authored t.subject) =
    .ofList (Token.replace v.plain? ((Filling.mk .preserve w).plain (authored t.subject)).toList)
  rw [Filling.plain_substitute, Filling.plain_preserve, String.toList_ofList,
    (legible_authored t.subject).replace_text]

theorem html_emailOf {t : Template} {options : RenderOptions} {ms : List Markup}
    (h : (options.envelope.wrap (t.parts options ms.flatten)).Legible) (v w : Values) :
    (t.emailOf v { options with mode := .substitute } ms).html =
      ((t.emailOf w { options with mode := .preserve } ms).filledWith v).2 := by
  change (Filling.mk .substitute v).markup (options.envelope.wrap (t.parts options ms.flatten)) =
    .ofList (Token.replace v.markup? ((Filling.mk .preserve w).markup
      (options.envelope.wrap (t.parts options ms.flatten))).toList)
  rw [Filling.markup_substitute, Filling.markup_preserve, String.toList_ofList, h.replace_text]

theorem drawn_emailOf_empty (t : Template) (options : RenderOptions) (w : Values)
    (ms : List Markup) :
    (t.emailOf .empty { options with mode := .substitute } ms).drawn =
      (t.emailOf w { options with mode := .preserve } ms).drawn := rfl

theorem render_substitute_eq_filled_preserve (t : Template) (options : RenderOptions)
    (hc : options.company.TokenFree) (v w : Values) :
    (t.render v { options with mode := .substitute }).map RenderedEmail.drawn =
        (t.render w { options with mode := .preserve }).map (RenderedEmail.filledWith v) ∧
      t.render w { options with mode := .preserve } =
        t.render v { options with mode := .preserve } ∧
      (t.render .empty { options with mode := .substitute }).map RenderedEmail.drawn =
        (t.render w { options with mode := .preserve }).map RenderedEmail.drawn := by
  cases hcheck : t.check with
  | error e => simp [render, renderIn, hcheck, bind, Except.bind, Except.map]
  | ok =>
    cases hf : t.fragments with
    | error e => simp [render, renderIn, hcheck, hf, bind, Except.bind, Except.map]
    | ok ms =>
      have hms := fragments_eq_ok.mp hf
      have hl := legible_wrap hc hms
      have hrender (values : Values) (o : RenderOptions) :
          t.render values o = .ok (t.emailOf values o ms) :=
        render_eq_ok.mpr ⟨check_eq_ok.mp hcheck, ms, hms, rfl⟩
      simp only [hrender, Except.map, Except.ok.injEq]
      refine ⟨?_, rfl, ?_⟩
      · exact Prod.ext (subject_emailOf t options v w ms) (html_emailOf hl v w)
      · exact drawn_emailOf_empty t options w ms

theorem render_welcome_substitute :
    Company.unnamed.TokenFree ∧
      (SystemTemplate.welcome.starter.render (.ofList [("customer_name", "Ada <3")])
          (.ofMode .substitute)).map RenderedEmail.drawn =
        (SystemTemplate.welcome.starter.render .empty (.ofMode .preserve)).map
          (RenderedEmail.filledWith (.ofList [("customer_name", "Ada <3")])) :=
  ⟨Company.tokenFree_unnamed,
    (render_substitute_eq_filled_preserve SystemTemplate.welcome.starter
      (.ofMode .substitute) Company.tokenFree_unnamed _ .empty).1⟩

end Template

end EmailTemplates
