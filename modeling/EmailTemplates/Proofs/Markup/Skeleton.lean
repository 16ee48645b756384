import EmailTemplates.Proofs.Markup.Settled
import EmailTemplates.Proofs.Markup.Unresolved

namespace EmailTemplates

namespace Text

def skeleton (cs : List Char) : List Char :=
  cs.filter isDelimiter

theorem skeleton_append (cs ds : List Char) : skeleton (cs ++ ds) = skeleton cs ++ skeleton ds :=
  List.filter_append cs ds

theorem skeleton_eq_nil {cs : List Char} : skeleton cs = [] ↔ ∀ c ∈ cs, isDelimiter c = false := by
  simp [skeleton]

theorem skeleton_escape (cs : List Char) : skeleton (escape cs) = [] :=
  skeleton_eq_nil.mpr fun _ => isDelimiter_of_mem_escape

end Text

theorem Token.skeleton_chars {name : List Char} (h : isName name = true) :
    Text.skeleton (chars name) = [] := by
  rw [← Text.escape_chars h]
  exact Text.skeleton_escape _

namespace Markup

theorem skeleton_fill {value? : List Char → Option (List Char)}
    (hvalue : ∀ name value, value? name = some value → Text.skeleton value = []) {m : Markup}
    (h : ∀ n ∈ m.names, Variable.isValidName n = true) :
    Text.skeleton (m.fill value?) = Text.skeleton m.text := by
  induction m with
  | nil => rfl
  | cons p m ih =>
    cases p with
    | char c =>
      have hrest := ih h
      rw [fill, text_char, Text.skeleton, Text.skeleton, List.filter_cons, List.filter_cons]
      rw [Text.skeleton, Text.skeleton] at hrest
      rw [hrest]
    | reference name =>
      have hname : Token.isName name = true := by
        have hvalid := h (.ofList name) List.mem_cons_self
        rwa [Variable.isValidName, String.toList_ofList] at hvalid
      have htoken := Token.skeleton_chars hname
      rw [fill, text_reference, Text.skeleton_append, Text.skeleton_append, htoken,
        ih fun n hn => h n (List.mem_cons_of_mem _ hn)]
      cases hv : value? name with
      | none => rw [Option.getD_none, htoken]
      | some value => rw [Option.getD_some, hvalue name value hv]

theorem fill_escaped (value? : List Char → Option (List Char)) (s : String) :
    (escaped s).fill (fun name => (value? name).map Text.escape) =
      Text.escape ((authored s).fill value?) := by
  rw [escaped, authored]
  induction s.toList using Token.text_induction with
  | nil => simp [fill]
  | token name rest h ih =>
    rw [Token.pieces_chars h, List.flatMap_cons, fill_append, ih, fill, Text.escape_append]
    congr 1
    cases hv : value? name with
    | none => simp [escapePiece, fill, hv, Text.escape_chars h]
    | some value => simp [escapePiece, fill, hv]
  | char c cs h ih =>
    have hc : (escapePiece (.char c)).fill (fun name => (value? name).map Text.escape) =
        Text.escapeChar c := by
      have hfixed := fill_fixed (fun name => (value? name).map Text.escape)
        (.ofList (Text.escapeChar c))
      rwa [fixed, String.toList_ofList] at hfixed
    rw [Token.pieces_cons h, List.flatMap_cons, fill_append, ih, fill, Text.escape_cons, hc]

end Markup

namespace Filling

theorem skeleton_markup (f : Filling) {m : Markup}
    (h : ∀ n ∈ m.names, Variable.isValidName n = true) :
    Text.skeleton (f.markup m).toList = Text.skeleton m.text := by
  rw [markup, String.toList_ofList]
  refine Markup.skeleton_fill (fun name value hv => ?_) h
  obtain ⟨plain, -, rfl⟩ := Option.map_eq_some_iff.mp hv
  exact Text.skeleton_escape plain

theorem markup_escaped (f : Filling) (s : String) :
    f.markup (.escaped s) = Text.escaped (f.plain (.authored s)) := by
  rw [← String.toList_inj, Text.toList_escaped, markup, plain, String.toList_ofList,
    String.toList_ofList]
  exact Markup.fill_escaped f.plainValue? s

end Filling

namespace Envelope

open Markup

theorem infix_container (tag : String) (attributes : List Attribute) (lines : Markup) :
    lines <:+: container tag attributes lines :=
  ⟨_, _, rfl⟩

theorem title_infix_document (p : Parts) : element "title" [] p.subject <:+: document p := by
  have hhead : element "title" [] p.subject <:+: head p :=
    ((List.prefix_append _ _).isInfix.trans (List.suffix_append _ _).isInfix).trans
      (infix_container "head" [] _)
  unfold document
  refine List.IsInfix.trans ?_ (List.suffix_append _ _).isInfix
  refine List.IsInfix.trans ?_ (infix_container "html" _ _)
  exact hhead.trans (List.prefix_append _ _).isInfix

end Envelope

namespace RenderedEmail

def skeleton (e : RenderedEmail) : List Char :=
  Text.skeleton e.html.toList

end RenderedEmail

namespace Template

variable {t : Template} {options : RenderOptions}

theorem isValidName_of_mem_wrap {ms : List Markup} (h : t.Fragments ms) {n : String}
    (hn : n ∈ (options.envelope.wrap (t.parts options ms.flatten)).names) :
    Variable.isValidName n = true :=
  isValidName_of_references ((mem_names_filledParts h options n).mp (Envelope.mem_names_of_wrap hn))

theorem skeleton_emailOf {ms : List Markup} (h : t.Fragments ms) (values : Values) :
    (t.emailOf values options ms).skeleton =
      Text.skeleton (options.envelope.wrap (t.parts options ms.flatten)).text :=
  Filling.skeleton_markup _ fun _ => isValidName_of_mem_wrap h

theorem title_infix_emailOf (values : Values) (ms : List Markup)
    (hfull : options.envelope = .full) :
    ("<title>" ++ Text.escaped (t.emailOf values options ms).subject ++ "</title>").toList <:+:
      (t.emailOf values options ms).html.toList := by
  obtain ⟨a, b, hab⟩ := Envelope.title_infix_document (t.parts options ms.flatten)
  have hhtml : (t.emailOf values options ms).html = (Filling.mk options.mode values).markup
      (Envelope.document (t.parts options ms.flatten)) := by
    rw [emailOf, hfull]
    rfl
  have htitle : ("<title>" ++ Text.escaped (t.emailOf values options ms).subject ++
      "</title>").toList = (Markup.element "title" [] (.escaped t.subject)).fill
        (Filling.mk options.mode values).markupValue? := by
    rw [emailOf, ← Filling.markup_escaped, Markup.element, Markup.opening, Markup.closing]
    simp [Filling.markup]
  refine ⟨Markup.fill (Filling.mk options.mode values).markupValue? a,
    Markup.fill (Filling.mk options.mode values).markupValue? b, ?_⟩
  rw [htitle, hhtml, ← hab, Filling.markup, String.toList_ofList, Markup.fill_append,
    Markup.fill_append]
  rfl

theorem skeleton_of_render {v : Values} {e : RenderedEmail}
    (h : t.render v { options with mode := .substitute } = .ok e) :
    (∀ w mode, ∃ e', t.render w { options with mode } = .ok e' ∧ e'.skeleton = e.skeleton) ∧
      (options.envelope = .full →
        ("<title>" ++ Text.escaped e.subject ++ "</title>").toList <:+: e.html.toList) := by
  obtain ⟨hv, ms, hms, rfl⟩ := render_eq_ok.mp h
  have hskeleton (values : Values) (mode : RenderMode) :
      (t.emailOf values { options with mode } ms).skeleton =
        Text.skeleton (options.envelope.wrap (t.parts options ms.flatten)).text :=
    @skeleton_emailOf t { options with mode } ms hms values
  refine ⟨fun w mode => ⟨_, render_eq_ok.mpr ⟨hv, ms, hms, rfl⟩, ?_⟩, ?_⟩
  · rw [hskeleton, hskeleton]
  · exact @title_infix_emailOf t { options with mode := .substitute } v ms

theorem skeleton_of_welcome : ∃ e e',
    SystemTemplate.welcome.starter.render (.ofList [("customer_name", "\"><script>")])
        (.ofMode .substitute) = .ok e ∧
      SystemTemplate.welcome.starter.render (.ofList [("customer_name", "Ada")])
        (.ofMode .substitute) = .ok e' ∧ e'.skeleton = e.skeleton := by
  have h := SystemTemplate.render_starter SystemTemplate.welcome_mem_all
    (.ofList [("customer_name", "\"><script>")]) (.ofMode .substitute)
  obtain ⟨e', he', hskeleton⟩ := (@skeleton_of_render SystemTemplate.welcome.starter
    (.ofMode .substitute) _ _ h).1 (.ofList [("customer_name", "Ada")]) .substitute
  exact ⟨_, e', h, he', hskeleton⟩

end Template

end EmailTemplates
