import EmailTemplates.Proofs.Markup.Unresolved
import EmailTemplates.Proofs.Source.Importable

namespace EmailTemplates

namespace Source

open Text (Slice isNameChar)
open Line (written)

def headLines (t : Template) : List Line :=
  commentLines t.slug ++ (constantBlock (openingPairs t) ++
    (interfaceLines (nameChars t) (allDeclarations t) ++ (constantBlock (subjectPairs t) ++
      (headerLines t.header ++ constantBlock (footerPairs t)))))

def tailText (t : Template) (ms : List Markup) : List Char :=
  contentHead (nameChars t) ('\n' :: ((contentText t.colorScheme (t.blocks.zip ms)).toList ++
    '`' :: [';', '\n', '\x7d', '\n']))

theorem toList_moduleText_lines (t : Template) (ms : List Markup) :
    (t.moduleText ms).toList = written (headLines t) ++ tailText t ms := by
  rw [toList_moduleText]
  simp only [headLines, tailText, Line.written_append, List.append_assoc]

def pairs (t : Template) : List (String × String) :=
  openingPairs t ++ (subjectPairs t ++ footerPairs t)

theorem filterMap_constantBlock (ps : List (String × String)) :
    (constantBlock ps).filterMap Line.pair? = ps := by
  have hsome : (Line.pair? ∘ fun p : String × String => Line.constant p.1 p.2) = some := rfl
  have hend : [Line.loose []].filterMap Line.pair? = [] := rfl
  rw [constantBlock, List.filterMap_cons_none rfl, List.filterMap_append, hend, List.append_nil,
    constantLines, List.filterMap_map, hsome, List.filterMap_some]

theorem filterMap_interfaceLines (name : List Char) (vs : List VariableDeclaration) :
    (interfaceLines name vs).filterMap Line.pair? = [] := by
  rw [List.filterMap_eq_nil_iff]
  unfold interfaceLines
  split
  · exact List.forall_mem_singleton.mpr rfl
  · rw [List.cons_append, List.forall_mem_cons, List.forall_mem_append, List.forall_mem_map]
    exact ⟨rfl, fun _ _ => rfl, List.forall_mem_singleton.mpr rfl⟩

theorem filterMap_headerLines (h : Header) : (headerLines h).filterMap Line.pair? = [] := by
  rw [List.filterMap_eq_nil_iff, headerLines, List.cons_append, List.forall_mem_cons,
    List.forall_mem_append, List.forall_mem_map]
  exact ⟨rfl, fun _ _ => rfl, List.forall_mem_singleton.mpr rfl⟩

theorem filterMap_headLines (t : Template) : (headLines t).filterMap Line.pair? = pairs t := by
  have hcomment : (commentLines t.slug).filterMap Line.pair? = [] := rfl
  simp only [headLines, List.filterMap_append, hcomment, filterMap_constantBlock,
    filterMap_interfaceLines, filterMap_headerLines, List.nil_append]
  rfl

theorem lookup_optionalPair (name key : String) (value : Option String) :
    (optionalPair name value).lookup key = if key = name then value else none := by
  have h := lookup_optionalPair_append name key value []
  simpa using h

theorem lookup_pairs (t : Template) :
    (pairs t).lookup "slug" = some t.slug ∧ (pairs t).lookup "name" = some t.name ∧
      (pairs t).lookup "description" = t.description ∧ (pairs t).lookup "context" = t.context ∧
      (pairs t).lookup "colorScheme" = some t.colorScheme.id ∧
      (pairs t).lookup "subject" = some t.subject ∧ (pairs t).lookup "preheader" = t.preheader ∧
      (pairs t).lookup "footer" = some t.footer.kind.id ∧
      (pairs t).lookup "footerNote" = t.footer.note := by
  and_intros <;> simp [pairs, openingPairs, subjectPairs, footerPairs, List.lookup_cons,
    lookup_optionalPair_append, lookup_optionalPair]

section

variable {xs : List Scalar} {s : String}

theorem slug_of_find (h : (Scalar.find? xs "slug").map Scalar.value = some s)
    (hs : Template.isValidSlug s = true) : slug xs = .ok s := by
  obtain ⟨x, hx, rfl⟩ := Option.map_eq_some_iff.mp h
  rw [slug, hx]
  simp only [hs, if_true]

theorem subject_of_find (h : (Scalar.find? xs "subject").map Scalar.value = some s)
    (hs : Text.isBlankText s = false) : subject xs = .ok s := by
  obtain ⟨x, hx, rfl⟩ := Option.map_eq_some_iff.mp h
  rw [subject, hx]
  simp only [hs, Bool.false_eq_true, if_false]

theorem name_of_find (h : (Scalar.find? xs "name").map Scalar.value = some s)
    (hs : Text.isBlankText s = false) (slug : Option String) : name xs slug = (s, []) := by
  obtain ⟨x, hx, rfl⟩ := Option.map_eq_some_iff.mp h
  rw [name, hx]
  simp [nonblank?, hs]

theorem colorScheme_of_find {scheme : ColorScheme}
    (h : (Scalar.find? xs "colorScheme").map Scalar.value = some scheme.id) :
    colorScheme xs = .ok (scheme, []) := by
  obtain ⟨x, hx, hid⟩ := Option.map_eq_some_iff.mp h
  have hscheme : ColorScheme.ofId x.value = .ok scheme := by
    rw [hid, ColorScheme.ofId, ColorScheme.ofId?_id]
    rfl
  rw [colorScheme, hx]
  simp only [hscheme]

theorem footerKind_of_find {kind : FooterKind}
    (h : (Scalar.find? xs "footer").map Scalar.value = some kind.id) :
    footerKind xs = (kind, []) := by
  obtain ⟨x, hx, hid⟩ := Option.map_eq_some_iff.mp h
  have hkind : FooterKind.ofId? x.value = some kind := by rw [hid, FooterKind.ofId?_id]
  rw [footerKind, hx]
  simp only [hkind]

end

theorem bind_nonblank? {value : Option String} (h : ∀ s ∈ value, Text.isBlankText s = false) :
    value.bind nonblank? = value := by
  cases value with
  | none => rfl
  | some s => simp [nonblank?, h s rfl]

def pruned (t : Template) : Template :=
  { t with preheader := t.preheader.bind nonblank?, header := prunedHeader t.header }

theorem pruned_eq {t : Template} (hp : ∀ s ∈ t.preheader, Text.isBlankText s = false)
    (he : t.header.emoji ≠ some "") (hs : t.header.subtitle ≠ some "") : pruned t = t := by
  rw [pruned, bind_nonblank? hp, prunedHeader_eq he hs]

theorem isValidName_of_validateDeclarations {ds : List VariableDeclaration}
    (h : Template.validateDeclarations ds = .ok ()) :
    ∀ d ∈ ds, Variable.isValidName d.name = true := by
  induction ds with
  | nil => simp
  | cons d ds ih =>
    unfold Template.validateDeclarations at h
    split at h
    · rename_i hd
      exact List.forall_mem_cons.mpr ⟨hd, ih h⟩
    · cases h

def interfaceHead (t : Template) : List Line :=
  commentLines t.slug ++ constantBlock (openingPairs t)

def headerHead (t : Template) : List Line :=
  interfaceHead t ++
    (interfaceLines (nameChars t) (allDeclarations t) ++ constantBlock (subjectPairs t))

theorem nameChars_ne_nil {t : Template} (h : Template.isValidSlug t.slug = true) :
    nameChars t ≠ [] := by
  obtain ⟨c, hc, -⟩ := isUpper_head_interfaceName h
  intro hnil
  rw [nameChars] at hnil
  rw [hnil] at hc
  cases hc

variable {t : Template}

theorem isValidName_allDeclarations (hv : t.validate = .ok ()) :
    ∀ d ∈ allDeclarations t, Variable.isValidName d.name = true := by
  obtain ⟨-, -, -, -, -, hd⟩ := Template.validate_eq_ok.mp hv
  rw [allDeclarations, List.forall_mem_append, List.forall_mem_map]
  refine ⟨isValidName_of_validateDeclarations hd, fun name hname => ?_⟩
  exact Template.isValidName_of_mem_variableNames (List.mem_filter.mp hname).1

section

variable {words : List String} (hwords : words ∈ phrases)
include hwords

theorem isFair_interface (hne : words ≠ ["export", "interface"]) (hv : t.validate = .ok ()) :
    ∀ l ∈ interfaceLines (nameChars t) (allDeclarations t), l.IsFair words :=
  isFair_interfaceLines hwords hne (Template.validate_eq_ok.mp hv).1 fun v hmem =>
    isNameChar_of_isValidName (isValidName_allDeclarations hv v hmem)

variable (hf : ∀ s ∈ t.headStrings, Absent words s.toList)
include hf

theorem isFair_subject : ∀ l ∈ constantBlock (subjectPairs t), l.IsFair words := by
  refine isFair_constantBlock hwords ?_
  simp only [subjectPairs, List.forall_mem_cons, forall_mem_optionalPair]
  refine ⟨⟨by decide, hf _ ?_⟩, fun s hs => ⟨by decide, hf _ ?_⟩⟩
  all_goals simp_all [Template.headStrings]

theorem isFair_footer : ∀ l ∈ constantBlock (footerPairs t), l.IsFair words := by
  have hkind : Free t.footer.kind.id.toList := by cases t.footer.kind <;> decide
  refine isFair_constantBlock hwords ?_
  simp only [footerPairs, List.forall_mem_cons, forall_mem_optionalPair]
  refine ⟨⟨by decide, hkind.absent hwords⟩, fun s hs => ⟨by decide, hf _ ?_⟩⟩
  simp_all [Template.headStrings]

theorem isFair_header (hne : words ≠ ["export", "const", "header"]) :
    ∀ l ∈ headerLines t.header, l.IsFair words := by
  refine isFair_headerLines hwords hne ?_
  rw [forall_mem_headerFields]
  refine ⟨fun s hs => hf _ ?_, hf _ ?_, fun s hs => hf _ ?_⟩
  all_goals simp_all [Template.headStrings]

variable (hv : t.validate = .ok ())
include hv

theorem isFair_interfaceHead : ∀ l ∈ interfaceHead t, l.IsFair words := by
  obtain ⟨hslug, -⟩ := Template.validate_eq_ok.mp hv
  have hscheme : Free t.colorScheme.id.toList := by cases t.colorScheme <;> decide
  have hslugWord : Absent words t.slug.toList := absent_slug hwords hslug
  rw [interfaceHead, List.forall_mem_append]
  refine ⟨isFair_commentLines hwords hslug, isFair_constantBlock hwords ?_⟩
  simp only [openingPairs, List.forall_mem_cons, List.forall_mem_append, forall_mem_optionalPair,
    List.not_mem_nil, IsEmpty.forall_iff, implies_true, and_true]
  refine ⟨⟨by decide, hslugWord⟩, ⟨by decide, hf _ ?_⟩, fun s hs => ⟨by decide, hf _ ?_⟩,
    fun s hs => ⟨by decide, hf _ ?_⟩, by decide, hscheme.absent hwords⟩
  all_goals simp_all [Template.headStrings]

theorem isFair_headerHead (hne : words ≠ ["export", "interface"]) :
    ∀ l ∈ headerHead t, l.IsFair words := by
  simp only [headerHead, List.forall_mem_append]
  exact ⟨isFair_interfaceHead hwords hf hv, isFair_interface hwords hne hv, isFair_subject hwords hf⟩

theorem isFair_headLines (hi : words ≠ ["export", "interface"])
    (hh : words ≠ ["export", "const", "header"]) : ∀ l ∈ headLines t, l.IsFair words := by
  have hhead := isFair_headerHead hwords hf hv hi
  simp only [headerHead, interfaceHead, List.forall_mem_append] at hhead
  simp only [headLines, List.forall_mem_append]
  exact ⟨hhead.1.1, hhead.1.2, hhead.2.1, hhead.2.2, isFair_header hwords hf hh,
    isFair_footer hwords hf⟩

end

section

variable (hf : ∀ words ∈ contentPhrases, ∀ s ∈ t.headStrings, Absent words s.toList)
  (hv : t.validate = .ok ())
include hf hv

theorem isFair_contentHead : ∀ words ∈ contentPhrases, ∀ l ∈ headLines t, l.IsFair words := by
  have hne : ∀ words ∈ contentPhrases, words ∈ phrases ∧ words ≠ ["export", "interface"] ∧
      words ≠ ["export", "const", "header"] := by
    decide
  intro words hwords
  obtain ⟨hmem, hi, hh⟩ := hne words hwords
  exact isFair_headLines hmem (hf words hwords) hv hi hh

theorem contentBody_moduleText {ms : List Markup} (hms : t.Fragments ms) :
    ∃ n, contentBody (Slice.ofString (t.moduleText ms)) =
      .ok ⟨n, '\n' :: (contentText t.colorScheme (t.blocks.zip ms)).toList⟩ := by
  obtain ⟨hslug, -⟩ := Template.validate_eq_ok.mp hv
  have hlines : ∀ p ∈ t.blocks.zip ms, InLines p.2 := by
    rintro ⟨b, m⟩ hp
    exact inLines_of_draws ((List.forall₂_iff_zip.mp hms).2 hp)
  have hlength : Literal.bodyLength ('\n' :: (contentText t.colorScheme (t.blocks.zip ms)).toList ++
      '`' :: [';', '\n', '\x7d', '\n']) =
        some ('\n' :: (contentText t.colorScheme (t.blocks.zip ms)).toList).length := by
    rw [List.cons_append, bodyLength_newline, bodyLength_contentText hlines]
    rfl
  rw [Slice.ofString, toList_moduleText_lines]
  exact contentBody_written (isFair_contentHead hf hv) (isNameChar_interfaceName hslug) hlength 0

theorem colorScheme_moduleText (ms : List Markup) :
    colorScheme (scalars (Slice.ofString (t.moduleText ms))) = .ok (t.colorScheme, []) := by
  obtain ⟨-, -, -, -, hscheme, -⟩ := lookup_pairs t
  obtain ⟨m, hread⟩ := Line.scalarsFrom_written (isFair_contentHead hf hv _ List.mem_cons_self) 0
    (tailText t ms)
  rw [filterMap_headLines] at hread
  refine colorScheme_of_find ?_
  rw [Slice.ofString, toList_moduleText_lines, find?_pair]
  refine (congrArg (List.lookup "colorScheme") hread).trans ?_
  rw [List.lookup_append, hscheme]
  rfl

theorem content_of_moduleText {ms : List Markup} (hms : t.Fragments ms) :
    ∃ n, content t.colorScheme (Slice.ofString (t.moduleText ms)) =
      ((readSegments t.colorScheme (segments ⟨n, '\n' ::
        (contentText t.colorScheme (t.blocks.zip ms)).toList⟩)).blocks,
      (readSegments t.colorScheme (segments ⟨n, '\n' ::
        (contentText t.colorScheme (t.blocks.zip ms)).toList⟩)).warnings) := by
  obtain ⟨n, hbody⟩ := contentBody_moduleText hf hv hms
  exact ⟨n, content_of_body hbody t.colorScheme⟩

end

section

variable (hf : ∀ s ∈ t.texts, Free s.toList)
include hf

theorem absent_headStrings : ∀ words ∈ phrases, ∀ s ∈ t.headStrings, Absent words s.toList :=
  fun _ hwords s hs => (hf s (List.mem_append_left _ hs)).absent hwords

theorem absent_contentPhrases :
    ∀ words ∈ contentPhrases, ∀ s ∈ t.headStrings, Absent words s.toList :=
  fun words hwords => absent_headStrings hf words (by simp [phrases, hwords])

theorem calm_fragments {ms : List Markup} (hms : t.Fragments ms) :
    ∀ p ∈ t.blocks.zip ms, Calm p.2.text := by
  rintro ⟨b, m⟩ hp
  have hb : b ∈ t.blocks := (List.of_mem_zip hp).1
  refine calm_of_draws ((List.forall₂_iff_zip.mp hms).2 hp) fun s hs => (hf s ?_).unexported
  exact List.mem_append_right _ (List.mem_flatMap.mpr ⟨b, hb, hs⟩)

variable (hv : t.validate = .ok ())
include hv

theorem header_moduleText (ms : List Markup) :
    header (Slice.ofString (t.moduleText ms)) = .ok (prunedHeader t.header) := by
  obtain ⟨-, -, -, htitle, -⟩ := Template.validate_eq_ok.mp hv
  have hread := header_written (isFair_headerHead (by decide)
    (absent_headStrings hf _ (by decide)) hv (by decide)) htitle 0
    (written (constantBlock (footerPairs t)) ++ tailText t ms)
  rw [Slice.ofString, toList_moduleText_lines]
  simpa only [headLines, headerHead, interfaceHead, Line.written_append, List.append_assoc]
    using hread

theorem interface_moduleText (hd : ((allDeclarations t).map (·.name)).Nodup) (ms : List Markup) :
    interface (Slice.ofString (t.moduleText ms)) =
      (some ((allDeclarations t).filter fun d => !beginsWithDigit d.name), []) := by
  obtain ⟨hslug, -⟩ := Template.validate_eq_ok.mp hv
  have hread := interface_written (isFair_interfaceHead (by decide)
    (absent_headStrings hf _ (by decide)) hv) (nameChars_ne_nil hslug)
    (isNameChar_interfaceName hslug) (isValidName_allDeclarations hv) hd 0
    (written (constantBlock (subjectPairs t)) ++ (written (headerLines t.header) ++
      (written (constantBlock (footerPairs t)) ++ tailText t ms)))
  rw [Slice.ofString, toList_moduleText_lines, headLines]
  simpa only [interfaceHead, Line.written_append, List.append_assoc] using hread

theorem scalars_moduleText {ms : List Markup} (hms : t.Fragments ms) :
    (scalars (Slice.ofString (t.moduleText ms))).map Scalar.pair = pairs t := by
  obtain ⟨hslug, -⟩ := Template.validate_eq_ok.mp hv
  have hread := scalars_written
    (isFair_contentHead (absent_contentPhrases hf) hv _ List.mem_cons_self) (isNameChar_interfaceName hslug)
    (@calm_contentText t.colorScheme _ (calm_fragments hf hms))
  rw [filterMap_headLines] at hread
  rw [Slice.ofString, toList_moduleText_lines]
  exact hread

theorem find?_moduleText {ms : List Markup} (hms : t.Fragments ms) (name : String) :
    (Scalar.find? (scalars (Slice.ofString (t.moduleText ms))) name).map Scalar.value =
      (pairs t).lookup name := by
  rw [find?_pair, scalars_moduleText hf hv hms]

theorem lenient_moduleText {ms : List Markup} (hms : t.Fragments ms) (slug : Option String) :
    lenient (Slice.ofString (t.moduleText ms)) (scalars (Slice.ofString (t.moduleText ms))) slug
      (some (t.colorScheme, [])) =
        ⟨t.name, t.description, t.preheader.bind nonblank?, t.footer, t.context,
          (content t.colorScheme (Slice.ofString (t.moduleText ms))).1,
          (interface (Slice.ofString (t.moduleText ms))).1,
          (interface (Slice.ofString (t.moduleText ms))).2 ++
            (content t.colorScheme (Slice.ofString (t.moduleText ms))).2⟩ := by
  obtain ⟨-, hblank, -⟩ := Template.validate_eq_ok.mp hv
  obtain ⟨-, hname, hdescription, hcontext, -, -, hpreheader, hfooter, hnote⟩ := lookup_pairs t
  have hfind := find?_moduleText hf hv hms
  have hnamed := name_of_find ((hfind "name").trans hname) hblank slug
  have hkind := footerKind_of_find ((hfind "footer").trans hfooter)
  simp only [lenient, hnamed, hkind, Option.map_some, Option.getD_some, hfind, hdescription,
    hcontext, hpreheader, hnote, List.append_nil, List.nil_append]

theorem ofSource_moduleText_pruned {ms : List Markup} (hms : t.Fragments ms) :
    Import.ofSource (t.moduleText ms) =
      Import.declaring (interface (Slice.ofString (t.moduleText ms))).1
        ((interface (Slice.ofString (t.moduleText ms))).2 ++
          (content t.colorScheme (Slice.ofString (t.moduleText ms))).2)
        { pruned t with
          blocks := (content t.colorScheme (Slice.ofString (t.moduleText ms))).1
          declarations := [] } := by
  obtain ⟨hslug, -, hsubject, -⟩ := Template.validate_eq_ok.mp hv
  obtain ⟨hslugPair, -, -, -, hscheme, hsubjectPair, -⟩ := lookup_pairs t
  have hfind := find?_moduleText hf hv hms
  have hreadSlug := slug_of_find ((hfind "slug").trans hslugPair) hslug
  have hreadSubject := subject_of_find ((hfind "subject").trans hsubjectPair) hsubject
  have hreadScheme := colorScheme_of_find ((hfind "colorScheme").trans hscheme)
  have hrest := lenient_moduleText hf hv hms (some t.slug)
  unfold Import.ofSource
  simp only [hreadSlug, hreadSubject, hreadScheme, header_moduleText hf hv, Except.toOption,
    hrest, Lenient.template, pruned]

theorem ofSource_moduleText (hp : ∀ s ∈ t.preheader, Text.isBlankText s = false)
    (he : t.header.emoji ≠ some "") (hs : t.header.subtitle ≠ some "") {ms : List Markup}
    (hms : t.Fragments ms) :
    Import.ofSource (t.moduleText ms) =
      Import.declaring (interface (Slice.ofString (t.moduleText ms))).1
        ((interface (Slice.ofString (t.moduleText ms))).2 ++
          (content t.colorScheme (Slice.ofString (t.moduleText ms))).2)
        { t with
          blocks := (content t.colorScheme (Slice.ofString (t.moduleText ms))).1
          declarations := [] } := by
  rw [ofSource_moduleText_pruned hf hv hms, pruned_eq hp he hs]

end

end Source

end EmailTemplates
