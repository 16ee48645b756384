import EmailTemplates.Proofs.Source.RoundTrip
import EmailTemplates.Proofs.Source.Table

namespace EmailTemplates

open Source
open Text (trim isBlank)

def BlockKind.isTabular (kind : BlockKind) : Bool :=
  kind = .infoBox || kind = .stepList || kind = .code

namespace Block

namespace Content

/-- Drawn as a table of plain texts that is no button. -/
def Tabular : Content → Prop
  | content@(infoBox ..) | content@(stepList ..) | content@(code ..) =>
    ∀ s ∈ content.strings, '<' ∉ s.toList
  | _ => False

theorem Tabular.tabled {content : Content} (h : content.Tabular) : content.Tabled ('<' ∉ ·) := by
  refine tabled_of_strings ?_
  cases content with
  | infoBox | stepList | code => exact h
  | _ => exact h.elim

def ofTitle? (title : String) : Option Content :=
  match Shape.greeting? (trim title.toList) with
  | some name => some (.greeting (Variable.token (.ofList name)))
  | none => if Text.isBlankText title then none else some (.paragraph (Text.trimmed title))

end Content

def remains (b : Block) : Option Block :=
  match b.content with
  | .infoBox .. | .code .. => none
  | .stepList title _ => (title.bind Content.ofTitle?).map fun content => ⟨b.id, content⟩
  | _ => some b

def unread (b : Block) : List String :=
  match b.content with
  | .infoBox .. | .code .. => ["table"]
  | .stepList title _ =>
    (if title.any fun s => (Content.ofTitle? s).isNone then ["p"] else []) ++ ["table"]
  | _ => []

end Block

namespace Source

open Markup (text line element authored)
open Shape

variable {scheme : ColorScheme} {b : Block}

theorem content?_title {title : String} (h : '<' ∉ title.toList) :
    Stretch.content? scheme ("p", element "p" [.style Fragment.stepListTitle] (authored title)) =
      Block.Content.ofTitle? title := by
  have hlink : link? scheme (trim title.toList) = none :=
    link?_eq_none (onlyInline_of_not_mem fun hmem => h (Text.mem_of_mem_trim hmem)) scheme
  refine (paragraph?_authored (isOpening_style isTag_p Fragment.plain_stepListTitle).writable).trans
    ?_
  rw [hlink]
  rfl

theorem leaves_table {core : Markup} (hn : Marker.canName b.id = true) (hs : Stands core "table")
    (hr : recognize scheme "table" (text core) = none) : Leaves scheme (b, line core) none ["table"] := by
  have hread : Stretch.content? scheme ("table", core) = none := hr
  refine ⟨hn, ⟨b, ("table", core), []⟩, ?_, List.forall_mem_singleton.mpr hs, by simp, ?_, ?_⟩
  · exact congrArg (Prod.mk b) (List.flatMap_singleton ..)
  · rw [Stretch.left, hread, Option.map_none]
  · rw [Stretch.unread, Stretch.elements, List.filter_singleton, hread]
    rfl

theorem leaves_titled {title core : Markup} (hn : Marker.canName b.id = true)
    (hp : Stands title "p") (hs : Stands core "table")
    (hr : recognize scheme "table" (text core) = none) :
    Leaves scheme (b, line title ++ line core)
      ((Stretch.content? scheme ("p", title)).map fun content =>
        ⟨b.id, Content.withMarkedScheme (markedScheme scheme b) content⟩)
      ((if (Stretch.content? scheme ("p", title)).isNone then ["p"] else []) ++ ["table"]) := by
  have hread : Stretch.content? scheme ("table", core) = none := hr
  have hlines : [("p", title), ("table", core)].flatMap (fun e => line e.2) =
      line title ++ line core := by
    simp
  refine ⟨hn, ⟨b, ("p", title), [("table", core)]⟩, congrArg (Prod.mk b) hlines, ?_,
    List.forall_mem_singleton.mpr hread, rfl, ?_⟩
  · exact List.forall_mem_cons.mpr ⟨hp, List.forall_mem_singleton.mpr hs⟩
  · rw [Stretch.unread, Stretch.elements, List.filter_cons, List.filter_singleton, hread]
    split <;> rfl

theorem IsTable.leaves {core : Markup} (h : IsTable ('<' ∉ ·) core)
    (hn : Marker.canName b.id = true) : Leaves scheme (b, line core) none ["table"] :=
  leaves_table hn (h.mono fun _ => contained_of_not_mem).stands
    ((h.mono fun _ => noAnchor_of_not_mem).recognize_eq_none scheme)

theorem leaves_of_tabular {id : String} {content : Block.Content} {m : Markup}
    (hn : Marker.canName id = true) (hd : Block.Draws scheme content m) (h : content.Tabular) :
    Leaves scheme (⟨id, content⟩, m) (Block.remains ⟨id, content⟩) (Block.unread ⟨id, content⟩) := by
  cases hd with
  | @infoBox title items own =>
    obtain ⟨core, hcore, htable⟩ := isTable_infoBox (own.getD scheme).plain_palette own h.tabled
    rw [hcore]
    exact htable.leaves hn
  | @code value label =>
    obtain ⟨core, hcore, htable⟩ := isTable_code scheme.plain_palette h.tabled
    rw [hcore]
    exact htable.leaves hn
  | @stepList title steps hne =>
    obtain ⟨core, hcore, htable, hr⟩ := isTable_stepList scheme.plain_palette hne (fun _ h => h)
      h.tabled
    have hstands := (htable.mono fun _ => contained_of_not_mem).stands
    rw [hcore]
    cases title with
    | none => exact leaves_table hn hstands (hr scheme)
    | some title =>
      have ht : '<' ∉ title.toList := h title List.mem_cons_self
      have hp : Stands (element "p" [.style Fragment.stepListTitle] (authored title)) "p" :=
        stands_authored isTag_p (by decide) Fragment.plain_stepListTitle (contained_of_not_mem ht)
      have hleaves := leaves_titled (b := ⟨id, .stepList (some title) steps⟩) hn hp hstands
        (hr scheme)
      have hleft : Block.remains ⟨id, .stepList (some title) steps⟩ =
          (Block.Content.ofTitle? title).map fun content =>
            ⟨id, Content.withMarkedScheme none content⟩ := by
        simp only [Content.withMarkedScheme_none]
        rfl
      rw [content?_title ht] at hleaves
      rw [Option.toList_some, List.map_singleton, List.flatMap_singleton, hleft]
      exact hleaves
  | _ => exact h.elim

end Source

namespace Block

variable {b b' : Block}

theorem remains_of_importable (h : b.content.Importable) :
    b.remains = some b ∧ b.unread = [] ∧ b.kind.isTabular = false := by
  obtain ⟨id, content⟩ := b
  cases content with
  | infoBox => exact h.elim
  | stepList => exact h.elim
  | code => exact h.elim
  | _ => exact ⟨rfl, rfl, rfl⟩

theorem remains_of_tabular (h : b.content.Tabular)
    (ht : ∀ title steps, b.content = .stepList title steps → title = none) :
    b.remains = none ∧ b.unread = ["table"] ∧ b.kind.isTabular = true := by
  obtain ⟨id, content⟩ := b
  cases content with
  | infoBox => exact ⟨rfl, rfl, rfl⟩
  | code => exact ⟨rfl, rfl, rfl⟩
  | stepList title steps =>
    cases ht title steps rfl
    exact ⟨rfl, rfl, rfl⟩
  | _ => exact h.elim

theorem id_of_remains (h : b.remains = some b') : b'.id = b.id := by
  unfold remains at h
  split at h
  · cases h
  · cases h
  · obtain ⟨content, -, rfl⟩ := Option.map_eq_some_iff.mp h
    rfl
  · cases h
    rfl

theorem occurrences_ofTitle? {title n : String} {content : Content}
    (h : Content.ofTitle? title = some content)
    (hn : n ∈ content.fields.flatMap Field.occurrences) : n ∈ Variable.occurrences title := by
  unfold Content.ofTitle? at h
  split at h
  · rename_i name hg
    cases h
    have hname := Shape.mem_names_of_greeting? hg
    have htoken := Variable.nameOf?_token (Shape.isValidName_of_greeting? hg)
    have hfield : (Field.variable "nameVariable" (Variable.token (.ofList name))).occurrences =
        [.ofList name] := by
      rw [Field.occurrences, htoken, Option.toList_some]
    rw [Content.fields, List.flatMap_singleton, hfield, List.mem_singleton] at hn
    rw [Token.names_trim] at hname
    exact hn ▸ List.mem_map_of_mem hname
  · split at h
    · cases h
    · cases h
      rwa [Content.fields, List.flatMap_singleton, Field.occurrences, Variable.occurrences,
        Text.trimmed, String.toList_ofList, Token.names_trim] at hn

theorem occurrences_remains {n : String} (h : b.remains = some b')
    (hn : n ∈ b'.fields.flatMap Field.occurrences) : n ∈ b.fields.flatMap Field.occurrences := by
  obtain ⟨id, content⟩ := b
  cases content with
  | infoBox => cases h
  | code => cases h
  | stepList title steps =>
    obtain ⟨content, hcontent, rfl⟩ := Option.map_eq_some_iff.mp h
    obtain ⟨s, rfl, htitle⟩ := Option.bind_eq_some_iff.mp hcontent
    exact List.mem_append_left _ (occurrences_ofTitle? htitle hn)
  | _ =>
    cases h
    exact hn

end Block

namespace Template

/-- The template with what is left of its blocks. -/
def remaining (t : Template) : Template :=
  { t with blocks := t.blocks.filterMap Block.remains }

variable {t : Template}

theorem ids_remaining (t : Template) :
    (t.remaining.blocks.map (·.id)).Sublist (t.blocks.map (·.id)) := by
  unfold remaining
  induction t.blocks with
  | nil => exact .slnil
  | cons b blocks ih =>
    cases hb : b.remains with
    | none =>
      rw [List.filterMap_cons_none hb]
      exact ih.cons _
    | some b' =>
      rw [List.filterMap_cons_some hb, List.map_cons, List.map_cons, Block.id_of_remains hb]
      exact ih.cons_cons _

theorem validate_remaining (hv : t.validate = .ok ()) : t.remaining.validate = .ok () := by
  obtain ⟨hslug, hname, hsubject, htitle, -, hd⟩ := validate_eq_ok.mp hv
  obtain ⟨hne, hnodup⟩ := hasDistinctIds_of_validate hv
  refine validate_eq_ok.mpr ⟨hslug, hname, hsubject, htitle, validateIds_eq_ok.mpr ⟨?_, ?_⟩, hd⟩
  · intro b' hb'
    obtain ⟨b, hb, hremains⟩ := List.mem_filterMap.mp hb'
    exact ⟨Block.id_of_remains hremains ▸ hne b hb, List.not_mem_nil⟩
  · exact hnodup.sublist t.ids_remaining

theorem declaresAll_remaining (h : t.DeclaresAll) : t.remaining.DeclaresAll := by
  refine ⟨fun n hn => h.1 n ?_, h.2⟩
  have hsub : n ∈ t.remaining.occurrences → n ∈ t.occurrences := by
    unfold occurrences
    simp only [List.mem_append]
    refine Or.imp_left (Or.imp_right fun hblocks => ?_)
    obtain ⟨b', hb', hn⟩ := List.mem_flatMap.mp hblocks
    obtain ⟨b, hb, hremains⟩ := List.mem_filterMap.mp hb'
    exact List.mem_flatMap.mpr ⟨b, hb, Block.occurrences_remains hremains hn⟩
  rw [variableNames, Variable.mem_addNew] at hn ⊢
  exact hn.imp_right hsub

theorem remaining_of_untitled (hb : ∀ b ∈ t.blocks, b.content.Importable ∨ b.content.Tabular)
    (ht : ∀ b ∈ t.blocks, ∀ title steps, b.content = .stepList title steps → title = none) :
    t.remaining.blocks = t.blocks.filter (!·.kind.isTabular) ∧
      t.blocks.flatMap Block.unread =
        (t.blocks.filter (·.kind.isTabular)).map fun _ => "table" := by
  unfold remaining
  generalize t.blocks = blocks at hb ht ⊢
  dsimp only
  induction blocks with
  | nil => exact ⟨rfl, rfl⟩
  | cons b blocks ih =>
    obtain ⟨hb, hblocks⟩ := List.forall_mem_cons.mp hb
    obtain ⟨ht, htitles⟩ := List.forall_mem_cons.mp ht
    obtain ⟨hremains, hunread⟩ := ih hblocks htitles
    rcases hb with hi | htab
    · obtain ⟨hb, hu, hk⟩ := Block.remains_of_importable hi
      rw [List.filterMap_cons_some hb, List.flatMap_cons, hu, List.filter_cons_of_pos (by simp [hk]),
        List.filter_cons_of_neg (by simp [hk]), hremains, hunread]
      exact ⟨rfl, rfl⟩
    · obtain ⟨hb, hu, hk⟩ := Block.remains_of_tabular htab ht
      rw [List.filterMap_cons_none hb, List.flatMap_cons, hu, List.filter_cons_of_neg (by simp [hk]),
        List.filter_cons_of_pos (by simp [hk]), hremains, hunread]
      exact ⟨rfl, rfl⟩

theorem leaves_of_fragments {ms : List Markup} (hms : t.Fragments ms)
    (hn : ∀ b ∈ t.blocks, Marker.canName b.id = true)
    (hb : ∀ b ∈ t.blocks, b.content.Importable ∨ b.content.Tabular) :
    ∀ p ∈ t.blocks.zip ms, Leaves t.colorScheme p p.1.remains p.1.unread := by
  rintro ⟨b, m⟩ hp
  have hdraws := (List.forall₂_iff_zip.mp hms).2 hp
  have hmem := (List.of_mem_zip hp).1
  rcases hb b hmem with hi | ht
  · obtain ⟨core, rfl, hreads⟩ := reads_of_draws hdraws hi
    obtain ⟨hremains, hunread, -⟩ := Block.remains_of_importable hi
    rw [hremains, hunread]
    exact leaves_of_reads (hn b hmem) hreads
  · exact leaves_of_tabular (hn b hmem) hdraws ht

theorem ofSource_of_generate_tabular {source : String} (hg : t.generate = .ok source)
    (h : t.Sayable) (hn : ∀ b ∈ t.blocks, Marker.canName b.id = true)
    (hb : ∀ b ∈ t.blocks, b.content.Importable ∨ b.content.Tabular) :
    ∃ warnings, Import.ofSource source = ⟨some t.remaining, [], warnings⟩ ∧
      List.Forall₂ TellsUnread (t.blocks.flatMap Block.unread) warnings := by
  obtain ⟨hv, ms, hms, rfl⟩ := generate_eq_ok.mp hg
  exact ofSource_of_leaves h hv hms (leaves_of_fragments hms hn hb)
    (declaresAll_remaining h.declared) (validate_remaining hv)

def steppedWelcome : Template :=
  { declaredWelcome with
    blocks := declaredWelcome.blocks ++
      [⟨"steps", .stepList (some "Next") [⟨"Sign in", ""⟩]⟩, ⟨"code", .code "1234" none⟩] }

theorem sayable_steppedWelcome : steppedWelcome.Sayable :=
  ⟨by decide, by decide, by decide, ⟨by decide +kernel, by decide⟩, by decide, by decide⟩

theorem named_steppedWelcome : ∀ b ∈ steppedWelcome.blocks, Marker.canName b.id = true := by
  decide

theorem shown_steppedWelcome :
    ∀ b ∈ steppedWelcome.blocks, b.content.Importable ∨ b.content.Tabular := by
  refine List.forall_mem_append.mpr
    ⟨fun b hb => .inl (importable_declaredWelcome.shown b hb), ?_⟩
  refine List.forall_mem_cons.mpr ⟨.inr ?_, List.forall_mem_singleton.mpr (.inr ?_)⟩
  · exact (by decide : ∀ s ∈ ["Next", "Sign in", ""], '<' ∉ s.toList)
  · exact (by decide : ∀ s ∈ ["1234"], '<' ∉ s.toList)

theorem fragments_steppedWelcome : ∃ ms, steppedWelcome.Fragments ms :=
  ⟨_, .cons (.greeting rfl) (.cons (.paragraph rfl)
    (.cons (.stepList (by simp) (by decide)) (.cons (.code rfl) .nil)))⟩

theorem ofSource_of_generate_stepped : steppedWelcome.Sayable ∧
    (∀ b ∈ steppedWelcome.blocks, Marker.canName b.id = true) ∧
    (∀ b ∈ steppedWelcome.blocks, b.content.Importable ∨ b.content.Tabular) ∧
    ∃ source warnings, steppedWelcome.generate = .ok source ∧
      Import.ofSource source =
        ⟨some { steppedWelcome with
          blocks := declaredWelcome.blocks ++ [⟨"steps", .paragraph "Next"⟩] }, [], warnings⟩ ∧
      List.Forall₂ TellsUnread ["table", "table"] warnings := by
  obtain ⟨ms, hms⟩ := fragments_steppedWelcome
  have hg : steppedWelcome.generate = .ok _ := generate_eq_ok.mpr ⟨rfl, ms, hms, rfl⟩
  obtain ⟨warnings, hsource, hwarnings⟩ := ofSource_of_generate_tabular hg sayable_steppedWelcome
    named_steppedWelcome shown_steppedWelcome
  exact ⟨sayable_steppedWelcome, named_steppedWelcome, shown_steppedWelcome, _, warnings, hg,
    hsource, hwarnings⟩

end Template

end EmailTemplates
