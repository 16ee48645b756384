import EmailTemplates.Proofs.Markup.Leftover
import EmailTemplates.Proofs.Source.Preserved
import EmailTemplates.Proofs.Source.Referenced
import EmailTemplates.Proofs.Source.RoundTrip

namespace EmailTemplates

namespace Source

open Text (Slice)
open Markup (text fixed)

section

variable {scheme : ColorScheme}

theorem inLines_fixed_markerLine (scheme : ColorScheme) (b : Block) :
    InLines (fixed (markerLine scheme b)) := by
  unfold markerLine
  split
  · exact .inr ⟨_, by rw [Markup.text_fixed, String.toList_append]; rfl⟩
  · exact .inl rfl

theorem encode_markerLine (scheme : ColorScheme) (b : Block) :
    Literal.encode (markerLine scheme b).toList = (markerLine scheme b).toList := by
  unfold markerLine
  split
  · rename_i hnamed
    have hbreak : ("\n" : String).toList = ['\n'] := rfl
    have henc := Marker.encode_text (m := markerOf scheme b) hnamed
    rw [String.toList_append, hbreak, Literal.encode_append (by decide) (by decide),
      Literal.encode_nil]
    exact congrArg (· ++ ['\n']) henc
  · exact Literal.encode_nil

theorem not_mem_markerLine (scheme : ColorScheme) (b : Block) :
    '{' ∉ (markerLine scheme b).toList := by
  unfold markerLine
  split
  · rename_i hnamed
    have hbody := Marker.not_mem_body (m := markerOf scheme b) hnamed (c := '{') (by decide)
    have htext : '{' ∉ (markerOf scheme b).text.toList := by
      rw [Marker.toList_text_body, List.mem_append, not_or]
      exact ⟨hbody, by decide⟩
    rw [String.toList_append, List.mem_append, not_or]
    exact ⟨htext, by decide⟩
  · decide

def markedContent (scheme : ColorScheme) (bms : List (Block × Markup)) : Markup :=
  bms.flatMap fun p => fixed (markerLine scheme p.1) ++ p.2

theorem names_markedContent (scheme : ColorScheme) (bms : List (Block × Markup)) :
    (markedContent scheme bms).names = Markup.names (bms.map Prod.snd).flatten := by
  rw [markedContent, ← List.flatMap_def, Markup.names_flatMap, Markup.names_flatMap]
  simp

theorem settled_markedContent {bms : List (Block × Markup)} (h : ∀ p ∈ bms, p.2.Settled) :
    (markedContent scheme bms).Settled :=
  .flatMap fun p hp => (Markup.settled_fixed (not_mem_markerLine scheme p.1)).append (h p hp)

theorem encode_markedContent {bms : List (Block × Markup)} (h : ∀ p ∈ bms, InLines p.2) :
    Literal.encode (text (markedContent scheme bms)) = (contentText scheme bms).toList := by
  induction bms with
  | nil => exact Literal.encode_nil
  | cons p bms ih =>
    obtain ⟨hp, hbms⟩ := List.forall_mem_cons.mp h
    have hcons : text (markedContent scheme (p :: bms)) = text (fixed (markerLine scheme p.1)) ++
        (text p.2 ++ text (markedContent scheme bms)) := by
      simp [markedContent]
    rw [hcons, (inLines_fixed_markerLine scheme p.1).encode_append, hp.encode_append, ih hbms,
      Markup.text_fixed, encode_markerLine, contentText, String.toList_append, String.toList_append,
      toList_literalText, List.append_assoc]

theorem settled_of_draws {content : Block.Content} {m : Markup}
    (h : Block.Draws scheme content m) : m.Settled :=
  (Block.drawn_of_draws h (fun s _ => Markup.legible_authored s)
    fun _ value _ => ⟨Markup.legible_authored value, Markup.legible_escaped value⟩).settled

end

variable {t : Template} {ms : List Markup}

theorem exists_encode_contentText (hms : t.Fragments ms) :
    ∃ cs, '\n' :: (contentText t.colorScheme (t.blocks.zip ms)).toList = Literal.encode cs ∧
      ∀ n : String, n.toList ∈ Token.names cs ↔
        ∃ b ∈ t.blocks, n ∈ b.fields.flatMap Field.occurrences := by
  obtain ⟨hlength, hdraws⟩ := List.forall₂_iff_zip.mp hms
  have hlines : ∀ p ∈ t.blocks.zip ms, InLines p.2 := fun p hp => inLines_of_draws (hdraws hp)
  have hsettled : ∀ p ∈ t.blocks.zip ms, p.2.Settled := fun p hp => settled_of_draws (hdraws hp)
  refine ⟨'\n' :: text (markedContent t.colorScheme (t.blocks.zip ms)), ?_, fun n => ?_⟩
  · rw [Literal.encode_cons_of_plain (by decide) (by decide), encode_markedContent hlines]
  · have hnames := Markup.names_pieces (text (markedContent t.colorScheme (t.blocks.zip ms)))
    rw [(settled_markedContent hsettled).legible, names_markedContent,
      List.map_snd_zip hlength.ge] at hnames
    rw [Token.names_cons (Token.read?_eq_none_of_head (by decide) _),
      ← Template.mem_names_of_fragments hms, hnames]
    constructor
    · exact fun hn => List.mem_map.mpr ⟨n.toList, hn, String.ofList_toList⟩
    · intro hn
      obtain ⟨name, hname, rfl⟩ := List.mem_map.mp hn
      rwa [String.toList_ofList]

theorem mem_occurrences_of_mem_content (hf : ∀ s ∈ t.texts, Free s.toList)
    (hv : t.validate = .ok ()) (hms : t.Fragments ms) {b : Block}
    (hb : b ∈ (content t.colorScheme (Slice.ofString (t.moduleText ms))).1) {n : String}
    (hn : n ∈ b.fields.flatMap Field.occurrences) :
    ∃ b ∈ t.blocks, n ∈ b.fields.flatMap Field.occurrences := by
  obtain ⟨k, hcontent⟩ := content_of_moduleText (absent_contentPhrases hf) hv hms
  obtain ⟨cs, hcs, hnames⟩ := exists_encode_contentText hms
  rw [hcontent] at hb
  exact (hnames n).mp (refersWithin_readSegments hcs t.colorScheme b hb n hn)

theorem mem_of_mem_bind {keep : String → Option String} (hkeep : ∀ x, ∀ s ∈ keep x, s = x)
    {value : Option String} {s : String} (h : s ∈ value.bind keep) : s ∈ value := by
  obtain ⟨x, hx, hs⟩ := Option.bind_eq_some_iff.mp h
  rwa [hkeep x s hs]

theorem mem_headTexts_of_pruned {s : String} (h : s ∈ (pruned t).headTexts) : s ∈ t.headTexts := by
  have hempty : ∀ x, ∀ s ∈ nonempty? x, s = x := fun x s hs =>
    (Option.some.inj (Option.ite_none_left_eq_some.mp hs).2).symm
  have hblank : ∀ x, ∀ s ∈ nonblank? x, s = x := fun x s hs =>
    (Option.some.inj (Option.ite_none_left_eq_some.mp hs).2).symm
  simp only [Template.headTexts, pruned, prunedHeader, List.mem_append, Option.mem_toList] at h ⊢
  rcases h with (((h | h) | h) | h) | h
  · exact .inl (.inl (.inl (.inl h)))
  · exact .inl (.inl (.inl (.inr (mem_of_mem_bind hblank h))))
  · exact .inl (.inl (.inr (mem_of_mem_bind hempty h)))
  · exact .inl (.inr h)
  · exact .inr (mem_of_mem_bind hempty h)

theorem mem_variableNames_of_pruned {blocks : List Block} {declarations : List VariableDeclaration}
    (hb : ∀ b ∈ blocks, ∀ n ∈ b.fields.flatMap Field.occurrences,
      ∃ b ∈ t.blocks, n ∈ b.fields.flatMap Field.occurrences) {n : String}
    (h : n ∈ ({ pruned t with blocks, declarations } : Template).variableNames) :
    n ∈ t.variableNames := by
  rw [Template.mem_variableNames] at h ⊢
  rcases h with h | ⟨b, hmem, h⟩ | h
  · obtain ⟨text, htext, hn⟩ := List.mem_flatMap.mp h
    exact .inl (List.mem_flatMap.mpr ⟨text, mem_headTexts_of_pruned htext, hn⟩)
  · exact .inr (.inl (hb b hmem n h))
  · exact .inr (.inr h)

theorem allDeclarations_eq (t : Template) :
    allDeclarations t = (withInferred (some t.declarations) t.variableNames).1 := rfl

theorem nodup_allDeclarations (h : (t.declarations.map (·.name)).Nodup) :
    ((allDeclarations t).map (·.name)).Nodup := by
  rw [allDeclarations_eq]
  refine nodup_withInferred (fun ds hds => ?_) (Variable.nodup_addNew .nil)
  cases hds
  exact h

theorem withInferred_read {declared : List VariableDeclaration} {referenced : List String}
    (h : ∀ n ∈ referenced, n ∈ declared.map (·.name)) :
    (withInferred (some (declared.filter fun d => !beginsWithDigit d.name)) referenced).1 =
      (declared.filter fun d => !beginsWithDigit d.name) ++
        (referenced.filter beginsWithDigit).map inferred := by
  have hnew : (referenced.filter fun n =>
      !(declared.filter fun d => !beginsWithDigit d.name).any (·.name == n)) =
        referenced.filter beginsWithDigit := by
    refine List.filter_congr fun n hn => ?_
    obtain ⟨d, hd, rfl⟩ := List.mem_map.mp (h n hn)
    rw [Bool.eq_iff_iff, Bool.not_eq_true', List.any_eq_false]
    constructor
    · intro hnone
      by_contra hread
      exact hnone d (List.mem_filter.mpr ⟨hd, by simpa using hread⟩) (beq_self_eq_true _)
    · intro hdigit x hx hname
      have hread := (List.mem_filter.mp hx).2
      rw [beq_iff_eq.mp hname, hdigit] at hread
      cases hread
  rw [withInferred, hnew]

end Source

namespace Template

open Source
open Text (Slice)

theorem declarations_ofSource {t : Template} (hv : t.validate = .ok ()) {ms : List Markup}
    (hms : t.Fragments ms) (hf : ∀ s ∈ t.strings, Free s.toList)
    (hd : (t.declarations.map (·.name)).Nodup) :
    ∃ u, (Import.ofSource (t.moduleText ms)).template = some u ∧
      (∀ n ∈ u.variableNames, n ∈ t.variableNames) ∧
      u.declarations = ((allDeclarations t).filter fun d => !beginsWithDigit d.name) ++
        (u.variableNames.filter beginsWithDigit).map inferred := by
  have htexts : ∀ s ∈ t.texts, Free s.toList := fun s hmem => hf s (mem_strings_of_mem_texts hmem)
  obtain ⟨hnamed, hdistinct⟩ := ids_content t.colorScheme (Slice.ofString (t.moduleText ms))
  have hblocks := fun b hb n => @mem_occurrences_of_mem_content t ms htexts hv hms b hb n
  rw [ofSource_moduleText_pruned htexts hv hms,
    interface_moduleText htexts hv (nodup_allDeclarations hd)]
  generalize content t.colorScheme (Slice.ofString (t.moduleText ms)) = c at hnamed hdistinct hblocks ⊢
  let imported : Template := { pruned t with blocks := c.1, declarations := [] }
  have hsubset : ∀ n ∈ imported.variableNames, n ∈ t.variableNames := fun n hn =>
    mem_variableNames_of_pruned hblocks hn
  have hread := @withInferred_read (allDeclarations t) imported.variableNames fun n hn => by
    rw [allDeclarations_eq]
    exact mem_withInferred (hsubset n hn)
  have hvalid := validate_of_envelope (t := pruned t) hv
    ⟨fun b hb => Marker.ne_empty_of_canName (hnamed b hb), hdistinct⟩
    (@isValidName_withInferred ((allDeclarations t).filter fun d => !beginsWithDigit d.name)
      imported.variableNames
      (fun d hmem => isValidName_allDeclarations hv d (List.mem_filter.mp hmem).1)
      fun n hn => isValidName_of_mem_variableNames hn)
  exact ⟨_, (Import.declaring_of_valid hvalid).2, hsubset, hread⟩

theorem declarations_of_generate {t : Template} {source : String}
    (hg : t.generate = .ok source) (hf : ∀ s ∈ t.strings, Free s.toList)
    (hd : (t.declarations.map (·.name)).Nodup) :
    ∃ u, (Import.ofSource source).template = some u ∧
      (∀ n ∈ u.variableNames, n ∈ t.variableNames) ∧
      u.declarations =
        ((t.declarations ++ (t.variableNames.filter fun n => !t.declares n).map inferred).filter
            fun d => !beginsWithDigit d.name) ++
          (u.variableNames.filter beginsWithDigit).map inferred ∧
      ((∀ d ∈ t.declarations, beginsWithDigit d.name = false) →
        (∀ n ∈ t.variableNames, beginsWithDigit n = false) →
          u.declarations =
            t.declarations ++ (t.variableNames.filter fun n => !t.declares n).map inferred) := by
  obtain ⟨hv, ms, hms, rfl⟩ := generate_eq_ok.mp hg
  obtain ⟨u, htemplate, hsubset, hdeclared⟩ := declarations_ofSource hv hms hf hd
  refine ⟨u, htemplate, hsubset, hdeclared, fun hdeclares hnames => ?_⟩
  have hread : ((allDeclarations t).filter fun d => !beginsWithDigit d.name) =
      allDeclarations t := by
    rw [List.filter_eq_self, allDeclarations, List.forall_mem_append, List.forall_mem_map]
    refine ⟨fun d hmem => by rw [hdeclares d hmem]; rfl, fun n hmem => ?_⟩
    rw [hnames n (List.mem_filter.mp hmem).1]
    rfl
  have hnone : u.variableNames.filter beginsWithDigit = [] :=
    List.filter_eq_nil_iff.mpr fun n hn => by simp [hnames n (hsubset n hn)]
  rw [hdeclared, hread, hnone, List.map_nil, List.append_nil]
  rfl

def codeWelcome : Template :=
  { SystemTemplate.welcome.starter with declarations := [⟨"code", .money, true⟩] }

theorem generate_codeWelcome : ∃ source, codeWelcome.generate = .ok source :=
  ⟨_, generate_eq_ok.mpr ⟨rfl, _, SystemTemplate.fragments_starter _, rfl⟩⟩

theorem declarations_of_generate_codeWelcome :
    ∃ source u, codeWelcome.generate = .ok source ∧
      (∀ s ∈ codeWelcome.strings, Free s.toList) ∧
      (codeWelcome.declarations.map (·.name)).Nodup ∧
      (Import.ofSource source).template = some u ∧
      u.declarations = [⟨"code", .money, true⟩, ⟨"customer_name", .text, false⟩] := by
  obtain ⟨source, hg⟩ := generate_codeWelcome
  have hfree : ∀ s ∈ codeWelcome.strings, Free s.toList := by decide
  have hdistinct : (codeWelcome.declarations.map (·.name)).Nodup := by decide
  obtain ⟨u, htemplate, -, -, hdeclared⟩ := declarations_of_generate hg hfree hdistinct
  refine ⟨source, u, hg, hfree, hdistinct, htemplate, ?_⟩
  rw [hdeclared (by decide) (by decide +kernel)]
  decide +kernel

def twoCodesWelcome : Template :=
  { SystemTemplate.welcome.starter with
    declarations := [⟨"2fa", .text, false⟩, ⟨"code", .money, true⟩] }

theorem declarations_ofSource_twoCodesWelcome :
    ∃ source u, twoCodesWelcome.generate = .ok source ∧
      (Import.ofSource source).template = some u ∧
      u.declarations = [⟨"code", .money, true⟩, ⟨"customer_name", .text, false⟩] := by
  have hms := SystemTemplate.fragments_starter SystemTemplate.welcome
  have hdigit : ∀ n ∈ twoCodesWelcome.variableNames, beginsWithDigit n = false := by decide +kernel
  obtain ⟨u, htemplate, hsubset, hdeclared⟩ :=
    @declarations_ofSource twoCodesWelcome rfl _ hms (by decide) (by decide)
  refine ⟨_, u, generate_eq_ok.mpr ⟨rfl, _, hms, rfl⟩, htemplate, ?_⟩
  have hnone : u.variableNames.filter beginsWithDigit = [] :=
    List.filter_eq_nil_iff.mpr fun n hn => by simp [hdigit n (hsubset n hn)]
  rw [hdeclared, hnone]
  decide +kernel

end Template

end EmailTemplates
