import EmailTemplates.Proofs.Source.Marker
import EmailTemplates.Proofs.Source.Reads
import EmailTemplates.Source.Generate

namespace EmailTemplates.Source

open EmailTemplates.Text (Slice byteLength isBlank)
open Markup (text line)
open Outcome (map_add_map_add)

variable {scheme : ColorScheme}

def readSegments (scheme : ColorScheme) (segments : List Segment) : Content :=
  segments.foldl (Content.addSegment scheme) ⟨[], [], none, []⟩

theorem content_of_body {source body : Slice} (h : contentBody source = .ok body)
    (scheme : ColorScheme) :
    content scheme source = ((readSegments scheme (segments body)).blocks,
      (readSegments scheme (segments body)).warnings) := by
  rw [content, h]
  rfl

theorem segments_nil (n : Nat) : segments ⟨n, ['\n']⟩ = [] := by
  have hskip : (⟨n, ['\n']⟩ : Slice).skipBlanks = ⟨n + byteLength ['\n'], []⟩ :=
    @Slice.skipBlanks_append ['\n'] [] n (by decide) (by simp)
  rw [segments, hskip]
  rfl

theorem segments_line {cs rest : List Char} {kind : SegmentKind} {n m : Nat}
    (hhead : cs.head? = some '<')
    (hnext : Segment.next ⟨n + byteLength ['\n'], cs ++ rest⟩ = (kind, ⟨m, rest⟩)) :
    segments ⟨n, '\n' :: (cs ++ rest)⟩ =
      ⟨kind, ⟨n + byteLength ['\n'], cs⟩⟩ :: segments ⟨m, rest⟩ := by
  obtain ⟨cs, rfl⟩ := List.head?_eq_some_iff.mp hhead
  have hskip : (⟨n, '\n' :: ('<' :: cs ++ rest)⟩ : Slice).skipBlanks =
      ⟨n + byteLength ['\n'], '<' :: cs ++ rest⟩ :=
    @Slice.skipBlanks_append ['\n'] _ n (by decide) (Slice.head_cons (by decide) _)
  have hlt : rest.length < ('\n' :: ('<' :: cs ++ rest)).length := by
    simp only [List.length_cons, List.length_append]
    omega
  rw [segments, hskip]
  simp only [Slice.isEmpty, List.cons_append, List.isEmpty_cons, Bool.false_eq_true, if_false]
  rw [← List.cons_append, hnext]
  simp only [Slice.before_append, hlt, if_true]

namespace Content

theorem warn_nil (c : Content) : c.warn [] = c := by
  rw [warn, List.append_nil]

theorem addSegment_marker {m : Marker} (h : Marker.canName m.id = true) (c : Content) (n : Nat) :
    c.addSegment scheme ⟨.comment, ⟨n, m.text.toList⟩⟩ = { c with marker := some m } := by
  obtain ⟨htext, hun⟩ := Literal.pieces_encode n m.text.toList
  rw [Marker.encode_text h] at htext hun
  simp only [addSegment, htext, hun, List.map_nil, warn_nil, Marker.trim_text,
    Marker.ofComment?_text h]

theorem addSegment_element {cs : List Char} {tag : String} {content : Block.Content}
    (hr : recognize scheme tag cs = some content) (c : Content) (n : Nat) :
    c.addSegment scheme ⟨.element tag true, ⟨n, Literal.encode cs⟩⟩ = c.add content := by
  obtain ⟨htext, hun⟩ := Literal.pieces_encode n cs
  simp only [addSegment, htext, hun, List.map_nil, warn_nil, hr]

theorem chosenId_marked {used : List String} {id : String} (h : id ∉ used) (kind : BlockKind)
    (index : Nat) : chosenId used (some id) kind index = id := by
  have hfilter : (some id).filter (fun id => !used.contains id) = some id := by
    simp [Option.filter_some, h]
  rw [chosenId, hfilter]

theorem add_marked {c : Content} {m : Marker} (hm : c.marker = some m) (hid : m.id ∉ c.usedIds)
    (content : Block.Content) :
    c.add content =
      { c with
        blocks := c.blocks ++ [⟨m.id, withMarkedScheme m.scheme content⟩]
        usedIds := c.usedIds ++ [m.id]
        marker := none } := by
  simp only [add, nextId, hm, Option.map_some, Option.bind_some, chosenId_marked hid]

theorem kind_withMarkedScheme (scheme : Option ColorScheme) (content : Block.Content) :
    (withMarkedScheme scheme content).kind = content.kind := by
  cases content <;> rfl

theorem withMarkedScheme_none (content : Block.Content) : withMarkedScheme none content = content := by
  cases content <;> rfl

theorem withMarkedScheme_shown (b : Block) :
    withMarkedScheme (markedScheme scheme b) (b.content.shown scheme) = b.content := by
  obtain ⟨id, content⟩ := b
  have hown (own : Option ColorScheme) :
      (own.filter (· = scheme)).or ((some (own.getD scheme)).filter (· ≠ scheme)) = own := by
    cases own with
    | none => simp
    | some own =>
      by_cases h : own = scheme
      · simp [Option.filter_some, h]
      · simp [Option.filter_some, h]
  cases content with
  | button label url own => simp only [markedScheme, Block.Content.shown, withMarkedScheme, hown]
  | link text url own => simp only [markedScheme, Block.Content.shown, withMarkedScheme, hown]
  | _ => rfl

theorem usedIds_addSegment {c : Content} (h : c.usedIds = c.blocks.map (·.id))
    (segment : Segment) :
    (c.addSegment scheme segment).usedIds = (c.addSegment scheme segment).blocks.map (·.id) := by
  have hadd (content : Block.Content) (ws : List Diagnostic) :
      ((c.warn ws).add content).usedIds = ((c.warn ws).add content).blocks.map (·.id) := by
    simp [add, nextId, warn, h]
  unfold addSegment
  dsimp only
  split
  · split <;> exact h
  · exact h
  · split
    · exact hadd _ _
    · exact h
  · exact h

theorem usedIds_foldl (segments : List Segment) {c : Content}
    (h : c.usedIds = c.blocks.map (·.id)) :
    (segments.foldl (addSegment scheme) c).usedIds =
      (segments.foldl (addSegment scheme) c).blocks.map (·.id) := by
  induction segments generalizing c with
  | nil => exact h
  | cons segment segments ih => exact ih (usedIds_addSegment h segment)

end Content

def markerOf (scheme : ColorScheme) (b : Block) : Marker :=
  ⟨b.id, markedScheme scheme b⟩

theorem toList_literalText (m : Markup) :
    (literalText m).toList = Literal.encode (text m) := by
  rw [literalText, String.toList_ofList, Filling.markup, String.toList_ofList]
  rfl

theorem head?_encode_of_head {cs : List Char} (h : cs.head? = some '<') :
    (Literal.encode cs).head? = some '<' := by
  obtain ⟨cs, rfl⟩ := List.head?_eq_some_iff.mp h
  rw [Literal.encode_cons_of_plain (by decide) (by decide)]
  rfl

theorem bodyLength_newline (rest : List Char) :
    Literal.bodyLength ('\n' :: rest) = (Literal.bodyLength rest).map (· + 1) := by
  rw [Literal.bodyLength]
  all_goals simp

theorem bodyLength_line (cs rest : List Char) :
    Literal.bodyLength (Literal.encode cs ++ '\n' :: rest) =
      (Literal.bodyLength rest).map (· + ((Literal.encode cs).length + 1)) := by
  rw [Literal.bodyLength_encode (by simp), bodyLength_newline, map_add_map_add]

theorem bodyLength_inLines {m : Markup} (h : InLines m) (rest : List Char) :
    Literal.bodyLength (Literal.encode (text m) ++ rest) =
      (Literal.bodyLength rest).map (· + (Literal.encode (text m)).length) := by
  rcases h with h | ⟨cs, h⟩
  · rw [h, Literal.encode_nil]
    simp
  · rw [h, Literal.encode_append (by decide) (by decide), Literal.encode_nil, List.append_assoc,
      List.singleton_append, bodyLength_line, List.length_append, List.length_singleton]

theorem bodyLength_markerLine (scheme : ColorScheme) (b : Block) (rest : List Char) :
    Literal.bodyLength ((markerLine scheme b).toList ++ rest) =
      (Literal.bodyLength rest).map (· + (markerLine scheme b).toList.length) := by
  unfold markerLine
  split
  · rename_i hnamed
    have hbreak : ("\n" : String).toList = ['\n'] := rfl
    have henc := Marker.encode_text (m := markerOf scheme b) hnamed
    have hline := bodyLength_line (markerOf scheme b).text.toList rest
    rw [henc] at hline
    rw [String.toList_append, hbreak, List.append_assoc, List.singleton_append,
      List.length_append, List.length_singleton]
    exact hline
  · have hnil : ("" : String).toList = [] := rfl
    rw [hnil]
    simp

theorem bodyLength_contentText {bms : List (Block × Markup)} (h : ∀ p ∈ bms, InLines p.2)
    (rest : List Char) :
    Literal.bodyLength ((contentText scheme bms).toList ++ '`' :: rest) =
      some (contentText scheme bms).toList.length := by
  induction bms with
  | nil =>
    have hnil : (contentText scheme []).toList = [] := rfl
    rw [hnil, List.nil_append, Literal.bodyLength]
    rfl
  | cons p bms ih =>
    obtain ⟨hp, hrest⟩ := List.forall_mem_cons.mp h
    obtain ⟨b, m⟩ := p
    have hchars : (contentText scheme ((b, m) :: bms)).toList = (markerLine scheme b).toList ++
        (Literal.encode (text m) ++ (contentText scheme bms).toList) := by
      rw [contentText]
      simp only [String.toList_append, toList_literalText, List.append_assoc]
    rw [hchars, List.append_assoc, List.append_assoc, bodyLength_markerLine, bodyLength_inLines hp,
      ih hrest, List.length_append, List.length_append]
    simp only [Option.map_some, Option.some.injEq]
    omega

theorem quiet_marker {m : Marker} (h : Marker.canName m.id = true) :
    Quiet ('\n' :: m.text.toList) := by
  have hbreak : '\n' ∉ m.text.toList := by
    rw [Marker.toList_text_body, List.mem_append, not_or]
    exact ⟨Marker.not_mem_body h (by decide), by decide⟩
  refine (quiet_of_not_mem hbreak).newline ?_
  rw [Marker.head?_text]
  simp only [Option.mem_some_iff, forall_eq']
  decide

end EmailTemplates.Source
