import EmailTemplates.Proofs.Markup.Document
import EmailTemplates.Proofs.Text.Entity

namespace EmailTemplates

namespace Markup

def text (m : Markup) : List Char :=
  m.fill fun _ => none

@[simp] theorem text_nil : text [] = [] := rfl

@[simp] theorem text_append (m n : Markup) : text (m ++ n) = text m ++ text n :=
  fill_append _ m n

@[simp] theorem text_fixed (s : String) : text (fixed s) = s.toList :=
  fill_fixed _ s

@[simp] theorem text_char (c : Char) (m : Markup) : text (.char c :: m) = c :: text m := rfl

@[simp] theorem text_reference (name : List Char) (m : Markup) :
    text (.reference name :: m) = Token.chars name ++ text m := rfl

@[simp] theorem text_map_char (cs : List Char) : text (cs.map .char) = cs := by
  induction cs with
  | nil => rfl
  | cons c cs ih => rw [List.map_cons, text_char, ih]

@[simp] theorem text_pieces (cs : List Char) : text (Token.pieces cs) = cs := by
  induction cs using Token.text_induction with
  | nil => rw [Token.pieces_nil, text_nil]
  | token name rest h ih => rw [Token.pieces_chars h, text_reference, ih]
  | char c cs h ih => rw [Token.pieces_cons h, text_char, ih]

section

variable {value? : List Char → Option (List Char)}

def filledPiece (value? : List Char → Option (List Char)) : Token.Piece → Markup
  | .char c => [.char c]
  | .reference name => ((value? name).map (·.map .char)).getD [.reference name]

def filled (value? : List Char → Option (List Char)) (m : Markup) : Markup :=
  m.flatMap (filledPiece value?)

@[simp] theorem filled_append (m n : Markup) :
    (m ++ n).filled value? = m.filled value? ++ n.filled value? :=
  List.flatMap_append

@[simp] theorem filled_map_char (cs : List Char) :
    filled value? (cs.map .char) = cs.map .char := by
  rw [filled, List.flatMap_map]
  exact List.map_eq_flatMap.symm

@[simp] theorem filled_fixed (s : String) : (fixed s).filled value? = fixed s :=
  filled_map_char s.toList

theorem filled_none (m : Markup) : (m.filled fun _ => none) = m := by
  have hone : filledPiece (fun _ => none) = fun p => [p] := by
    funext p
    cases p <;> rfl
  rw [filled, hone, List.flatMap_singleton']

theorem text_filled (m : Markup) : text (m.filled value?) = m.fill value? := by
  induction m with
  | nil => rfl
  | cons p m ih =>
    rw [filled, List.flatMap_cons, text_append, ← filled, ih]
    cases p with
    | char c => rfl
    | reference name =>
      rw [filledPiece, fill]
      cases value? name with
      | none => simp
      | some value => simp

end

def Legible (m : Markup) : Prop :=
  Token.pieces m.text = m

def Settled (m : Markup) : Prop :=
  ∀ rest, Token.pieces (m.text ++ rest) = m ++ Token.pieces rest

theorem Settled.legible {m : Markup} (h : m.Settled) : m.Legible := by
  have hm := h []
  rwa [List.append_nil, Token.pieces_nil, List.append_nil] at hm

theorem settled_nil : Settled [] :=
  fun _ => rfl

theorem Settled.append {m n : Markup} (hm : m.Settled) (hn : n.Settled) : (m ++ n).Settled := by
  intro rest
  rw [text_append, List.append_assoc, hm, hn, List.append_assoc]

theorem Settled.append_legible {m n : Markup} (hm : m.Settled) (hn : n.Legible) :
    (m ++ n).Legible := by
  rw [Legible, text_append, hm, hn]

theorem Settled.flatMap {α : Type} {f : α → Markup} {xs : List α} (h : ∀ x ∈ xs, (f x).Settled) :
    Settled (xs.flatMap f) := by
  induction xs with
  | nil => exact settled_nil
  | cons x xs ih =>
    obtain ⟨hx, hxs⟩ := List.forall_mem_cons.mp h
    exact hx.append (ih hxs)

theorem settled_fixed {s : String} (h : '{' ∉ s.toList) : (fixed s).Settled := by
  intro rest
  rw [text_fixed, Token.pieces_append_of_not_mem h]
  rfl

theorem settled_of_plain {s : String} (h : Text.Plain s) : (fixed s).Settled :=
  settled_fixed (h.not_mem (by decide))

theorem settled_reference {name : String} (h : Variable.isValidName name = true) :
    (reference name).Settled := by
  intro rest
  rw [reference, text_reference, text_nil, List.append_nil, Token.pieces_chars h]
  rfl

theorem Legible.append_fixed {m : Markup} (hm : m.Legible) {c : Char} {cs : List Char}
    (hc : Token.breaks c = true) (hcs : '{' ∉ cs) : (m ++ fixed (.ofList (c :: cs))).Settled := by
  have hmem : '{' ∉ c :: cs := by
    rw [List.mem_cons, not_or]
    refine ⟨?_, hcs⟩
    rintro rfl
    simp [Token.breaks] at hc
  intro rest
  have hbreak : Token.pieces (m.text ++ (c :: cs ++ rest)) =
      Token.pieces m.text ++ Token.pieces (c :: cs ++ rest) :=
    Token.pieces_append_of_breaks hc m.text (cs ++ rest)
  rw [text_append, text_fixed, String.toList_ofList, List.append_assoc, hbreak, hm,
    Token.pieces_append_of_not_mem hmem, List.append_assoc]
  simp only [fixed, String.toList_ofList]

section

variable {value? : List Char → Option (List Char)}
  (hvalue : ∀ name value, value? name = some value → '{' ∉ value)
include hvalue

theorem settled_filled_reference {name : String} (h : Variable.isValidName name = true) :
    ((reference name).filled value?).Settled := by
  have hfilled : (reference name).filled value? =
      ((value? name.toList).map (·.map .char)).getD (reference name) :=
    List.append_nil _
  rw [hfilled]
  cases hv : value? name.toList with
  | none => exact settled_reference h
  | some value =>
    have hs : (fixed (.ofList value)).Settled := by
      refine settled_fixed ?_
      rw [String.toList_ofList]
      exact hvalue _ _ hv
    rwa [fixed, String.toList_ofList] at hs

theorem settled_attribute {a : Attribute} (h : a.Drawn fun m => (m.filled value?).Legible) :
    (a.markup.filled value?).Settled := by
  have hopen {name : String} (hn : Text.Plain name) : (fixed (" " ++ name ++ "=\"")).Settled := by
    refine settled_fixed ?_
    simp only [String.toList_append, List.mem_append, not_or]
    exact ⟨⟨by decide, hn.not_mem (by decide)⟩, by decide⟩
  have hclose : (fixed "\"").Settled := settled_fixed (by decide)
  rw [Attribute.markup, filled_append, filled_append, filled_fixed, filled_fixed]
  cases h with
  | fixed hn hv =>
    rw [Attribute.fixed, filled_fixed]
    exact ((hopen hn).append (settled_of_plain hv)).append hclose
  | reference hn hu =>
    exact ((hopen hn).append (settled_filled_reference hvalue hu)).append hclose
  | loose hn hv =>
    rw [List.append_assoc]
    exact (hopen hn).append (hv.append_fixed (by decide) (by simp))

theorem settled_opening {tag : String} {attributes : List Attribute} (ht : '{' ∉ tag.toList)
    (ha : ∀ a ∈ attributes, a.Drawn fun m => (m.filled value?).Legible) :
    ((opening tag attributes).filled value?).Settled := by
  have hattributes : (filled value? (attributes.flatMap Attribute.markup)).Settled := by
    rw [filled, List.flatMap_assoc]
    exact .flatMap fun a h => settled_attribute hvalue (ha a h)
  rw [opening, filled_append, filled_append, filled_fixed, filled_fixed]
  refine .append (.append (settled_fixed ?_) hattributes) (settled_fixed (by decide))
  rw [String.toList_append, List.mem_append, not_or]
  exact ⟨by decide, ht⟩

end

theorem not_mem_closing {tag : String} (ht : Text.Plain tag) :
    '{' ∉ '/' :: (tag.toList ++ ['>']) := by
  simp only [List.mem_cons, List.mem_append, List.not_mem_nil, or_false, not_or]
  exact ⟨by decide, ht.not_mem (by decide), by decide⟩

theorem closing_eq (tag : String) :
    closing tag = fixed (.ofList ('<' :: '/' :: (tag.toList ++ ['>']))) := by
  simp [closing, fixed]

theorem Drawn.settled_filled {value? : List Char → Option (List Char)}
    (hvalue : ∀ name value, value? name = some value → '{' ∉ value) {m : Markup}
    (h : m.Drawn fun m => (m.filled value?).Legible) : (m.filled value?).Settled := by
  induction h with
  | nil => exact settled_nil
  | append _ _ hm hn =>
    rw [filled_append]
    exact hm.append hn
  | fixed hs =>
    rw [filled_fixed]
    exact settled_of_plain hs
  | newline =>
    rw [filled_fixed]
    exact settled_fixed (by decide)
  | reference hn => exact settled_filled_reference hvalue hn
  | looseLine hl =>
    rw [Markup.line, filled_append, filled_fixed]
    exact hl.append_fixed (by decide) (by simp)
  | void ht ha =>
    have htag : ∀ tag ∈ ["meta", "img", "hr"], '{' ∉ tag.toList := by decide
    exact settled_opening hvalue (htag _ ht) ha
  | loose ht ha hl =>
    have hplain := plain_of_mem_elementTags _ ht
    rw [Markup.element, filled_append, filled_append, closing_eq, filled_fixed, List.append_assoc]
    exact (settled_opening hvalue (hplain.not_mem (by decide)) ha).append
      (hl.append_fixed (by decide) (not_mem_closing hplain))
  | element ht ha _ hc =>
    have hplain := plain_of_mem_elementTags _ ht
    rw [Markup.element, filled_append, filled_append, closing_eq, filled_fixed]
    refine ((settled_opening hvalue (hplain.not_mem (by decide)) ha).append hc).append
      (settled_fixed ?_)
    rw [String.toList_ofList, List.mem_cons, not_or]
    exact ⟨by decide, not_mem_closing hplain⟩

theorem Drawn.settled {m : Markup} (h : m.Drawn Legible) : m.Settled := by
  have hnone : (fun m : Markup => (m.filled fun _ => none).Legible) = Legible :=
    funext fun m => by rw [filled_none]
  have hfilled := Drawn.settled_filled (fun _ _ hv => by cases hv) (hnone ▸ h)
  rwa [filled_none] at hfilled

@[simp] theorem text_escaped (s : String) : text (escaped s) = Text.escape s.toList := by
  rw [escaped, ← Text.pieces_escape, text_pieces]

theorem legible_authored (s : String) : (authored s).Legible := by
  rw [Legible, authored, text_pieces]

theorem legible_escaped (s : String) : (escaped s).Legible := by
  rw [Legible, text_escaped, Text.pieces_escape]
  rfl

theorem legible_fixed_escaped {s : String} (h : Token.names s.toList = []) :
    (fixed (Text.escaped s)).Legible := by
  rw [Legible, text_fixed, Text.toList_escaped, Text.pieces_escape_of_names_eq_nil h, fixed,
    Text.toList_escaped]

theorem Legible.fixed_append {s t : String} (hs : '{' ∉ s.toList) (h : (fixed t).Legible) :
    (fixed (s ++ t)).Legible := by
  rw [Legible, text_fixed] at h ⊢
  rw [String.toList_append, Token.pieces_append_of_not_mem hs, h, fixed, fixed,
    String.toList_append, List.map_append]

end Markup

theorem Envelope.settled_doctype (e : Envelope) : (Markup.fixed e.doctype).Settled :=
  Markup.settled_fixed (by cases e <;> decide)

end EmailTemplates
