import EmailTemplates.Block.Basic
import EmailTemplates.Style
import EmailTemplates.Text.Entity
import Mathlib.Data.List.Infix

namespace EmailTemplates

namespace Text

def isPlain (c : Char) : Bool :=
  ! ['<', '>', '"', '{', '}', '\\', '`', '$', '\n'].contains c

def Plain (s : String) : Prop :=
  ∀ c ∈ s.toList, isPlain c = true

theorem plain_ofList (cs : List Char) (h : cs.all isPlain = true) : Plain (.ofList cs) := by
  intro c hc
  rw [String.toList_ofList] at hc
  exact List.all_eq_true.mp h c hc

@[simp] theorem plain_append {s t : String} : Plain (s ++ t) ↔ Plain s ∧ Plain t := by
  simp only [Plain, String.toList_append, List.mem_append, or_imp, forall_and]

theorem plain_repr (n : Nat) : Plain n.repr := by
  intro c hc
  rw [Nat.toList_repr] at hc
  have hd : c.isDigit = true := Nat.isDigit_of_mem_toDigits (by decide) (by decide) hc
  have hx : ∀ x ∈ ['<', '>', '"', '{', '}', '\\', '`', '$', '\n'], x.isDigit = false := by decide
  simp only [isPlain, Bool.not_eq_true', List.contains_eq_mem, decide_eq_false_iff_not]
  intro hm
  rw [hx c hm] at hd
  simp at hd

theorem plain_intercalate {s : String} {ts : List String} (hs : Plain s) (ht : ∀ t ∈ ts, Plain t) :
    Plain (s.intercalate ts) := by
  induction ts with
  | nil =>
    rw [String.intercalate_nil]
    exact plain_ofList [] rfl
  | cons t ts ih =>
    obtain ⟨h, hts⟩ := List.forall_mem_cons.mp ht
    cases ts with
    | nil =>
      rw [String.intercalate_singleton]
      exact h
    | cons u us =>
      rw [String.intercalate_cons_cons, plain_append, plain_append]
      exact ⟨⟨h, hs⟩, ih hts⟩

theorem isPlain_of_isNameChar {c : Char} (h : isNameChar c = true) : isPlain c = true := by
  have hx : ∀ x ∈ ['<', '>', '"', '{', '}', '\\', '`', '$', '\n'], isNameChar x = false := by decide
  simp only [isPlain, Bool.not_eq_true', List.contains_eq_mem, decide_eq_false_iff_not]
  intro hm
  rw [hx c hm] at h
  simp at h

theorem isPlain_of_mem_escapeChar {c d : Char} (hc : isPlain c = true) (hd : d ∈ escapeChar c) :
    isPlain d = true := by
  unfold escapeChar at hd
  split at hd
  iterate 5
    revert d
    decide
  rwa [List.mem_singleton.mp hd]

theorem Plain.escaped {s : String} (h : Plain s) : Plain (escaped s) := by
  intro c hc
  rw [Text.escaped, String.toList_ofList] at hc
  obtain ⟨d, hd, hm⟩ := List.mem_flatMap.mp hc
  exact isPlain_of_mem_escapeChar (h d hd) hm

theorem plain_contentId {s : String} (h : Block.isContentId s = true) : Plain s := by
  intro c hc
  have hall := List.all_eq_true.mp (Bool.and_eq_true_iff.mp h).2 c hc
  simp only [Bool.or_eq_true, beq_iff_eq] at hall
  rcases hall with ((h | rfl) | rfl) | rfl
  · exact isPlain_of_isNameChar h
  · decide
  · decide
  · decide

theorem ne_of_isPlain {c d : Char} (hc : isPlain c = true) (hd : isPlain d = false) : c ≠ d := by
  rintro rfl
  rw [hc] at hd
  simp at hd

theorem Plain.not_mem {s : String} (h : Plain s) {c : Char} (hc : isPlain c = false) :
    c ∉ s.toList :=
  fun hm => ne_of_isPlain (h c hm) hc rfl

end Text

namespace Design

theorem plain_fontFamily : Text.Plain fontFamily :=
  Text.plain_ofList _ (by decide)

theorem plain_monoFontFamily : Text.Plain monoFontFamily :=
  Text.plain_ofList _ (by decide)

end Design

namespace Style

open Text Design

def Plain (s : Style) : Prop :=
  ∀ d ∈ s.declarations, Text.Plain d.1 ∧ Text.Plain d.2

@[simp] theorem plain_empty : empty.Plain := by
  intro d hd
  simp [empty] at hd

@[simp] theorem plain_prop {s : Style} {name value : String} :
    (s.prop name value).Plain ↔ s.Plain ∧ Text.Plain name ∧ Text.Plain value := by
  constructor
  · intro h
    refine ⟨fun d hd => h d (List.mem_append_left _ hd), h (name, value) ?_⟩
    exact List.mem_append_right _ (List.mem_singleton_self _)
  · rintro ⟨hs, hd⟩ d hm
    rcases List.mem_append.mp hm with hm | hm
    · exact hs d hm
    · cases List.mem_singleton.mp hm
      exact hd

theorem Plain.text {s : Style} (h : s.Plain) : Text.Plain s.text := by
  refine plain_intercalate (plain_ofList [' '] (by decide)) ?_
  intro t ht
  obtain ⟨d, hd, rfl⟩ := List.mem_map.mp ht
  obtain ⟨hn, hv⟩ := h d hd
  simp only [plain_append]
  exact ⟨⟨⟨hn, plain_ofList [':', ' '] (by decide)⟩, hv⟩, plain_ofList [';'] (by decide)⟩

theorem plain_bodyText : bodyText.Plain := by
  simp only [bodyText, plain_prop, plain_empty, true_and, and_true, plain_fontFamily, plain_append]
  and_intros <;> exact plain_ofList _ (by decide)

theorem plain_mutedText : mutedText.Plain := by
  simp only [mutedText, plain_prop, plain_empty, true_and, and_true, plain_fontFamily]
  and_intros <;> exact plain_ofList _ (by decide)

end Style

structure Palette.Plain (p : Palette) : Prop where
  primary : Text.Plain p.primary
  primaryDark : Text.Plain p.primaryDark
  light : Text.Plain p.light
  border : Text.Plain p.border
  text : Text.Plain p.text

theorem ColorScheme.plain_palette (scheme : ColorScheme) : scheme.palette.Plain := by
  cases scheme <;> constructor <;> exact Text.plain_ofList _ (by decide)

end EmailTemplates
