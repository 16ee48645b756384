import EmailTemplates.Text.Slice
import Mathlib.Data.List.Infix

namespace EmailTemplates.Text

variable {old new cs rest : List Char} {c : Char}

def replaced (old new : List Char) : List Char → List Char
  | [] => []
  | c :: cs =>
    if old.isPrefixOf (c :: cs) then new ++ replaced old new (cs.drop (old.length - 1))
    else c :: replaced old new cs
termination_by cs => cs.length
decreasing_by
  · exact Nat.lt_succ_of_le (List.drop_suffix _ cs).length_le
  · exact Nat.lt_succ_self _

@[simp] theorem replaced_nil (old new : List Char) : replaced old new [] = [] := by
  rw [replaced]

theorem replaced_append (hne : old ≠ []) (new rest : List Char) :
    replaced old new (old ++ rest) = new ++ replaced old new rest := by
  obtain ⟨c, cs, rfl⟩ := List.exists_cons_of_ne_nil hne
  have hprefix : (c :: cs).isPrefixOf (c :: (cs ++ rest)) = true := by
    rw [List.isPrefixOf_iff_prefix]
    exact List.prefix_append (c :: cs) rest
  rw [List.cons_append, replaced, if_pos hprefix, List.length_cons, Nat.add_sub_cancel,
    List.drop_left]

theorem replaced_cons (h : ¬ old <+: c :: cs) (new : List Char) :
    replaced old new (c :: cs) = c :: replaced old new cs := by
  rw [replaced, if_neg (mt List.isPrefixOf_iff_prefix.mp h)]

theorem replaced_cons_of_head {o : Char} (h : c ≠ o) (old new cs : List Char) :
    replaced (o :: old) new (c :: cs) = c :: replaced (o :: old) new cs :=
  replaced_cons (fun hp => h (List.cons_prefix_cons.mp hp).1.symm) new

theorem replaced_singleton (o : Char) (new cs : List Char) :
    replaced [o] new cs = cs.flatMap fun c => if c = o then new else [c] := by
  induction cs with
  | nil => exact replaced_nil [o] new
  | cons c cs ih =>
    rw [List.flatMap_cons, ← ih]
    by_cases hc : c = o
    · rw [if_pos hc, hc]
      exact replaced_append (List.cons_ne_nil o []) new cs
    · rw [if_neg hc, replaced_cons_of_head hc]
      rfl

theorem prefix_of_replaced {w : List Char} {d : Char} (hd : d ∉ w)
    (h : w <+: replaced old [d] cs) : w <+: cs := by
  induction w generalizing cs with
  | nil => exact List.nil_prefix
  | cons x w ih =>
    obtain ⟨hx, hw⟩ := not_or.mp (mt List.mem_cons.mpr hd)
    cases cs with
    | nil =>
      rw [replaced_nil] at h
      exact h
    | cons c cs =>
      rw [replaced] at h
      split at h
      · exact absurd (List.cons_prefix_cons.mp h).1.symm hx
      · obtain ⟨rfl, hrest⟩ := List.cons_prefix_cons.mp h
        exact List.cons_prefix_cons.mpr ⟨rfl, ih hw hrest⟩

end EmailTemplates.Text
