import EmailTemplates.Json.Record
import EmailTemplates.Proofs.Json.Text
import Mathlib.Data.List.Nodup

namespace EmailTemplates

namespace Json

def written (fields : List (String × Option Json)) : List (String × Json) :=
  fields.flatMap fun field => optionalMember field.1 field.2

variable {name : String} {value : Json} {fields : List (String × Option Json)}

theorem optionalMember_some : optionalMember name (some value) = [(name, value)] := rfl

theorem written_some :
    written ((name, some value) :: fields) = (name, value) :: written fields := rfl

theorem written_none : written ((name, none) :: fields) = written fields := rfl

theorem written_cons (value : Option Json) :
    written ((name, value) :: fields) = optionalMember name value ++ written fields := rfl

theorem mem_written : (name, value) ∈ written fields ↔ (name, some value) ∈ fields := by
  induction fields with
  | nil => simp [written]
  | cons field fields ih =>
    obtain ⟨n, _ | v⟩ := field
    · simp [written_none, ih]
    · simp [written_some, ih]

theorem map_fst_written_sublist (fields : List (String × Option Json)) :
    ((written fields).map Prod.fst).Sublist (fields.map Prod.fst) := by
  induction fields with
  | nil => exact .slnil
  | cons field fields ih =>
    obtain ⟨n, _ | v⟩ := field
    · exact .cons _ ih
    · exact .cons_cons _ ih

theorem lookup_written (hnodup : (fields.map Prod.fst).Nodup) :
    (written fields).lookup name = (fields.lookup name).join := by
  induction fields with
  | nil => rfl
  | cons field fields ih =>
    obtain ⟨hnew, hrest⟩ := List.nodup_cons.mp hnodup
    obtain ⟨n, _ | value⟩ := field
    · rw [written_none, List.lookup_cons]
      split
      · rename_i heq
        rw [eq_of_beq heq]
        refine List.lookup_eq_none_iff.mpr fun m hm => ?_
        rw [bne_iff_ne]
        rintro rfl
        exact hnew ((map_fst_written_sublist fields).subset (List.mem_map_of_mem hm))
      · exact ih hrest
    · rw [written_some, List.lookup_cons, List.lookup_cons, ih hrest]
      split <;> rfl

end Json

namespace Json

variable {α : Type} {read : Json → Option α}

def orNone? (read : Json → Option α) : Option Json → Option (Option α)
  | none | some null => some none
  | some value => (read value).map some

theorem orNone?_map {write : α → Json} {value : Option α} (hnull : ∀ a, write a ≠ null)
    (hread : ∀ a ∈ value, read (write a) = some a) :
    orNone? read (value.map write) = some value := by
  cases value with
  | none => rfl
  | some a =>
    rw [Option.map_some, orNone?, hread a rfl]
    · rfl
    · exact hnull a

end Json

namespace Record

open Json (written orNone?)

variable {α : Type} {r : Record} {fields : List (String × Option Json)} {name : String}
  {read : Json → Option α}

structure Holds (r : Record) (fields : List (String × Option Json)) : Prop where
  byName : r.positional = false
  get? : ∀ name, r.get? name = (fields.lookup name).join

theorem exists_holds {j : Json} (names : List String) (fields : List (String × Option Json))
    (hj : j = .object (written fields)) (hnames : fields.map Prod.fst = names)
    (hnodup : names.Nodup) : ∃ r, ofJson? names j = some r ∧ r.Holds fields := by
  subst hj hnames
  have hsub := Json.map_fst_written_sublist fields
  have hknown : (written fields).filter (fun m => (fields.map Prod.fst).contains m.1) =
      written fields :=
    List.filter_eq_self.mpr fun m hm =>
      List.contains_iff_mem.mpr (hsub.subset (List.mem_map_of_mem hm))
  refine ⟨⟨false, written fields⟩, ?_, rfl, fun name => Json.lookup_written hnodup⟩
  simp only [ofJson?, hknown, if_pos (hnodup.sublist hsub)]

namespace Holds

variable (h : r.Holds fields)

include h

theorem required : r.required name read = (fields.lookup name).join.bind read := by
  rw [Record.required, h.get?]
  rfl

theorem withDefault (default : α) :
    r.withDefault name default read = (fields.lookup name).join.elim (some default) read := by
  rw [Record.withDefault, h.get?]
  cases (fields.lookup name).join <;> rfl

theorem optional : r.optional name read = orNone? read (fields.lookup name).join := by
  rw [Record.optional, h.get?]
  rfl

theorem optionalInList : r.optionalInList name read = orNone? read (fields.lookup name).join := by
  rw [Record.optionalInList, h.byName, Bool.false_and, if_neg Bool.false_ne_true, h.optional]

end Holds

end Record

namespace Json

theorem list?_map {α : Type} {read : Json → Option α} {write : α → Json} {xs : List α}
    (h : ∀ x ∈ xs, read (write x) = some x) : list? read (.array (xs.map write)) = some xs := by
  induction xs with
  | nil => rfl
  | cons x xs ih =>
    obtain ⟨hx, hxs⟩ := List.forall_mem_cons.mp h
    have ih := ih hxs
    rw [list?] at ih ⊢
    rw [List.map_cons, List.mapM_cons, hx, ih]
    rfl

def unlessEmpty (items : List Json) : Option Json :=
  if items.isEmpty then none else some (.array items)

theorem written_unlessEmpty (items : List Json) :
    optionalMember name (unlessEmpty items) =
      if items.isEmpty then [] else [(name, .array items)] := by
  cases items <;> rfl

theorem elim_unlessEmpty {α : Type} {read : Json → Option α} {write : α → Json} {xs : List α}
    (h : ∀ x ∈ xs, read (write x) = some x) :
    (unlessEmpty (xs.map write)).elim (some []) (list? read) = some xs := by
  cases xs with
  | nil => rfl
  | cons x xs => exact list?_map h

theorem natBelow?_of_lt {n bound : Nat} (h : n < bound) : natBelow? bound (.nat n) = some n :=
  if_pos h

mutual

theorem isReadable_of_isPlain : ∀ {j : Json}, j.IsPlain → j.isReadable = true
  | null, _ | bool _, _ | nat _, _ | string _, _ => rfl
  | array items, h => @allReadable_of_itemsPlain items h
  | object members, h => @allMembersReadable_of_membersPlain members h

theorem allReadable_of_itemsPlain : ∀ {items : List Json}, ItemsPlain items →
    allReadable items = true
  | [], _ => rfl
  | _ :: _, h => by
    rw [allReadable, isReadable_of_isPlain h.1, allReadable_of_itemsPlain h.2]
    rfl

theorem allMembersReadable_of_membersPlain : ∀ {members : List (String × Json)},
    MembersPlain members → allMembersReadable members = true
  | [], _ => rfl
  | (_, _) :: _, h => by
    rw [allMembersReadable, isReadable_of_isPlain h.1, allMembersReadable_of_membersPlain h.2]
    rfl

end

structure Fits (levels : Nat) (j : Json) : Prop where
  plain : j.IsPlain
  depth : j.depth ≤ levels

variable {n levels : Nat}

theorem wholly?_of_fits {j : Json} (h : j.Fits n) (hn : n ≤ levels) : j.wholly? levels = some j := by
  have hdepth : j.depth ≤ levels := h.depth.trans hn
  rw [wholly?, isReadable_of_isPlain h.plain, Bool.true_and, if_pos (decide_eq_true hdepth)]

theorem fits_string (s : String) : (string s).Fits n :=
  ⟨trivial, Nat.zero_le n⟩

theorem fits_bool (b : Bool) : (bool b).Fits n :=
  ⟨trivial, Nat.zero_le n⟩

theorem fits_null : null.Fits n :=
  ⟨trivial, Nat.zero_le n⟩

theorem fits_nat {k : Nat} (h : k < UInt64.size) : (nat k).Fits n :=
  ⟨h.trans (by decide +kernel), Nat.zero_le n⟩

theorem fits_array {items : List Json} (h : ∀ item ∈ items, item.Fits n) :
    (array items).Fits (n + 1) := by
  have hitems : ItemsPlain items ∧ depthOfItems items ≤ n := by
    induction items with
    | nil => exact ⟨trivial, Nat.zero_le n⟩
    | cons item items ih =>
      obtain ⟨hitem, hitems⟩ := List.forall_mem_cons.mp h
      obtain ⟨hplain, hdepth⟩ := ih hitems
      exact ⟨⟨hitem.plain, hplain⟩, max_le hitem.depth hdepth⟩
  exact ⟨hitems.1, Nat.succ_le_succ hitems.2⟩

theorem fits_object {members : List (String × Json)} (h : ∀ m ∈ members, m.2.Fits n) :
    (object members).Fits (n + 1) := by
  have hmembers : MembersPlain members ∧ depthOfMembers members ≤ n := by
    induction members with
    | nil => exact ⟨trivial, Nat.zero_le n⟩
    | cons m members ih =>
      obtain ⟨hvalue, hmembers⟩ := List.forall_mem_cons.mp h
      obtain ⟨hplain, hdepth⟩ := ih hmembers
      exact ⟨⟨hvalue.plain, hplain⟩, max_le hvalue.depth hdepth⟩
  exact ⟨hmembers.1, Nat.succ_le_succ hmembers.2⟩

theorem fits_written (h : ∀ field ∈ fields, ∀ value ∈ field.2, value.Fits n) :
    (object (written fields)).Fits (n + 1) :=
  fits_object fun _ hm => h _ (mem_written.mp hm) _ rfl

end Json

end EmailTemplates
