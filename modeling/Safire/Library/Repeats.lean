/-
Repeated entries of a list.

The surplus of a list counts its entries beyond the first of each value, and its
highest repeat is the largest value that occurs twice. Both are kept by counting
alone: an entry that is new to the list changes neither, and an entry that is not
raises the surplus by one and the highest repeat to itself. The order does not matter.
-/

import Mathlib

namespace Safire.Repeats

variable {α : Type} [DecidableEq α]

/-! ### The surplus -/

/-- Entries beyond the first of each value. -/
def surplus (items : List α) : Int :=
  (items.dedup.map (fun item => (items.count item : Int) - 1)).sum

theorem surplus_eq (items : List α) :
    surplus items = (items.length : Int) - (items.dedup.length : Int) := by
  have total : (items.dedup.map fun item => (items.count item : Int)).sum = items.length := by
    have counts := List.sum_map_count_dedup_eq_length items
    have cast := congrArg (Nat.cast : Nat → Int) counts
    rw [Nat.cast_list_sum, List.map_map] at cast
    exact cast
  simp only [surplus, sub_eq_add_neg]
  rw [List.sum_map_add, total]
  simp

theorem surplus_nonneg (items : List α) : 0 ≤ surplus items := by
  have shorter := (List.dedup_sublist items).length_le
  rw [surplus_eq]
  omega

theorem surplus_cons_of_mem {item : α} {items : List α} (member : item ∈ items) :
    surplus (item :: items) = surplus items + 1 := by
  rw [surplus_eq, surplus_eq, List.dedup_cons_of_mem member, List.length_cons]
  omega

theorem surplus_cons_of_notMem {item : α} {items : List α} (fresh : item ∉ items) :
    surplus (item :: items) = surplus items := by
  rw [surplus_eq, surplus_eq, List.dedup_cons_of_notMem fresh, List.length_cons, List.length_cons]
  omega

theorem surplus_perm {left right : List α} (same : left.Perm right) :
    surplus left = surplus right := by
  rw [surplus_eq, surplus_eq, same.length_eq, same.dedup.length_eq]

theorem surplus_pos {item : α} {items : List α} (twice : List.Duplicate item items) :
    0 < surplus items := by
  have nodup : ¬ items.Nodup := fun single => List.nodup_iff_forall_not_duplicate.mp single item twice
  have shorter := (List.dedup_sublist items).length_le
  have different : items.dedup.length ≠ items.length := by
    intro same
    have whole := (List.dedup_sublist items).eq_of_length same
    exact nodup (whole ▸ List.nodup_dedup items)
  rw [surplus_eq]
  omega

/-! ### The highest repeat -/

section Order

variable [LinearOrder α] {bottom : α}

omit [DecidableEq α] in
theorem isGreatest_foldl_max (items : List α) (bottom : α) :
    IsGreatest (insert bottom {item | item ∈ items}) (items.foldl max bottom) := by
  induction items generalizing bottom with
  | nil => simp [IsGreatest, upperBounds]
  | cons first rest ih =>
      obtain ⟨reached, above⟩ := ih (max bottom first)
      constructor
      · cases reached with
        | inl top =>
            rw [List.foldl_cons, top]
            cases max_choice bottom first with
            | inl same => exact .inl same
            | inr same => exact .inr (by simp [same])
        | inr member => exact .inr (List.mem_cons_of_mem first member)
      · intro item listed
        have least : max bottom first ≤ rest.foldl max (max bottom first) := above (.inl rfl)
        cases listed with
        | inl same => exact same ▸ (le_max_left bottom first).trans least
        | inr member =>
            cases List.mem_cons.mp member with
            | inl same => exact same ▸ (le_max_right bottom first).trans least
            | inr later => exact above (.inr later)

/-- The largest value that occurs twice, or `bottom` where none above it does. -/
def highestRepeat (bottom : α) (items : List α) : α :=
  (items.dedup.filter (fun item => decide (1 < items.count item))).foldl max bottom

theorem isGreatest_highestRepeat (bottom : α) (items : List α) :
    IsGreatest (insert bottom {item | List.Duplicate item items}) (highestRepeat bottom items) := by
  have repeats : {item | item ∈ items.dedup.filter (fun item => decide (1 < items.count item))} =
      {item | List.Duplicate item items} := by
    ext item
    rw [Set.mem_ofPred_eq, Set.mem_ofPred_eq, List.mem_filter, List.mem_dedup,
      List.duplicate_iff_two_le_count, decide_eq_true_eq]
    constructor
    · exact And.right
    · intro twice
      exact ⟨List.count_pos_iff.mp (by omega), twice⟩
  rw [← repeats]
  exact isGreatest_foldl_max _ bottom

theorem highestRepeat_perm (bottom : α) {left right : List α} (same : left.Perm right) :
    highestRepeat bottom left = highestRepeat bottom right := by
  apply (isGreatest_highestRepeat bottom left).unique
  have repeats : {item | List.Duplicate item left} = {item | List.Duplicate item right} := by
    ext item
    rw [Set.mem_ofPred_eq, Set.mem_ofPred_eq, List.duplicate_iff_two_le_count,
      List.duplicate_iff_two_le_count, same.count_eq]
  rw [repeats]
  exact isGreatest_highestRepeat bottom right

theorem highestRepeat_cons_of_mem {item : α} {items : List α} (member : item ∈ items) :
    highestRepeat bottom (item :: items) = max (highestRepeat bottom items) item := by
  apply (isGreatest_highestRepeat bottom (item :: items)).unique
  obtain ⟨reached, above⟩ := isGreatest_highestRepeat bottom items
  constructor
  · cases max_choice (highestRepeat bottom items) item with
    | inr own =>
        rw [own]
        exact .inr (List.duplicate_cons_iff.mpr (.inl ⟨rfl, member⟩))
    | inl kept =>
        rw [kept]
        exact reached.imp id (fun twice => List.duplicate_cons_iff.mpr (.inr twice))
  · intro other listed
    cases listed with
    | inl same => exact le_max_of_le_left (above (.inl same))
    | inr twice =>
        cases List.duplicate_cons_iff.mp twice with
        | inl own => exact own.1 ▸ le_max_right _ _
        | inr old => exact le_max_of_le_left (above (.inr old))

theorem highestRepeat_cons_of_notMem {item : α} {items : List α} (fresh : item ∉ items) :
    highestRepeat bottom (item :: items) = highestRepeat bottom items := by
  apply (isGreatest_highestRepeat bottom (item :: items)).unique
  have repeats : {other | List.Duplicate other (item :: items)} =
      {other | List.Duplicate other items} := by
    ext other
    rw [Set.mem_ofPred_eq, Set.mem_ofPred_eq, List.duplicate_cons_iff]
    constructor
    · intro twice
      cases twice with
      | inl own => exact absurd own.2 (own.1 ▸ fresh)
      | inr old => exact old
    · exact .inr
  rw [repeats]
  exact isGreatest_highestRepeat bottom items

theorem le_highestRepeat {item : α} {items : List α} (twice : List.Duplicate item items) :
    item ≤ highestRepeat bottom items :=
  (isGreatest_highestRepeat bottom items).2 (.inr twice)

end Order

end Safire.Repeats
