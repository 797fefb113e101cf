/-
Slots in epochs of one size.

The boundary of a slot is the last slot of the epoch that lies `lag` epochs behind
its own, or the origin where there is none. Which boundaries cover a slot is a
question about epochs alone.
-/

import Mathlib.Algebra.Order.Ring.Int
import Mathlib.Tactic.Linarith
import Mathlib.Tactic.Ring

namespace Safire.Epochs

variable {size lag origin slot other : Int}

/-- The epoch of a slot, from the origin on. -/
def epoch (size origin slot : Int) : Int :=
  (slot - origin) / size

def boundary (size lag origin slot : Int) : Int :=
  if epoch size origin slot < lag then origin
  else origin + (epoch size origin slot - lag + 1) * size - 1

theorem le_epoch_iff (positive : 0 < size) {count : Int} :
    count ≤ epoch size origin slot ↔ origin + count * size ≤ slot := by
  rw [epoch, Int.le_ediv_iff_mul_le positive]
  constructor
  · intro above
    linarith
  · intro above
    linarith

theorem epoch_lt_iff (positive : 0 < size) {count : Int} :
    epoch size origin slot < count ↔ slot < origin + count * size := by
  rw [← not_le, le_epoch_iff positive, not_le]

theorem epoch_nonneg (positive : 0 < size) (reached : origin ≤ slot) :
    0 ≤ epoch size origin slot := by
  rw [le_epoch_iff positive]
  linarith

/-- A slot after the origin is covered from `lag` epochs after its own on. -/
theorem le_boundary_iff (positive : 0 < size) (after : origin < other) :
    other ≤ boundary size lag origin slot ↔
      origin + (epoch size origin other + lag) * size ≤ slot := by
  have own : 0 ≤ epoch size origin other := epoch_nonneg positive after.le
  rw [← le_epoch_iff positive, boundary]
  split
  · rename_i early
    constructor
    · intro covered
      exact absurd after (not_lt.mpr covered)
    · intro reached
      linarith
  · have covered : other ≤ origin + (epoch size origin slot - lag + 1) * size - 1 ↔
        epoch size origin other < epoch size origin slot - lag + 1 := by
      rw [epoch_lt_iff positive]
      constructor
      · intro below
        linarith
      · intro below
        have step := Int.add_one_le_iff.mpr below
        linarith
    rw [covered]
    constructor
    · intro below
      linarith [Int.add_one_le_iff.mpr below]
    · intro reached
      linarith

theorem origin_le_boundary (positive : 0 < size) : origin ≤ boundary size lag origin slot := by
  rw [boundary]
  split
  · exact le_rfl
  · rename_i lagged
    have whole : 1 * size ≤ (epoch size origin slot - lag + 1) * size :=
      mul_le_mul_of_nonneg_right (by linarith [not_lt.mp lagged]) positive.le
    linarith [Int.add_one_le_iff.mpr positive]

theorem boundary_mono (positive : 0 < size) (later : slot ≤ other) :
    boundary size lag origin slot ≤ boundary size lag origin other := by
  have start : origin ≤ boundary size lag origin slot := origin_le_boundary positive
  cases eq_or_lt_of_le start with
  | inl same =>
      rw [← same]
      exact origin_le_boundary positive
  | inr after =>
      rw [le_boundary_iff positive after]
      exact ((le_boundary_iff positive after).mp le_rfl).trans later

/-- The boundary stays `lag` epochs behind, less the epoch that it ends. -/
theorem boundary_behind (positive : 0 < size) (lagged : lag ≤ epoch size origin slot) :
    boundary size lag origin slot + (lag - 1) * size + 1 ≤ slot := by
  have own : origin + epoch size origin slot * size ≤ slot := (le_epoch_iff positive).mp le_rfl
  rw [boundary, if_neg (not_lt.mpr lagged)]
  calc origin + (epoch size origin slot - lag + 1) * size - 1 + (lag - 1) * size + 1
      = origin + epoch size origin slot * size := by ring
    _ ≤ slot := own

end Safire.Epochs
