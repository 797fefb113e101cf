/-
Numbers with the comparisons of floating-point arithmetic.

Beside the values there are two infinities and a mark that is not a number. A
comparison with that mark is false, so a check that rejects a bad comparison lets it
pass: from refused comparisons a number is finite only if it is a number.
-/

import Mathlib

namespace Safire.Ieee

inductive Number (α : Type) where
  | finite (value : α)
  | posInf
  | negInf
  | nan
  deriving DecidableEq

namespace Number

variable {α : Type}

def IsFinite : Number α → Prop
  | finite _ => True
  | _ => False

instance : DecidablePred (IsFinite (α := α))
  | finite _ => isTrue trivial
  | posInf => isFalse id
  | negInf => isFalse id
  | nan => isFalse id

/-! ### Comparisons -/

def lt [LT α] [DecidableLT α] : Number α → Number α → Bool
  | finite left, finite right => decide (left < right)
  | finite _, posInf => true
  | negInf, finite _ => true
  | negInf, posInf => true
  | _, _ => false

def le [LE α] [DecidableLE α] : Number α → Number α → Bool
  | finite left, finite right => decide (left ≤ right)
  | nan, _ => false
  | _, nan => false
  | negInf, _ => true
  | _, posInf => true
  | _, _ => false

/-! ### Arithmetic without rounding -/

def add [Add α] : Number α → Number α → Number α
  | finite left, finite right => finite (left + right)
  | nan, _ => nan
  | _, nan => nan
  | posInf, negInf => nan
  | negInf, posInf => nan
  | posInf, _ => posInf
  | _, posInf => posInf
  | negInf, _ => negInf
  | _, negInf => negInf

def neg [Neg α] : Number α → Number α
  | finite value => finite (-value)
  | posInf => negInf
  | negInf => posInf
  | nan => nan

variable {number other : Number α}

theorem isFinite_iff : number.IsFinite ↔ ∃ value, number = finite value := by
  cases number with
  | finite value => exact iff_of_true trivial ⟨value, rfl⟩
  | posInf => simp [IsFinite]
  | negInf => simp [IsFinite]
  | nan => simp [IsFinite]

/-- Opposite infinities do not cancel, so a finite sum has finite parts. -/
theorem isFinite_add_iff [Add α] :
    (add number other).IsFinite ↔ number.IsFinite ∧ other.IsFinite := by
  cases number <;> cases other <;> simp [add, IsFinite]

theorem isFinite_neg_iff [Neg α] : (neg number).IsFinite ↔ number.IsFinite := by
  cases number <;> simp [neg, IsFinite]

/-! ### What refused comparisons leave -/

theorem isFinite_of_ne (notNan : number ≠ nan) (notLow : number ≠ negInf)
    (notHigh : number ≠ posInf) : number.IsFinite := by
  cases number with
  | finite value => exact trivial
  | posInf => exact absurd rfl notHigh
  | negInf => exact absurd rfl notLow
  | nan => exact absurd rfl notNan

/-- Where neither part lies below every value, a sum that is not infinite has finite parts. -/
theorem isFinite_of_add_ne_posInf [Add α] (notNan : number ≠ nan) (otherNotNan : other ≠ nan)
    (above : number ≠ negInf) (otherAbove : other ≠ negInf) (bounded : add number other ≠ posInf) :
    number.IsFinite ∧ other.IsFinite := by
  cases number <;> cases other <;> simp_all [add, IsFinite]

theorem ne_negInf_of_not_le [LE α] [DecidableLE α] {low : α}
    (refused : le number (finite low) = false) :
    number ≠ negInf := by
  intro same
  rw [same] at refused
  cases refused

section Refused

variable [LT α] [DecidableLT α] {low high : α}

theorem ne_negInf_of_not_lt (refused : lt number (finite low) = false) : number ≠ negInf := by
  intro same
  rw [same] at refused
  cases refused

theorem ne_posInf_of_not_lt (refused : lt (finite high) number = false) : number ≠ posInf := by
  intro same
  rw [same] at refused
  cases refused

/-- A number between two values. -/
theorem isFinite_of_not_lt (notNan : number ≠ nan) (above : lt number (finite low) = false)
    (below : lt (finite high) number = false) : number.IsFinite :=
  isFinite_of_ne notNan (ne_negInf_of_not_lt above) (ne_posInf_of_not_lt below)

end Refused

end Number

end Safire.Ieee
