/-
Picking consecutive numbers out of a list.

A reader that goes through a list once and takes a number exactly when it
follows the last one taken gets as far as the list has consecutive numbers in
order, at any distance from each other.
-/

import Mathlib.Data.List.Basic
import Mathlib.Tactic.Linarith
import Mathlib.Tactic.Ring

namespace Safire.Sequence

/-- The `count` numbers after `start`. -/
def run (start : Int) : Nat → List Int
  | 0 => []
  | count + 1 => (start + 1) :: run (start + 1) count

theorem run_snoc (start : Int) (count : Nat) :
    run start (count + 1) = run start count ++ [start + count + 1] := by
  induction count generalizing start with
  | zero => simp [run]
  | succ count ih =>
      rw [run, ih, run, List.cons_append]
      congr 2
      push_cast
      ring_nf

theorem mem_run {start claim : Int} {count : Nat} (member : claim ∈ run start count) :
    start < claim ∧ claim ≤ start + count := by
  induction count generalizing start with
  | zero => cases member
  | succ count ih =>
      rw [run, List.mem_cons] at member
      cases member with
      | inl head => omega
      | inr later =>
          have bounds := ih later
          omega

/-- The number at a place of a run follows the ones before it. -/
theorem run_split {start claim : Int} {count : Nat} {before after : List Int}
    (split : run start count = before ++ claim :: after) :
    before = run start before.length ∧ claim = start + before.length + 1 := by
  induction before generalizing start count with
  | nil =>
      cases count with
      | zero => cases split
      | succ count =>
          have heads := List.cons.inj split
          exact ⟨rfl, by rw [← heads.1]; simp⟩
  | cons first rest ih =>
      cases count with
      | zero => cases split
      | succ count =>
          have heads := List.cons.inj split
          have later := ih heads.2
          constructor
          · rw [List.length_cons, run, ← heads.1, ← later.1]
          · rw [later.2, List.length_cons]
            omega

/-- The last number taken, after one more number is read. -/
def follow (last claim : Int) : Int :=
  if claim = last + 1 then claim else last

def advance (start : Int) (claims : List Int) : Int :=
  claims.foldl follow start

theorem advance_cons (start claim : Int) (rest : List Int) :
    advance start (claim :: rest) = advance (follow start claim) rest := rfl

theorem advance_append (start : Int) (first second : List Int) :
    advance start (first ++ second) = advance (advance start first) second :=
  List.foldl_append

theorem le_advance (start : Int) (claims : List Int) : start ≤ advance start claims := by
  induction claims generalizing start with
  | nil => exact le_refl start
  | cons claim rest ih =>
      have step : start ≤ follow start claim := by
        unfold follow
        split <;> omega
      exact step.trans (ih (follow start claim))

/-- The reader takes the whole of a run. -/
theorem advance_run (start : Int) (count : Nat) : advance start (run start count) = start + count := by
  induction count generalizing start with
  | zero => exact (Int.add_zero start).symm
  | succ count ih =>
      rw [run, advance_cons, follow, if_pos rfl, ih]
      omega

/-- The reader gets `count` numbers far exactly when they stand in the list in order. -/
theorem run_sublist_iff {start : Int} {count : Nat} {claims : List Int} :
    (run start count).Sublist claims ↔ start + count ≤ advance start claims := by
  induction claims generalizing start count with
  | nil =>
      change (run start count).Sublist [] ↔ start + count ≤ start
      rw [List.sublist_nil]
      cases count with
      | zero => simp [run]
      | succ count =>
          have longer : ¬ start + ((count + 1 : Nat) : Int) ≤ start := by omega
          simp only [run, reduceCtorEq, longer]
  | cons claim rest ih =>
      cases count with
      | zero =>
          have reached := le_advance start (claim :: rest)
          simp only [run, List.nil_sublist, true_iff]
          omega
      | succ count =>
          rw [advance_cons, follow, run]
          by_cases next : claim = start + 1
          · rw [if_pos next, next, List.cons_sublist_cons, ih]
            have moved : start + 1 + (count : Int) = start + ((count + 1 : Nat) : Int) := by omega
            rw [moved]
          · rw [if_neg next, List.cons_sublist_cons', ← ih, run]
            constructor
            · intro found
              cases found with
              | inl later => exact later
              | inr head => exact absurd head.1.symm next
            · exact .inl

/-- The list has the numbers between `start` and `last`, and not also `last` after them. -/
def Reaches (start last : Int) (claims : List Int) : Prop :=
  (run start (last - start - 1).toNat).Sublist claims ∧
    ¬ (run start (last - start).toNat).Sublist claims

/-- The next number that the reader takes is `last` exactly when the list reaches it. -/
theorem advance_eq_iff {start last : Int} {claims : List Int} (above : start < last) :
    advance start claims + 1 = last ↔ Reaches start last claims := by
  rw [Reaches, run_sublist_iff, run_sublist_iff]
  omega

end Safire.Sequence
