/-
Loops whose body leaves or goes round again.

A body is a function into `Turn`. It is run with fuel, and an outcome counts how
often the body came to its end and whether it left the loop. A rank that falls
with every turn that goes round again gives the fuel that is enough.
-/

import Mathlib

namespace Safire.Turns

/-- One execution of a loop body. -/
inductive Turn (σ : Type) where
  | leave (state : σ)
  | again (state : σ)

def Turn.state {σ : Type} : Turn σ → σ
  | .leave state => state
  | .again state => state

/-- How a loop ended: the turns that went round again, whether the body left the
loop, and the last state. -/
structure Outcome (σ : Type) where
  repeated : Nat
  broke : Bool
  state : σ

variable {σ : Type}

def Outcome.iterations (outcome : Outcome σ) : Nat :=
  outcome.repeated + if outcome.broke = true then 1 else 0

theorem Outcome.iterations_le (outcome : Outcome σ) : outcome.iterations ≤ outcome.repeated + 1 := by
  unfold iterations
  split
  · exact le_refl _
  · exact Nat.le_succ _

/-- `while (enters) body`, with `none` where the fuel runs out. -/
def run (enters : σ → Bool) (body : σ → Turn σ) : Nat → σ → Option (Outcome σ)
  | 0, _ => none
  | fuel + 1, state =>
      if enters state = false then some ⟨0, false, state⟩
      else
        match body state with
        | .leave last => some ⟨0, true, last⟩
        | .again next =>
            (run enters body fuel next).map
              (fun outcome => { outcome with repeated := outcome.repeated + 1 })

variable {enters : σ → Bool} {body : σ → Turn σ}

/-- More fuel changes nothing about a loop that ended. -/
theorem run_mono {fuel more : Nat} (less : fuel ≤ more) {start : σ} {outcome : Outcome σ}
    (ended : run enters body fuel start = some outcome) :
    run enters body more start = some outcome := by
  induction fuel generalizing more start outcome with
  | zero => cases ended
  | succ fuel ih =>
      cases more with
      | zero => exact absurd less (Nat.not_succ_le_zero fuel)
      | succ more =>
          rw [run] at ended ⊢
          by_cases stops : enters start = false
          · rw [if_pos stops] at ended ⊢
            exact ended
          · rw [if_neg stops] at ended ⊢
            cases turn : body start with
            | leave last =>
                rw [turn] at ended
                exact ended
            | again next =>
                rw [turn] at ended
                dsimp only at ended ⊢
                obtain ⟨later, laterEnded, same⟩ := Option.map_eq_some_iff.mp ended
                rw [ih (Nat.le_of_succ_le_succ less) laterEnded, Option.map_some, same]

/-- The rank rule: fuel above the rank of the start is enough, and the loop goes
round again at most as often as the rank says. -/
theorem run_of_rank (rank : σ → Nat)
    (falls : ∀ state next, body state = .again next → rank next < rank state) {fuel : Nat}
    {start : σ} (enough : rank start < fuel) :
    ∃ outcome, run enters body fuel start = some outcome ∧ outcome.repeated ≤ rank start := by
  induction fuel generalizing start with
  | zero => exact absurd enough (Nat.not_lt_zero _)
  | succ fuel ih =>
      rw [run]
      by_cases stops : enters start = false
      · rw [if_pos stops]
        exact ⟨_, rfl, Nat.zero_le _⟩
      · rw [if_neg stops]
        cases turn : body start with
        | leave last => exact ⟨_, rfl, Nat.zero_le _⟩
        | again next =>
            have lower := falls start next turn
            obtain ⟨later, ended, bounded⟩ := ih (Nat.lt_of_lt_of_le lower (Nat.le_of_lt_succ enough))
            dsimp only
            rw [ended, Option.map_some]
            exact ⟨_, rfl, Nat.succ_le_of_lt (Nat.lt_of_le_of_lt bounded lower)⟩

/-! ### Loops with a bound

A rank that falls with every turn is enough fuel, so the loop is a function of the
first state. -/

/-- `while (enters) body` for a body whose turns lower the rank. -/
def loop (enters : σ → Bool) (body : σ → Turn σ) (rank : σ → Nat) (start : σ) : Outcome σ :=
  (run enters body (rank start + 1) start).getD ⟨0, false, start⟩

/-- The turns of a loop that is entered lower the rank. -/
def Falls (enters : σ → Bool) (body : σ → Turn σ) (rank : σ → Nat) : Prop :=
  ∀ state next, enters state = true → body state = .again next → rank next < rank state

variable {rank : σ → Nat}

theorem run_eq_loop (falls : Falls enters body rank) {fuel : Nat} {start : σ}
    (enough : rank start < fuel) : run enters body fuel start = some (loop enters body rank start) := by
  have ended : ∀ (fuel : Nat) (start : σ), rank start < fuel →
      ∃ outcome, run enters body fuel start = some outcome := by
    intro fuel
    induction fuel with
    | zero => exact fun _ enough => absurd enough (Nat.not_lt_zero _)
    | succ fuel ih =>
        intro start enough
        rw [run]
        by_cases stops : enters start = false
        · rw [if_pos stops]
          exact ⟨_, rfl⟩
        · rw [if_neg stops]
          cases turn : body start with
          | leave last => exact ⟨_, rfl⟩
          | again next =>
              have lower := falls start next (Bool.eq_true_of_not_eq_false stops) turn
              obtain ⟨later, same⟩ := ih next (Nat.lt_of_lt_of_le lower (Nat.le_of_lt_succ enough))
              dsimp only
              rw [same]
              exact ⟨_, rfl⟩
  obtain ⟨outcome, least⟩ := ended (rank start + 1) start (Nat.lt_succ_self _)
  rw [run_mono enough least, loop, least, Option.getD_some]

/-- The loop is unfolded once. -/
theorem loop_eq (falls : Falls enters body rank) (start : σ) :
    loop enters body rank start =
      if enters start = false then ⟨0, false, start⟩
      else
        match body start with
        | .leave last => ⟨0, true, last⟩
        | .again next =>
            let later := loop enters body rank next
            { later with repeated := later.repeated + 1 } := by
  have unfolded := run_eq_loop falls (Nat.lt_succ_self (rank start))
  rw [run] at unfolded
  by_cases stops : enters start = false
  · rw [if_pos stops] at unfolded ⊢
    exact (Option.some.inj unfolded).symm
  · rw [if_neg stops] at unfolded ⊢
    cases turn : body start with
    | leave last =>
        rw [turn] at unfolded
        exact (Option.some.inj unfolded).symm
    | again next =>
        have lower := falls start next (Bool.eq_true_of_not_eq_false stops) turn
        rw [turn] at unfolded
        dsimp only at unfolded ⊢
        rw [run_eq_loop falls lower, Option.map_some] at unfolded
        exact (Option.some.inj unfolded).symm

/-- The rule of invariants: what a turn keeps, the loop keeps. -/
theorem loop_invariant (falls : Falls enters body rank) (holds : σ → Prop)
    (keeps : ∀ state, holds state → enters state = true → holds (body state).state)
    (start : σ) (initially : holds start) : holds (loop enters body rank start).state := by
  induction size : rank start using Nat.strong_induction_on generalizing start with
  | _ _ ih =>
      rw [loop_eq falls]
      by_cases stops : enters start = false
      · rw [if_pos stops]
        exact initially
      · rw [if_neg stops]
        have entered := Bool.eq_true_of_not_eq_false stops
        cases turn : body start with
        | leave last =>
            have kept := keeps start initially entered
            rw [turn] at kept
            exact kept
        | again next =>
            have lower := falls start next entered turn
            have kept := keeps start initially entered
            rw [turn] at kept
            exact ih _ (size ▸ lower) next kept rfl

/-- The rule of costs: a loop that is entered only above rank zero costs at most as
many turns as the rank says. -/
theorem loop_cost (falls : Falls enters body rank) (cost : σ → Nat) {each : Nat}
    (positive : ∀ state, enters state = true → 0 < rank state)
    (paid : ∀ state, enters state = true → cost (body state).state ≤ cost state + each) (start : σ) : cost (loop enters body rank start).state ≤ cost start + each * rank start := by
  induction size : rank start using Nat.strong_induction_on generalizing start with
  | _ _ ih =>
      subst size
      rw [loop_eq falls]
      by_cases stops : enters start = false
      · rw [if_pos stops]
        exact Nat.le_add_right _ _
      · rw [if_neg stops]
        have entered := Bool.eq_true_of_not_eq_false stops
        have above := Nat.mul_le_mul_left each (positive start entered)
        have once := paid start entered
        cases turn : body start with
        | leave last =>
            rw [turn, Turn.state] at once
            dsimp only
            omega
        | again next =>
            rw [turn, Turn.state] at once
            have lower := falls start next entered turn
            have bound := ih _ lower next rfl
            have fewer := Nat.mul_le_mul_left each lower
            rw [Nat.mul_succ] at fewer
            dsimp only
            omega

/-- What a turn keeps, a loop that ends keeps. -/
theorem run_invariant {holds : σ → Prop} (keeps : ∀ state, holds state → holds (body state).state)
    {fuel : Nat} {start : σ} (initially : holds start) {outcome : Outcome σ}
    (ended : run enters body fuel start = some outcome) : holds outcome.state := by
  induction fuel generalizing start outcome with
  | zero => cases ended
  | succ fuel ih =>
      rw [run] at ended
      by_cases stops : enters start = false
      · rw [if_pos stops] at ended
        cases ended
        exact initially
      · rw [if_neg stops] at ended
        have kept := keeps start initially
        cases turn : body start with
        | leave last =>
            rw [turn] at ended kept
            cases ended
            exact kept
        | again next =>
            rw [turn] at ended kept
            obtain ⟨later, laterEnded, rfl⟩ := Option.map_eq_some_iff.mp ended
            have final : holds later.state := ih kept laterEnded
            exact final

end Safire.Turns
