/-
Runs of a system that takes one action after another.

The condition on an action may read the state in which the action is taken. What
every such action keeps holds after a run that starts with it. It may also read all the
actions before, for systems that remember where they have been.
-/

import Mathlib.Data.List.Basic
import Mathlib.Data.List.Induction

namespace Safire.Runs

variable {σ α : Type} {step : σ → α → σ} {condition : σ → α → Prop}

/-- Every action meets the condition in the state in which it is taken. -/
def Meets (step : σ → α → σ) (condition : σ → α → Prop) : σ → List α → Prop
  | _, [] => True
  | state, action :: rest => condition state action ∧ Meets step condition (step state action) rest

theorem meets_cons_iff {state : σ} {action : α} {rest : List α} :
    Meets step condition state (action :: rest) ↔
      condition state action ∧ Meets step condition (step state action) rest := Iff.rfl

theorem meets_append_iff {state : σ} {first second : List α} :
    Meets step condition state (first ++ second) ↔
      Meets step condition state first ∧ Meets step condition (first.foldl step state) second := by
  induction first generalizing state with
  | nil => exact (and_iff_right trivial).symm
  | cons action rest ih =>
      rw [List.cons_append, meets_cons_iff, meets_cons_iff, ih, List.foldl_cons, and_assoc]

/-- What every action that meets the condition keeps holds after the run. -/
theorem invariant {holds : σ → Prop}
    (keeps : ∀ state action, holds state → condition state action → holds (step state action))
    {start : σ} (initial : holds start) {actions : List α}
    (meets : Meets step condition start actions) : holds (actions.foldl step start) := by
  induction actions generalizing start with
  | nil => exact initial
  | cons action rest ih => exact ih (keeps start action initial meets.1) meets.2

/-- A condition that does not read the state is one on the list of actions. -/
theorem meets_of_forall {allowed : α → Prop} {actions : List α} (start : σ)
    (all : ∀ action ∈ actions, allowed action) :
    Meets step (fun _ action => allowed action) start actions := by
  induction actions generalizing start with
  | nil => exact trivial
  | cons action rest ih =>
      exact ⟨all action List.mem_cons_self,
        ih _ fun other member => all other (List.mem_cons_of_mem _ member)⟩

/-! ### Conditions on the past -/

variable {past : List α → α → Prop}

/-- Every action meets the condition after the actions before it. -/
def MeetsAfter (past : List α → α → Prop) (actions : List α) : Prop :=
  ∀ before action after, actions = before ++ action :: after → past before action

theorem meetsAfter_nil : MeetsAfter past ([] : List α) := by
  intro before action after place
  exact absurd place.symm (by simp)

theorem meetsAfter_snoc_iff {actions : List α} {last : α} :
    MeetsAfter past (actions ++ [last]) ↔ MeetsAfter past actions ∧ past actions last := by
  constructor
  · intro meets
    refine ⟨fun before action after place => ?_, meets actions last [] rfl⟩
    exact meets before action (after ++ [last]) (by rw [place]; simp)
  · rintro ⟨meets, final⟩ before action after place
    rcases List.eq_nil_or_concat after with rfl | ⟨front, other, rfl⟩
    · obtain ⟨rfl, same⟩ := List.append_inj' place rfl
      exact (List.cons.inj same).1 ▸ final
    · have split : actions ++ [last] = (before ++ action :: front) ++ [other] := by
        rw [place, List.concat_eq_append]
        simp
      exact meets before action front (List.append_inj' split rfl).1

/-- What holds at first and after every action, if it held at each earlier time,
holds at all times. -/
theorem invariant_of_past {holds : List α → Prop} (initial : holds [])
    (keeps : ∀ before action, (∀ earlier, earlier <+: before → holds earlier) →
      past before action → holds (before ++ [action])) {actions : List α}
    (meets : MeetsAfter past actions) : ∀ earlier, earlier <+: actions → holds earlier := by
  induction actions using List.reverseRecOn with
  | nil =>
      intro earlier start
      rw [List.prefix_nil.mp start]
      exact initial
  | append_singleton actions last ih =>
      obtain ⟨before, final⟩ := meetsAfter_snoc_iff.mp meets
      intro earlier start
      rcases List.prefix_concat_iff.mp start with rfl | older
      · exact keeps actions last (ih before) final
      · exact ih before earlier older

end Safire.Runs
