/-
Writes to a key-value store, one after another.

A journal is the list of the writes in their order. Where no key is written twice,
the store after a part of the journal agrees with the store after all of it on the
keys that the rest leaves as they were.
-/

import Mathlib.Data.List.Nodup
import Mathlib.Logic.Function.Basic

namespace Safire.Journal

variable {κ ν : Type} [DecidableEq κ]

def write (store : κ → Option ν) (entry : κ × ν) : κ → Option ν :=
  Function.update store entry.1 (some entry.2)

def replay (store : κ → Option ν) (journal : List (κ × ν)) : κ → Option ν :=
  journal.foldl write store

variable {store : κ → Option ν} {key : κ} {value : ν}

theorem replay_append (store : κ → Option ν) (earlier later : List (κ × ν)) :
    replay store (earlier ++ later) = replay (replay store earlier) later :=
  List.foldl_append

theorem replay_of_absent {journal : List (κ × ν)} (absent : key ∉ journal.map Prod.fst) :
    replay store journal key = store key := by
  induction journal generalizing store with
  | nil => rfl
  | cons entry rest ih =>
      rw [List.map_cons, List.mem_cons, not_or] at absent
      change replay (write store entry) rest key = store key
      rw [ih absent.2]
      exact Function.update_of_ne absent.1 _ _

theorem replay_of_mem {journal : List (κ × ν)} (distinct : (journal.map Prod.fst).Nodup)
    (member : (key, value) ∈ journal) : replay store journal key = some value := by
  induction journal generalizing store with
  | nil => cases member
  | cons entry rest ih =>
      obtain ⟨fresh, later⟩ := List.nodup_cons.mp distinct
      change replay (write store entry) rest key = some value
      cases List.mem_cons.mp member with
      | inl same =>
          subst same
          rw [replay_of_absent fresh]
          exact Function.update_self _ _ _
      | inr written => exact ih later written

/-- On a set of keys, the store after the first writes is the store after all of them
exactly where each later write repeats the value of its key. -/
theorem replay_take_agrees_iff {journal : List (κ × ν)} (distinct : (journal.map Prod.fst).Nodup)
    (cut : Nat) (kind : κ → Prop) :
    (∀ key, kind key → replay store (journal.take cut) key = replay store journal key) ↔
      ∀ entry ∈ journal.drop cut, kind entry.1 → store entry.1 = some entry.2 := by
  have parts : journal.take cut ++ journal.drop cut = journal := List.take_append_drop cut journal
  have apart : ∀ key ∈ (journal.drop cut).map Prod.fst, key ∉ (journal.take cut).map Prod.fst := by
    have both := distinct
    rw [← parts, List.map_append] at both
    intro key later earlier
    exact (List.disjoint_of_nodup_append both) earlier later
  constructor
  · intro agrees entry later allowed
    have kept := agrees entry.1 allowed
    rw [replay_of_absent (apart entry.1 (List.mem_map_of_mem later)),
      replay_of_mem distinct (List.mem_of_mem_drop later)] at kept
    exact kept
  · intro repeats key allowed
    by_cases later : key ∈ (journal.drop cut).map Prod.fst
    · obtain ⟨entry, member, named⟩ := List.mem_map.mp later
      subst named
      rw [replay_of_absent (apart entry.1 later),
        replay_of_mem distinct (List.mem_of_mem_drop member)]
      exact repeats entry member allowed
    · conv_rhs => rw [← parts, replay_append]
      rw [replay_of_absent later]

end Safire.Journal
