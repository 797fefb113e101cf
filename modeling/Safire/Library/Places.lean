/-
Places in a list and in the part of it that a test keeps.

An entry of a list without repeats is found at one place of the filtered list: the
number of kept entries before it. So two places show the same entry exactly if the
entry is kept and that number is the second place.
-/

import Mathlib

namespace Safire

namespace Places

variable {α : Type} {users : List α} {keep : α → Bool} {place place' : Nat} {user : α}

/-- An entry that is kept moves up by the entries before it that are not. -/
theorem getElem?_filter_of_kept (found : users[place]? = some user) (kept : keep user = true) :
    (users.filter keep)[((users.take place).filter keep).length]? = some user := by
  obtain ⟨inside, rfl⟩ := List.getElem?_eq_some_iff.mp found
  have split : users = users.take place ++ users[place] :: users.drop (place + 1) := by
    rw [List.getElem_cons_drop, List.take_append_drop]
  have kept' : users.filter keep = (users.take place).filter keep ++
      users[place] :: (users.drop (place + 1)).filter keep := by
    rw [← List.filter_cons_of_pos kept, ← List.filter_append, ← split]
  rw [kept', List.getElem?_append_right le_rfl, Nat.sub_self]
  rfl

theorem getElem?_eq_filter_iff (distinct : users.Nodup) (found : users[place]? = some user) :
    users[place]? = (users.filter keep)[place']? ↔
      keep user = true ∧ ((users.take place).filter keep).length = place' := by
  constructor
  · intro same
    have member := List.mem_of_getElem? (same.symm.trans found)
    have kept := (List.mem_filter.mp member).2
    have moved := getElem?_filter_of_kept found kept
    constructor
    · exact kept
    · have inside := (List.getElem?_eq_some_iff.mp moved).1
      apply (List.getElem?_inj inside (distinct.filter keep)).mp
      rw [moved, ← same, found]
  · intro both
    rw [found, ← both.2, getElem?_filter_of_kept found both.1]

/-- Of entries with distinct keys, a stricter test keeps those whose keys it leaves. -/
theorem map_filter_stricter {β : Type} [BEq β] [LawfulBEq β] {keyOf : α → β} {strict : α → Bool}
    (distinct : (users.map keyOf).Nodup) (stricter : ∀ user, strict user = true → keep user = true) :
    (users.filter strict).map keyOf =
      ((users.filter keep).map keyOf).filter
        (fun key => decide (key ∈ (users.filter strict).map keyOf)) := by
  rw [List.filter_map, List.filter_filter]
  apply congrArg (List.map keyOf)
  apply List.filter_congr
  intro user member
  rw [Bool.eq_iff_iff, Bool.and_eq_true, Function.comp_apply, decide_eq_true_iff]
  constructor
  · intro kept
    exact ⟨List.mem_map_of_mem (List.mem_filter.mpr ⟨member, kept⟩), stricter user kept⟩
  · intro both
    obtain ⟨other, listed, same⟩ := List.mem_map.mp both.1
    obtain ⟨present, kept⟩ := List.mem_filter.mp listed
    rw [← List.inj_on_of_nodup_map distinct present member same]
    exact kept

end Places

end Safire
