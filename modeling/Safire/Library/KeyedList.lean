/-
Lists whose entries carry a key, updated at the first entry with a given key.

This is the shape of an array that a program searches for an index by key and
then assigns to. Where the keys are distinct, the update is a map.
-/

import Mathlib

namespace Safire

variable {α β κ : Type} [DecidableEq κ]

/-- Assign to the first entry with the key, if there is one. -/
def updateFirst (keyOf : α → κ) (change : α → α) (key : κ) : List α → List α
  | [] => []
  | entry :: rest =>
      if keyOf entry = key then change entry :: rest
      else entry :: updateFirst keyOf change key rest

namespace KeyedList

variable {keyOf : α → κ} {change : α → α} {key : κ}

theorem map_key_updateFirst (kept : ∀ entry, keyOf (change entry) = keyOf entry)
    (entries : List α) :
    (updateFirst keyOf change key entries).map keyOf = entries.map keyOf := by
  induction entries with
  | nil => rfl
  | cons entry rest ih =>
      rw [updateFirst]
      split
      · rw [List.map_cons, List.map_cons, kept]
      · rw [List.map_cons, List.map_cons, ih]

/-- An update commutes with a view of the entries that shows the key. -/
theorem updateFirst_map {keyOf' : β → κ} {change' : β → β} {view : α → β}
    (keys : ∀ entry, keyOf' (view entry) = keyOf entry)
    (commutes : ∀ entry, change' (view entry) = view (change entry)) (entries : List α) :
    updateFirst keyOf' change' key (entries.map view) =
      (updateFirst keyOf change key entries).map view := by
  induction entries with
  | nil => rfl
  | cons entry rest ih =>
      rw [List.map_cons, updateFirst, updateFirst, keys]
      split
      · rw [List.map_cons, commutes]
      · rw [List.map_cons, ih]

theorem mem_updateFirst {entries : List α} {entry : α}
    (member : entry ∈ updateFirst keyOf change key entries) :
    ∃ old ∈ entries, entry = old ∨ keyOf old = key ∧ entry = change old := by
  induction entries with
  | nil => cases member
  | cons first rest ih =>
      rw [updateFirst] at member
      split at member
      · rename_i keyed
        rcases List.mem_cons.mp member with changed | later
        · exact ⟨first, List.mem_cons_self, .inr ⟨keyed, changed⟩⟩
        · exact ⟨entry, List.mem_cons_of_mem _ later, .inl rfl⟩
      · rcases List.mem_cons.mp member with same | later
        · exact ⟨first, List.mem_cons_self, .inl same⟩
        · obtain ⟨old, inRest, found⟩ := ih later
          exact ⟨old, List.mem_cons_of_mem _ inRest, found⟩

theorem updateFirst_of_absent {entries : List α} (absent : key ∉ entries.map keyOf) :
    updateFirst keyOf change key entries = entries := by
  induction entries with
  | nil => rfl
  | cons entry rest ih =>
      rw [List.map_cons, List.mem_cons, not_or] at absent
      rw [updateFirst, if_neg (Ne.symm absent.1), ih absent.2]

theorem updateFirst_eq_map {entries : List α} (distinct : (entries.map keyOf).Nodup) :
    updateFirst keyOf change key entries =
      entries.map (fun entry => if keyOf entry = key then change entry else entry) := by
  induction entries with
  | nil => rfl
  | cons entry rest ih =>
      obtain ⟨fresh, later⟩ := List.nodup_cons.mp distinct
      rw [updateFirst, List.map_cons]
      by_cases found : keyOf entry = key
      · rw [if_pos found, if_pos found, ← ih later, updateFirst_of_absent (found ▸ fresh)]
      · rw [if_neg found, if_neg found, ih later]

theorem mem_of_lookup {γ : Type} [BEq γ] [LawfulBEq γ] {table : List (γ × β)} {item : γ} {value : β}
    (found : table.lookup item = some value) : (item, value) ∈ table := by
  obtain ⟨before, after, split, -⟩ := List.lookup_eq_some_iff.mp found
  rw [split]
  exact List.mem_append_right _ List.mem_cons_self

/-- A table of distinct values, extended by other values, is injective. -/
theorem lookup_getD_injective {γ : Type} [BEq γ] [LawfulBEq γ] {table : List (γ × β)}
    {other : γ → β}
    (values : (table.map Prod.snd).Nodup) (apart : ∀ entry ∈ table, ∀ item, entry.2 ≠ other item)
    (injective : Function.Injective other) :
    Function.Injective (fun item => (table.lookup item).getD (other item)) := by
  intro left right same
  dsimp only at same
  cases leftFound : table.lookup left with
  | none =>
      cases rightFound : table.lookup right with
      | none =>
          rw [leftFound, rightFound] at same
          exact injective same
      | some value =>
          rw [leftFound, rightFound] at same
          exact absurd same.symm (apart _ (mem_of_lookup rightFound) left)
  | some value =>
      cases rightFound : table.lookup right with
      | none =>
          rw [leftFound, rightFound] at same
          exact absurd same (apart _ (mem_of_lookup leftFound) right)
      | some otherValue =>
          rw [leftFound, rightFound] at same
          exact congrArg Prod.fst (List.inj_on_of_nodup_map values (mem_of_lookup leftFound)
            (mem_of_lookup rightFound) same)

end KeyedList

end Safire
