/-
Sorted lists of keys.

A store that lists its keys in order gives the same list for the same keys, so
a key above all others comes last. Numbers that are written with a fixed width
sort like their values.
-/

import Mathlib

namespace Safire.OrderedKeys

section Lists

variable {κ : Type} {cmp : κ → κ → Ordering}

def Sorted (cmp : κ → κ → Ordering) (keys : List κ) : Prop :=
  keys.Pairwise (fun left right => cmp left right = .lt)

theorem Sorted.sublist {keys fewer : List κ} (sorted : Sorted cmp keys)
    (part : fewer.Sublist keys) : Sorted cmp fewer :=
  List.Pairwise.sublist part sorted

theorem Sorted.snoc {keys : List κ} {key : κ} (sorted : Sorted cmp keys)
    (below : ∀ other ∈ keys, cmp other key = .lt) : Sorted cmp (keys ++ [key]) := by
  apply List.pairwise_append.mpr
  refine ⟨sorted, List.pairwise_singleton _ _, fun other member last single => ?_⟩
  rw [List.mem_singleton.mp single]
  exact below other member

variable [Std.LawfulEqCmp cmp]

theorem Sorted.nodup {keys : List κ} (sorted : Sorted cmp keys) : keys.Nodup := by
  apply List.Pairwise.imp _ sorted
  intro left right below same
  have equal : cmp right right = .eq := Std.ReflCmp.compare_self
  rw [same, equal] at below
  cases below

variable [Std.OrientedCmp cmp]

theorem eq_of_mem_iff {left right : List κ} (sorted : Sorted cmp left)
    (sorted' : Sorted cmp right) (same : ∀ key, key ∈ left ↔ key ∈ right) : left = right := by
  have perm := (List.perm_ext_iff_of_nodup sorted.nodup sorted'.nodup).mpr same
  apply perm.eq_of_pairwise _ sorted sorted'
  intro first second _ _ below above
  have swapped : cmp first second = (cmp second first).swap := Std.OrientedCmp.eq_swap
  rw [below, above] at swapped
  cases swapped

/-- The keys that a test selects, when a key above them is the only one that is added. -/
theorem eq_snoc_of_mem_iff {keys after : List κ} {key : κ} (sorted : Sorted cmp keys)
    (sorted' : Sorted cmp after) (below : ∀ other ∈ keys, cmp other key = .lt)
    (members : ∀ other, other ∈ after ↔ other ∈ keys ∨ other = key) : after = keys ++ [key] := by
  apply eq_of_mem_iff sorted' (sorted.snoc below)
  intro other
  rw [members, List.mem_append, List.mem_singleton]

end Lists

section Numerals

variable {α : Type} {base : Nat} {digit : α → Nat}

/-- The number that the digits stand for. -/
def value (base : Nat) (digit : α → Nat) (text : List α) : Nat :=
  text.foldl (fun value symbol => base * value + digit symbol) 0

theorem foldl_value (start : Nat) (text : List α) :
    text.foldl (fun value symbol => base * value + digit symbol) start =
      start * base ^ text.length + value base digit text := by
  induction text generalizing start with
  | nil => simp [value]
  | cons symbol rest ih =>
      rw [value, List.foldl_cons, List.foldl_cons, ih, ih (base * 0 + digit symbol),
        List.length_cons]
      ring

theorem value_cons (symbol : α) (rest : List α) :
    value base digit (symbol :: rest) =
      digit symbol * base ^ rest.length + value base digit rest := by
  rw [value, List.foldl_cons, foldl_value]
  simp

theorem value_lt {text : List α} (digits : ∀ symbol ∈ text, digit symbol < base) :
    value base digit text < base ^ text.length := by
  induction text with
  | nil => simp [value]
  | cons symbol rest ih =>
      have first := digits symbol List.mem_cons_self
      have later := ih fun other member => digits other (List.mem_cons_of_mem _ member)
      rw [value_cons, List.length_cons, pow_succ]
      calc digit symbol * base ^ rest.length + value base digit rest
          < digit symbol * base ^ rest.length + base ^ rest.length := by omega
        _ = (digit symbol + 1) * base ^ rest.length := by ring
        _ ≤ base * base ^ rest.length := Nat.mul_le_mul_right _ first
        _ = base ^ rest.length * base := Nat.mul_comm _ _

theorem compare_cons [Ord α] (left right : α) (first second : List α) :
    compare (left :: first) (right :: second) =
      (compare left right).then (compare first second) :=
  List.compareLex_cons_cons

variable [Ord α] [Std.LawfulEqOrd α]

theorem compare_append_left (front first second : List α) :
    compare (front ++ first) (front ++ second) = compare first second := by
  induction front with
  | nil => rfl
  | cons symbol rest ih =>
      rw [List.cons_append, List.cons_append, compare_cons, Std.ReflOrd.compare_self, ih]
      rfl

theorem compare_append_of_lt {left right : List α} (width : left.length = right.length)
    (below : compare left right = .lt) (first second : List α) :
    compare (left ++ first) (right ++ second) = .lt := by
  induction left generalizing right with
  | nil =>
      rw [List.length_eq_zero_iff.mp width.symm, Std.ReflOrd.compare_self] at below
      cases below
  | cons symbol rest ih =>
      cases right with
      | nil => cases width
      | cons other others =>
          rw [compare_cons] at below
          rw [List.cons_append, List.cons_append, compare_cons]
          cases order : compare symbol other with
          | lt => rfl
          | eq =>
              rw [order] at below
              exact ih (Nat.succ.inj width) below
          | gt =>
              rw [order] at below
              cases below

/-- Among texts of one width the one of the smaller number sorts first. -/
theorem compare_of_value_lt
    (increasing : ∀ left right : α, digit left < digit right → compare left right = .lt)
    {left right : List α} (width : left.length = right.length)
    (same : ∀ first ∈ left, ∀ second ∈ right, digit first = digit second → first = second)
    (digits : ∀ symbol ∈ right, digit symbol < base)
    (below : value base digit left < value base digit right) : compare left right = .lt := by
  induction left generalizing right with
  | nil =>
      rw [List.length_eq_zero_iff.mp width.symm] at below
      exact absurd below (Nat.lt_irrefl _)
  | cons symbol rest ih =>
      cases right with
      | nil => cases width
      | cons other others =>
          have widths := Nat.succ.inj width
          rw [value_cons, value_cons, widths] at below
          rw [compare_cons]
          rcases Nat.lt_trichotomy (digit symbol) (digit other) with less | equal | more
          · rw [increasing symbol other less]
            rfl
          · rw [same symbol List.mem_cons_self other List.mem_cons_self equal,
              Std.ReflOrd.compare_self]
            rw [equal] at below
            exact ih widths
              (fun first inRest second inOthers => same first (List.mem_cons_of_mem _ inRest)
                second (List.mem_cons_of_mem _ inOthers))
              (fun symbol member => digits symbol (List.mem_cons_of_mem _ member)) (by omega)
          · have bound := value_lt fun symbol member => digits symbol (List.mem_cons_of_mem other member)
            have step : (digit other + 1) * base ^ others.length ≤
                digit symbol * base ^ others.length := Nat.mul_le_mul_right _ more
            rw [Nat.add_mul] at step
            omega

end Numerals

end Safire.OrderedKeys
