/-
Searching a list for a sublist.

A text is clear of a needle when no occurrence of the needle begins inside it.
What follows the text counts, since an occurrence may run over its end. A text
stays clear when its front is cut off, which is what a scanner that restarts in
the middle of its input relies on.
-/

import Mathlib

namespace Safire.Search

variable {α : Type} {needle text rest : List α}

/-- No occurrence of the needle begins inside `text` when `rest` follows it. -/
def Clear (needle text rest : List α) : Prop :=
  ∀ start < text.length, ¬ needle <+: text.drop start ++ rest

theorem clear_nil : Clear needle [] rest := by
  intro start inside
  exact absurd inside (Nat.not_lt_zero start)

theorem clear_cons_iff {symbol : α} :
    Clear needle (symbol :: text) rest ↔
      ¬ needle <+: symbol :: text ++ rest ∧ Clear needle text rest := by
  constructor
  · intro clear
    refine ⟨clear 0 (by simp), fun start inside => ?_⟩
    exact clear (start + 1) (by simpa using inside)
  · rintro ⟨first, clear⟩ start inside
    cases start with
    | zero => exact first
    | succ start => exact clear start (by simpa using inside)

theorem clear_append_iff {more : List α} :
    Clear needle (text ++ more) rest ↔ Clear needle text (more ++ rest) ∧ Clear needle more rest := by
  induction text with
  | nil => simp [clear_nil]
  | cons symbol text ih =>
      rw [List.cons_append, clear_cons_iff, clear_cons_iff, ih, List.cons_append, List.cons_append,
        List.append_assoc, and_assoc]

theorem Clear.append {more : List α} (front : Clear needle text (more ++ rest))
    (back : Clear needle more rest) : Clear needle (text ++ more) rest :=
  clear_append_iff.mpr ⟨front, back⟩

theorem Clear.drop (clear : Clear needle text rest) (count : Nat) :
    Clear needle (text.drop count) rest := by
  intro start inside
  rw [List.drop_drop]
  refine clear (count + start) ?_
  rw [List.length_drop] at inside
  omega

/-- A text without the first symbol of the needle is clear of it. -/
theorem clear_of_notMem {symbol : α} {more : List α} (absent : symbol ∉ text) :
    Clear (symbol :: more) text rest := by
  induction text with
  | nil => exact clear_nil
  | cons other text ih =>
      rw [List.mem_cons, not_or] at absent
      refine clear_cons_iff.mpr ⟨fun found => ?_, ih absent.2⟩
      exact absent.1 (List.cons_prefix_cons.mp found).1

theorem clear_iff_not_infix (present : needle ≠ []) : Clear needle text [] ↔ ¬ needle <:+: text := by
  induction text with
  | nil =>
      have absent : ¬ needle <:+: [] := fun found => present (List.infix_nil.mp found)
      exact ⟨fun _ => absent, fun _ => clear_nil⟩
  | cons symbol text ih => rw [clear_cons_iff, List.append_nil, ih, List.infix_cons_iff, not_or]

section Separator

variable {separator : α} (absent : separator ∉ needle)
include absent

theorem prefix_separated_iff : needle <+: text ++ separator :: rest ↔ needle <+: text := by
  induction text generalizing needle with
  | nil =>
      cases needle with
      | nil => exact ⟨fun _ => List.nil_prefix, fun _ => List.nil_prefix⟩
      | cons first more =>
          rw [List.mem_cons, not_or] at absent
          constructor
          · intro found
            exact absurd (List.cons_prefix_cons.mp found).1.symm absent.1
          · intro found
            cases List.prefix_nil.mp found
  | cons symbol text ih =>
      cases needle with
      | nil => exact ⟨fun _ => List.nil_prefix, fun _ => List.nil_prefix⟩
      | cons first more =>
          rw [List.mem_cons, not_or] at absent
          rw [List.cons_append, List.cons_prefix_cons, List.cons_prefix_cons, ih absent.2]

variable (present : needle ≠ [])
include present

theorem infix_separator_cons_iff : needle <:+: separator :: text ↔ needle <:+: text := by
  rw [List.infix_cons_iff, or_iff_right]
  intro found
  have before : needle <+: [] ++ separator :: text := found
  exact present (List.prefix_nil.mp ((prefix_separated_iff absent).mp before))

/-- A needle without the separator stands on one side of it. -/
theorem infix_separated_iff :
    needle <:+: text ++ separator :: rest ↔ needle <:+: text ∨ needle <:+: rest := by
  induction text with
  | nil =>
      rw [List.nil_append, infix_separator_cons_iff absent present, List.infix_nil]
      exact (or_iff_right present).symm
  | cons symbol text ih =>
      rw [List.cons_append, List.infix_cons_iff, ih, List.infix_cons_iff, ← List.cons_append,
        prefix_separated_iff absent, or_assoc]

end Separator

/-- Two texts without the separator that agree up to it are equal. -/
theorem eq_of_separated {separator : α} {left right leftRest rightRest : List α}
    (leftFree : separator ∉ left) (rightFree : separator ∉ right)
    (found : left ++ separator :: leftRest <+: right ++ separator :: rightRest) :
    left = right ∧ leftRest <+: rightRest := by
  induction left generalizing right with
  | nil =>
      cases right with
      | nil => exact ⟨rfl, (List.cons_prefix_cons.mp found).2⟩
      | cons symbol right =>
          have same := (List.cons_prefix_cons.mp found).1
          rw [same] at rightFree
          exact absurd List.mem_cons_self rightFree
  | cons symbol left ih =>
      rw [List.mem_cons, not_or] at leftFree
      cases right with
      | nil => exact absurd (List.cons_prefix_cons.mp found).1.symm leftFree.1
      | cons other right =>
          rw [List.mem_cons, not_or] at rightFree
          obtain ⟨same, later⟩ := List.cons_prefix_cons.mp found
          obtain ⟨tails, rests⟩ := ih leftFree.2 rightFree.2 later
          exact ⟨by rw [same, tails], rests⟩

end Safire.Search
