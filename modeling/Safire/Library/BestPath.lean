/-
Best paths along the edges of a relation.

A path is better if it is longer, then if it ends on a larger weight, then if it
takes the preferred node where the two first differ. The rules below build an
optimal path from the optimal paths of the next nodes, as a table over the nodes
does when every edge leads to a node that is already in the table.
-/

import Mathlib

namespace Safire.BestPath

variable {α : Type} (edge : α → α → Prop) (weight : α → Int) (prefer : α → α → Prop)

/-- A path along the edges that begins at one of the starts. -/
structure PathFrom (starts : α → Prop) (path : List α) : Prop where
  linked : path.IsChain edge
  begins : ∃ first, path.head? = some first ∧ starts first

def endWeight (path : List α) : Int :=
  (path.getLast?.map weight).getD 0

/-- The first nodes in which two paths differ, with the preferred one on the first path. -/
def Diverges (path other : List α) : Prop :=
  ∃ place first second, path.take place = other.take place ∧ path[place]? = some first ∧
    other[place]? = some second ∧ prefer first second

def Beats (path other : List α) : Prop :=
  other.length < path.length ∨ other.length = path.length ∧
    (endWeight weight other < endWeight weight path ∨
      endWeight weight other = endWeight weight path ∧ Diverges prefer path other)

structure Optimal (starts : α → Prop) (path : List α) : Prop where
  isPath : PathFrom edge starts path
  best : ∀ other, PathFrom edge starts other → other = path ∨ Beats weight prefer path other

/-- One start with its path is ahead of another with its own. -/
def Ahead (first : α) (path : List α) (second : α) (other : List α) : Prop :=
  other.length < path.length ∨ other.length = path.length ∧
    (endWeight weight other < endWeight weight path ∨
      endWeight weight other = endWeight weight path ∧ prefer first second)

variable {edge weight prefer}

theorem pathFrom_cons {starts : α → Prop} {path : List α} (isPath : PathFrom edge starts path) :
    ∃ first rest, path = first :: rest ∧ starts first := by
  obtain ⟨first, head, start⟩ := isPath.begins
  obtain ⟨rest, rfl⟩ := List.head?_eq_some_iff.mp head
  exact ⟨first, rest, rfl, start⟩

theorem pathFrom_cons_cons {starts : α → Prop} {first second : α} {rest : List α} :
    PathFrom edge starts (first :: second :: rest) ↔
      starts first ∧ PathFrom edge (edge first) (second :: rest) := by
  constructor
  · intro isPath
    obtain ⟨step, linked⟩ := List.isChain_cons_cons.mp isPath.linked
    obtain ⟨_, head, start⟩ := isPath.begins
    cases head
    exact ⟨start, linked, second, rfl, step⟩
  · rintro ⟨start, linked, _, head, step⟩
    cases head
    exact ⟨List.isChain_cons_cons.mpr ⟨step, linked⟩, first, rfl, start⟩

theorem endWeight_cons {first : α} {rest : List α} (more : rest ≠ []) :
    endWeight weight (first :: rest) = endWeight weight rest := by
  obtain ⟨second, rest, rfl⟩ := List.exists_cons_of_ne_nil more
  rw [endWeight, endWeight, List.getLast?_cons_cons]

theorem Diverges.cons {first : α} {path other : List α} (diverges : Diverges prefer path other) :
    Diverges prefer (first :: path) (first :: other) := by
  obtain ⟨place, left, right, shared, here, there, preferred⟩ := diverges
  exact ⟨place + 1, left, right, by rw [List.take_succ_cons, List.take_succ_cons, shared],
    by simpa using here, by simpa using there, preferred⟩

theorem Beats.cons {first : α} {path other : List α} (pathMore : path ≠ []) (otherMore : other ≠ [])
    (beats : Beats weight prefer path other) :
    Beats weight prefer (first :: path) (first :: other) := by
  unfold Beats
  rw [List.length_cons, List.length_cons, endWeight_cons pathMore, endWeight_cons otherMore]
  rcases beats with longer | ⟨sameLength, heavier | ⟨sameEnd, diverges⟩⟩
  · exact .inl (by omega)
  · exact .inr ⟨by omega, .inl heavier⟩
  · exact .inr ⟨by omega, .inr ⟨sameEnd, diverges.cons⟩⟩

/-! ### Optimal paths are unique -/

section Unique

variable (asymmetric : ∀ left right, prefer left right → ¬ prefer right left)
include asymmetric

theorem Diverges.asymm {path other : List α} (diverges : Diverges prefer path other) :
    ¬ Diverges prefer other path := by
  obtain ⟨place, first, second, shared, here, there, preferred⟩ := diverges
  rintro ⟨place', second', first', shared', there', here', preferred'⟩
  -- before the place of a divergence the two paths agree, so the places are equal
  have agree : ∀ {left right : List α} {place index : Nat}, left.take place = right.take place →
      index < place → left[index]? = right[index]? := by
    intro left right place index same below
    rw [← List.getElem?_take_of_lt (l := left) below, same, List.getElem?_take_of_lt below]
  rcases Nat.lt_trichotomy place place' with below | rfl | above
  · have same := agree shared' below
    rw [here, there, Option.some.injEq] at same
    exact asymmetric _ _ preferred (same ▸ preferred)
  · rw [here, Option.some.injEq] at here'
    rw [there, Option.some.injEq] at there'
    subst here' there'
    exact asymmetric _ _ preferred preferred'
  · have same := agree shared above
    rw [here', there', Option.some.injEq] at same
    exact asymmetric _ _ preferred' (same ▸ preferred')

theorem Beats.asymm {path other : List α} (beats : Beats weight prefer path other) :
    ¬ Beats weight prefer other path := by
  rintro (longer | ⟨sameLength, heavier | ⟨sameEnd, diverges⟩⟩)
  · rcases beats with longer' | ⟨sameLength, -⟩ <;> omega
  · rcases beats with longer' | ⟨sameLength', heavier' | ⟨sameEnd, -⟩⟩ <;> omega
  · rcases beats with longer' | ⟨sameLength', heavier' | ⟨sameEnd', diverges'⟩⟩
    · omega
    · omega
    · exact diverges.asymm asymmetric diverges'

theorem Optimal.unique {starts : α → Prop} {path other : List α}
    (optimal : Optimal edge weight prefer starts path)
    (alsoOptimal : Optimal edge weight prefer starts other) : path = other := by
  rcases optimal.best other alsoOptimal.isPath with same | beats
  · exact same.symm
  · rcases alsoOptimal.best path optimal.isPath with same | beaten
    · exact same
    · exact absurd beaten (beats.asymm asymmetric)

theorem Diverges.of_cons {first : α} {path other : List α}
    (diverges : Diverges prefer (first :: path) (first :: other)) : Diverges prefer path other := by
  obtain ⟨place, left, right, shared, here, there, preferred⟩ := diverges
  cases place with
  | zero =>
      cases here
      cases there
      exact absurd preferred (asymmetric _ _ preferred)
  | succ place =>
      rw [List.take_succ_cons, List.take_succ_cons] at shared
      exact ⟨place, left, right, (List.cons.inj shared).2, by simpa using here,
        by simpa using there, preferred⟩

/-- What follows the first node of an optimal path is optimal from there. -/
theorem Optimal.tail {first second : α} {rest : List α}
    (optimal : Optimal edge weight prefer (· = first) (first :: second :: rest)) :
    Optimal edge weight prefer (· = second) (second :: rest) := by
  obtain ⟨step, linked⟩ := List.isChain_cons_cons.mp optimal.isPath.linked
  refine ⟨⟨linked, second, rfl, rfl⟩, ?_⟩
  intro other isPath
  obtain ⟨head, tail, rfl, rfl⟩ := pathFrom_cons isPath
  have longer : PathFrom edge (· = first) (first :: head :: tail) :=
    pathFrom_cons_cons.mpr ⟨rfl, isPath.linked, head, rfl, step⟩
  rcases optimal.best _ longer with same | beats
  · exact .inl (List.cons.inj same).2
  · right
    unfold Beats at beats ⊢
    rw [endWeight_cons (List.cons_ne_nil _ _), endWeight_cons (List.cons_ne_nil _ _)] at beats
    simp only [List.length_cons] at beats ⊢
    rcases beats with longer | ⟨sameLength, heavier | ⟨sameEnd, diverges⟩⟩
    · exact .inl (by omega)
    · exact .inr ⟨by omega, .inl heavier⟩
    · exact .inr ⟨by omega, .inr ⟨sameEnd, diverges.of_cons asymmetric⟩⟩

end Unique

/-! ### Building optimal paths -/

/-- The path of a start that is ahead of all others is optimal among all starts. -/
theorem optimal_of_ahead {starts : α → Prop} {chosen : α} {path : List α} (start : starts chosen)
    (optimal : Optimal edge weight prefer (· = chosen) path)
    (ahead : ∀ other, starts other → other ≠ chosen → ∃ otherPath,
      Optimal edge weight prefer (· = other) otherPath ∧
        Ahead weight prefer chosen path other otherPath) :
    Optimal edge weight prefer starts path := by
  obtain ⟨chosen', rest, rfl, rfl⟩ := pathFrom_cons optimal.isPath
  refine ⟨⟨optimal.isPath.linked, _, rfl, start⟩, ?_⟩
  intro candidate isPath
  obtain ⟨first, tail, rfl, starting⟩ := pathFrom_cons isPath
  have fromFirst : PathFrom edge (· = first) (first :: tail) := ⟨isPath.linked, first, rfl, rfl⟩
  by_cases same : first = chosen'
  · subst same
    exact optimal.best _ fromFirst
  · right
    obtain ⟨otherPath, otherOptimal, leads⟩ := ahead first starting same
    have diverges : prefer chosen' first → Diverges prefer (chosen' :: rest) (first :: tail) :=
      fun preferred => ⟨0, chosen', first, rfl, rfl, rfl, preferred⟩
    rcases otherOptimal.best _ fromFirst with rfl | beaten
    · rcases leads with longer | ⟨sameLength, heavier | ⟨sameEnd, preferred⟩⟩
      · exact .inl longer
      · exact .inr ⟨sameLength, .inl heavier⟩
      · exact .inr ⟨sameLength, .inr ⟨sameEnd, diverges preferred⟩⟩
    · rcases leads with longer | ⟨sameLength, heavier | ⟨sameEnd, preferred⟩⟩ <;>
        rcases beaten with longer' | ⟨sameLength', heavier' | ⟨sameEnd', -⟩⟩
      all_goals first
        | exact .inl (by omega)
        | exact .inr ⟨by omega, .inl (by omega)⟩
        | exact .inr ⟨by omega, .inr ⟨by omega, diverges preferred⟩⟩

theorem optimal_cons {first : α} {path : List α}
    (optimal : Optimal edge weight prefer (edge first) path) :
    Optimal edge weight prefer (· = first) (first :: path) := by
  obtain ⟨second, rest, rfl, step⟩ := pathFrom_cons optimal.isPath
  refine ⟨pathFrom_cons_cons.mpr ⟨rfl, optimal.isPath⟩, ?_⟩
  intro candidate isPath
  obtain ⟨head, tail, rfl, rfl⟩ := pathFrom_cons isPath
  cases tail with
  | nil => exact .inr (.inl (by simp))
  | cons next tail =>
      obtain ⟨-, isTail⟩ := pathFrom_cons_cons.mp isPath
      rcases optimal.best _ isTail with same | beats
      · exact .inl (by rw [same])
      · exact .inr (beats.cons (List.cons_ne_nil _ _) (List.cons_ne_nil _ _))

theorem optimal_singleton {first : α} (last : ∀ next, ¬ edge first next) :
    Optimal edge weight prefer (· = first) [first] := by
  refine ⟨⟨List.isChain_singleton first, first, rfl, rfl⟩, ?_⟩
  intro candidate isPath
  obtain ⟨head, tail, rfl, rfl⟩ := pathFrom_cons isPath
  cases tail with
  | nil => exact .inl rfl
  | cons next tail =>
      exact absurd (List.isChain_cons_cons.mp isPath.linked).1 (last next)

end Safire.BestPath
