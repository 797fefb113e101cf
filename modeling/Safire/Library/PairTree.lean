/-
Trees over lists of distinct entries.

A level joins its entries two by two and an odd last entry with itself. Entries
that repeat would let two lists share a level, and distinct entries do not: where
joining is injective, lists with one root are equal, or one of them is a level
above the other.
-/

import Mathlib.Data.List.Nodup

namespace Safire.PairTree

variable {α : Type}

def pairs : List α → List (α × α)
  | [] => []
  | [last] => [(last, last)]
  | left :: right :: rest => (left, right) :: pairs rest

theorem length_pairs (entries : List α) : (pairs entries).length = (entries.length + 1) / 2 := by
  induction entries using pairs.induct with
  | case1 => simp [pairs]
  | case2 last => simp [pairs]
  | case3 left right rest ih =>
      rw [pairs, List.length_cons, ih, List.length_cons, List.length_cons]
      omega

theorem mem_of_mem_pairs {entries : List α} {pair : α × α} (member : pair ∈ pairs entries) :
    pair.1 ∈ entries ∧ pair.2 ∈ entries := by
  induction entries using pairs.induct with
  | case1 => cases member
  | case2 last =>
      rw [List.mem_singleton.mp member]
      exact ⟨List.mem_singleton_self _, List.mem_singleton_self _⟩
  | case3 left right rest ih =>
      rw [pairs, List.mem_cons] at member
      cases member with
      | inl first =>
          rw [first]
          exact ⟨List.mem_cons_self, List.mem_cons_of_mem _ List.mem_cons_self⟩
      | inr later =>
          have inside := ih later
          exact ⟨List.mem_cons_of_mem _ (List.mem_cons_of_mem _ inside.1),
            List.mem_cons_of_mem _ (List.mem_cons_of_mem _ inside.2)⟩

theorem nodup_pairs {entries : List α} (distinct : entries.Nodup) : (pairs entries).Nodup := by
  induction entries using pairs.induct with
  | case1 => exact List.nodup_nil
  | case2 last => exact List.nodup_singleton _
  | case3 left right rest ih =>
      obtain ⟨apart, later⟩ := List.nodup_cons.mp distinct
      rw [pairs, List.nodup_cons]
      constructor
      · intro again
        exact apart (List.mem_cons_of_mem _ (mem_of_mem_pairs again).1)
      · exact ih (List.nodup_cons.mp later).2

/-- Distinct entries are fixed by their pairs, whatever their number. -/
theorem pairs_injective {left right : List α} (leftDistinct : left.Nodup)
    (rightDistinct : right.Nodup) (same : pairs left = pairs right) : left = right := by
  induction left using pairs.induct generalizing right with
  | case1 =>
      match right with
      | [] => rfl
      | [_] => cases same
      | _ :: _ :: _ => cases same
  | case2 last =>
      match right with
      | [] => cases same
      | [other] =>
          have entry := (List.cons.inj same).1
          rw [(Prod.mk.inj entry).1]
      | first :: second :: rest =>
          -- The last entry joined with itself is no pair of distinct entries.
          have entry := Prod.mk.inj (List.cons.inj same).1
          have equal : first = second := entry.1.symm.trans entry.2
          rw [equal] at rightDistinct
          exact absurd List.mem_cons_self (List.nodup_cons.mp rightDistinct).1
  | case3 first second rest ih =>
      match right with
      | [] => cases same
      | [other] =>
          have entry := Prod.mk.inj (List.cons.inj same).1
          have equal : first = second := entry.1.trans entry.2.symm
          rw [equal] at leftDistinct
          exact absurd List.mem_cons_self (List.nodup_cons.mp leftDistinct).1
      | other :: another :: others =>
          have split := List.cons.inj same
          have entry := Prod.mk.inj split.1
          rw [entry.1, entry.2, ih (List.nodup_cons.mp (List.nodup_cons.mp leftDistinct).2).2
            (List.nodup_cons.mp (List.nodup_cons.mp rightDistinct).2).2 split.2]

section Join

variable (join : α → α → α)

def level (entries : List α) : List α :=
  (pairs entries).map (fun pair => join pair.1 pair.2)

/-- The entries that are left when no more than one is, or the rounds are up. -/
def rounds : Nat → List α → List α
  | 0, entries => entries
  | count + 1, entries =>
      if 1 < entries.length then rounds count (level join entries) else entries

theorem length_level (entries : List α) :
    (level join entries).length = (entries.length + 1) / 2 := by
  rw [level, List.length_map, length_pairs]

/-- Joining is injective on the pairs that are used. -/
def Injective (used : α × α → Prop) : Prop :=
  ∀ left right, used left → used right → join left.1 left.2 = join right.1 right.2 → left = right

/-- The levels above a list, each over a level with several entries that are used. -/
inductive Above (used : α × α → Prop) (entries : List α) : List α → Prop where
  | first : 1 < entries.length → (∀ pair ∈ pairs entries, used pair) →
      Above used entries (level join entries)
  | next {upper : List α} : Above used entries upper → 1 < upper.length →
      (∀ pair ∈ pairs upper, used pair) → Above used entries (level join upper)

variable {join} {used : α × α → Prop} {left right upper : List α}

theorem nodup_level (injective : Injective join used) (distinct : upper.Nodup)
    (covered : ∀ pair ∈ pairs upper, used pair) : (level join upper).Nodup :=
  List.Nodup.map_on
    (fun pair member other listed same =>
      injective pair other (covered pair member) (covered other listed) same)
    (nodup_pairs distinct)

theorem level_injective (injective : Injective join used) (leftDistinct : left.Nodup)
    (rightDistinct : right.Nodup) (leftCovered : ∀ pair ∈ pairs left, used pair)
    (rightCovered : ∀ pair ∈ pairs right, used pair) (same : level join left = level join right) :
    left = right := by
  apply pairs_injective leftDistinct rightDistinct
  have lengths : (pairs left).length = (pairs right).length := by
    rw [← List.length_map (fun pair : α × α => join pair.1 pair.2), ← level, same, level,
      List.length_map]
  apply List.ext_getElem lengths
  intro index leftBound rightBound
  apply injective _ _ (leftCovered _ (List.getElem_mem leftBound))
    (rightCovered _ (List.getElem_mem rightBound))
  have entries := List.getElem_of_eq same (by rwa [level, List.length_map])
  simpa only [level, List.getElem_map] using entries

theorem Above.nodup (injective : Injective join used) (distinct : right.Nodup)
    (above : Above join used right upper) : upper.Nodup := by
  induction above with
  | first _ covered => exact nodup_level injective distinct covered
  | next _ _ covered ih => exact nodup_level injective ih covered

/-- A level above the first level is above the list. -/
theorem Above.lift (several : 1 < right.length) (covered : ∀ pair ∈ pairs right, used pair)
    (above : Above join used (level join right) upper) : Above join used right upper := by
  induction above with
  | first more here => exact .next (.first several covered) more here
  | next _ more here ih => exact .next ih more here

/-- Every entry above a list is joined from a used pair. -/
theorem Above.joined (above : Above join used right upper) :
    ∀ entry ∈ upper, ∃ pair, used pair ∧ entry = join pair.1 pair.2 := by
  intro entry member
  cases above with
  | first _ covered =>
      obtain ⟨pair, listed, rfl⟩ := List.mem_map.mp member
      exact ⟨pair, covered pair listed, rfl⟩
  | next _ _ covered =>
      obtain ⟨pair, listed, rfl⟩ := List.mem_map.mp member
      exact ⟨pair, covered pair listed, rfl⟩

/-- The pairs that the rounds join are used. -/
def Covers (join : α → α → α) (used : α × α → Prop) : Nat → List α → Prop
  | 0, _ => True
  | count + 1, entries => 1 < entries.length →
      (∀ pair ∈ pairs entries, used pair) ∧ Covers join used count (level join entries)

/-- The rounds end in one entry, that of the list or of a level above it. -/
theorem rounds_above {count : Nat} {entries : List α} (enough : entries.length ≤ count)
    (present : entries ≠ []) (covers : Covers join used count entries) :
    ∃ root, rounds join count entries = [root] ∧
      (entries = [root] ∨ Above join used entries [root]) := by
  induction count generalizing entries with
  | zero => exact absurd (List.length_eq_zero_iff.mp (Nat.le_zero.mp enough)) present
  | succ count ih =>
      rw [rounds]
      by_cases several : 1 < entries.length
      · obtain ⟨here, later⟩ := covers several
        have shorter := length_level join entries
        have nonempty : level join entries ≠ [] := by
          intro empty
          rw [empty, List.length_nil] at shorter
          omega
        obtain ⟨root, ends, place⟩ := ih (by omega) nonempty later
        refine ⟨root, by rw [if_pos several, ends], .inr ?_⟩
        cases place with
        | inl first =>
            rw [← first]
            exact .first several here
        | inr upper => exact upper.lift several here
      · have one : entries.length = 1 := by
          have positive := List.length_pos_iff.mpr present
          omega
        obtain ⟨root, rfl⟩ := List.length_eq_one_iff.mp one
        exact ⟨root, by rw [if_neg several], .inl rfl⟩

theorem rounds_of_single {count : Nat} {root : α} : rounds join count [root] = [root] := by
  cases count with
  | zero => rfl
  | succ count => rw [rounds, if_neg (by simp)]

/-- A level that has the root of a single entry is that entry, or below it. -/
theorem eq_or_above_of_single {leftCount rightCount : Nat} (single : left.length ≤ 1)
    (leftPresent : left ≠ []) (enough : right.length ≤ rightCount) (present : right ≠ [])
    (covers : Covers join used rightCount right)
    (same : rounds join leftCount left = rounds join rightCount right) :
    left = right ∨ Above join used right left := by
  have positive := List.length_pos_iff.mpr leftPresent
  obtain ⟨entry, rfl⟩ := List.length_eq_one_iff.mp (by omega : left.length = 1)
  obtain ⟨root, ends, place⟩ := rounds_above enough present covers
  rw [rounds_of_single, ends] at same
  rw [same]
  exact place.imp Eq.symm id

/-- What stands below a level above another list is that list, or above it. -/
theorem above_of_level (injective : Injective join used) (leftDistinct : left.Nodup)
    (rightDistinct : right.Nodup) (several : 1 < left.length)
    (leftCovered : ∀ pair ∈ pairs left, used pair) (rightCovered : ∀ pair ∈ pairs right, used pair)
    (above : Above join used (level join left) (level join right)) :
    Above join used left right := by
  generalize reached : level join right = top at above
  cases above with
  | first more covered =>
      have same := level_injective injective rightDistinct
        (nodup_level injective leftDistinct leftCovered) rightCovered covered reached
      rw [same]
      exact .first several leftCovered
  | next upper more covered =>
      have lifted := upper.lift several leftCovered
      have same := level_injective injective rightDistinct (lifted.nodup injective leftDistinct)
        rightCovered covered reached
      rw [same]
      exact lifted

theorem level_ne_nil {entries : List α} (present : entries ≠ []) : level join entries ≠ [] := by
  intro empty
  have shorter := length_level join entries
  have positive := List.length_pos_iff.mpr present
  rw [empty, List.length_nil] at shorter
  omega

/-- Lists of distinct entries with one root are equal, or one is a level above the other. -/
theorem eq_or_above {leftCount rightCount : Nat} (injective : Injective join used)
    (leftEnough : left.length ≤ leftCount) (rightEnough : right.length ≤ rightCount)
    (leftPresent : left ≠ []) (rightPresent : right ≠ []) (leftDistinct : left.Nodup)
    (rightDistinct : right.Nodup) (leftCovers : Covers join used leftCount left)
    (rightCovers : Covers join used rightCount right)
    (same : rounds join leftCount left = rounds join rightCount right) :
    left = right ∨ Above join used left right ∨ Above join used right left := by
  induction leftCount generalizing rightCount left right with
  | zero => exact absurd (List.length_eq_zero_iff.mp (Nat.le_zero.mp leftEnough)) leftPresent
  | succ leftCount ih =>
      by_cases leftSeveral : 1 < left.length
      · by_cases rightSeveral : 1 < right.length
        · cases rightCount with
          | zero => omega
          | succ rightCount =>
              obtain ⟨leftHere, leftLater⟩ := leftCovers leftSeveral
              obtain ⟨rightHere, rightLater⟩ := rightCovers rightSeveral
              have leftShorter := length_level join left
              have rightShorter := length_level join right
              rw [rounds, rounds, if_pos leftSeveral, if_pos rightSeveral] at same
              have upper := ih (by omega) (by omega) (level_ne_nil leftPresent)
                (level_ne_nil rightPresent) (nodup_level injective leftDistinct leftHere)
                (nodup_level injective rightDistinct rightHere) leftLater rightLater same
              cases upper with
              | inl equal =>
                  exact .inl (level_injective injective leftDistinct rightDistinct leftHere
                    rightHere equal)
              | inr apart =>
                  right
                  cases apart with
                  | inl below =>
                      exact .inl (above_of_level injective leftDistinct rightDistinct leftSeveral
                        leftHere rightHere below)
                  | inr above =>
                      exact .inr (above_of_level injective rightDistinct leftDistinct rightSeveral
                        rightHere leftHere above)
        · cases eq_or_above_of_single (Nat.not_lt.mp rightSeveral) rightPresent leftEnough leftPresent
            leftCovers same.symm with
          | inl equal => exact .inl equal.symm
          | inr above => exact .inr (.inl above)
      · cases eq_or_above_of_single (Nat.not_lt.mp leftSeveral) leftPresent rightEnough rightPresent
          rightCovers same with
        | inl equal => exact .inl equal
        | inr above => exact .inr (.inr above)

end Join

end Safire.PairTree
