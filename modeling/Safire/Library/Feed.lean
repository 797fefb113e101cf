/-
Machines that take one symbol after another until they give a result.

The symbols behind the one that gave the result are left over. How a text is cut
into pieces does not matter to such a machine, and what it accepts is read off its
states one after the other.
-/

import Mathlib.Data.List.Basic

namespace Safire.Feed

variable {σ α ρ : Type}

/-- What one symbol leads to. -/
inductive Verdict (σ ρ : Type) where
  | more (state : σ)
  | done (result : ρ)
  deriving DecidableEq, Repr

/-- The symbols are taken until there is a result, with the symbols left over. -/
def feed (step : σ → α → Verdict σ ρ) : σ → List α → Verdict σ (ρ × List α)
  | state, [] => .more state
  | state, symbol :: rest =>
      match step state symbol with
      | .more next => feed step next rest
      | .done result => .done (result, rest)

variable {step : σ → α → Verdict σ ρ} {state next : σ} {result : ρ} {symbol : α}
variable {text rest first second : List α}

theorem feed_cons_more (stepped : step state symbol = .more next) :
    feed step state (symbol :: rest) = feed step next rest := by
  rw [feed, stepped]

theorem feed_cons_done (stepped : step state symbol = .done result) :
    feed step state (symbol :: rest) = .done (result, rest) := by
  rw [feed, stepped]

/-! ### Pieces -/

theorem feed_append_more (fed : feed step state first = .more next) :
    feed step state (first ++ second) = feed step next second := by
  induction first generalizing state with
  | nil =>
      cases fed
      rfl
  | cons symbol later ih =>
      cases stepped : step state symbol with
      | more following =>
          rw [feed_cons_more stepped] at fed
          rw [List.cons_append, feed_cons_more stepped]
          exact ih fed
      | done other =>
          rw [feed_cons_done stepped] at fed
          cases fed

theorem feed_append_done (fed : feed step state first = .done (result, rest)) :
    feed step state (first ++ second) = .done (result, rest ++ second) := by
  induction first generalizing state with
  | nil => cases fed
  | cons symbol later ih =>
      cases stepped : step state symbol with
      | more following =>
          rw [feed_cons_more stepped] at fed
          rw [List.cons_append, feed_cons_more stepped]
          exact ih fed
      | done other =>
          rw [feed_cons_done stepped] at fed
          cases fed
          rw [List.cons_append, feed_cons_done stepped]

/-- The symbol that gives the result is the first of the text that is not fed. -/
theorem feed_done_iff :
    feed step state text = .done (result, rest) ↔
      ∃ front symbol last, text = front ++ symbol :: rest ∧ feed step state front = .more last ∧
        step last symbol = .done result := by
  constructor
  · intro fed
    induction text generalizing state with
    | nil => cases fed
    | cons symbol later ih =>
        cases stepped : step state symbol with
        | more following =>
            rw [feed_cons_more stepped] at fed
            obtain ⟨front, other, last, split, before, finished⟩ := ih fed
            refine ⟨symbol :: front, other, last, by rw [split, List.cons_append], ?_, finished⟩
            rw [feed_cons_more stepped, before]
        | done other =>
            rw [feed_cons_done stepped] at fed
            cases fed
            exact ⟨[], symbol, state, rfl, rfl, stepped⟩
  · rintro ⟨front, symbol, last, rfl, before, finished⟩
    rw [feed_append_more before, feed_cons_done finished]

/-! ### What is read in a state

The result is one that no refusal gives, so the symbols are those that the states
let through. -/

section Accepted

variable (refusal : ρ → Prop)

/-- A state that lets one symbol of a kind through. -/
theorem feed_one_iff (allowed : α → Prop) (following : α → σ) (refused : ¬ refusal result)
    (takes : ∀ symbol, allowed symbol → step state symbol = .more (following symbol))
    (others : ∀ symbol, ¬ allowed symbol → ∃ refused, step state symbol = .done refused ∧ refusal refused) :
    feed step state text = .done (result, rest) ↔
      ∃ symbol later, text = symbol :: later ∧ allowed symbol ∧
        feed step (following symbol) later = .done (result, rest) := by
  constructor
  · intro fed
    cases text with
    | nil => cases fed
    | cons symbol later =>
        by_cases fits : allowed symbol
        · rw [feed_cons_more (takes symbol fits)] at fed
          exact ⟨symbol, later, rfl, fits, fed⟩
        · obtain ⟨other, stepped, refuses⟩ := others symbol fits
          rw [feed_cons_done stepped] at fed
          cases fed
          exact absurd refuses refused
  · rintro ⟨symbol, later, rfl, fits, fed⟩
    rw [feed_cons_more (takes symbol fits), fed]

variable {β : Type} {push : β → α → β} {allowed : α → Prop} {stop : α}

/-- A state that collects a word up to a mark. -/
theorem feed_word_iff (reading after : β → σ) (refused : ¬ refusal result) (collected : β)
    (stops : ∀ collected, step (reading collected) stop = .more (after collected))
    (pushes : ∀ collected symbol, symbol ≠ stop → allowed symbol →
      step (reading collected) symbol = .more (reading (push collected symbol)))
    (others : ∀ collected symbol, symbol ≠ stop → ¬ allowed symbol →
      ∃ refused, step (reading collected) symbol = .done refused ∧ refusal refused) :
    feed step (reading collected) text = .done (result, rest) ↔
      ∃ word later, text = word ++ stop :: later ∧ (∀ symbol ∈ word, symbol ≠ stop ∧ allowed symbol) ∧
        feed step (after (word.foldl push collected)) later = .done (result, rest) := by
  constructor
  · intro fed
    induction text generalizing collected with
    | nil => cases fed
    | cons head later ih =>
        by_cases same : head = stop
        · subst same
          rw [feed_cons_more (stops collected)] at fed
          exact ⟨[], later, rfl, fun _ member => absurd member List.not_mem_nil, fed⟩
        · by_cases fits : allowed head
          · rw [feed_cons_more (pushes collected head same fits)] at fed
            obtain ⟨word, final, split, all, fed⟩ := ih _ fed
            refine ⟨head :: word, final, by rw [split, List.cons_append], ?_, fed⟩
            exact List.forall_mem_cons.mpr ⟨⟨same, fits⟩, all⟩
          · obtain ⟨other, stepped, refuses⟩ := others collected head same fits
            rw [feed_cons_done stepped] at fed
            cases fed
            exact absurd refuses refused
  · rintro ⟨word, later, rfl, all, fed⟩
    induction word generalizing collected with
    | nil => rw [List.nil_append, feed_cons_more (stops collected), ← fed, List.foldl_nil]
    | cons head front ih =>
        have first := all head List.mem_cons_self
        rw [List.cons_append, feed_cons_more (pushes collected head first.1 first.2)]
        exact ih _ (fun symbol member => all symbol (List.mem_cons_of_mem _ member)) fed

end Accepted

end Safire.Feed
