/-
Loops that may stop with an error.

A loop of the modelled code is `List.foldlM` in `Except`. The rules below turn
a fact about one round into a fact about a run: the run splits at every point
of its input, and a predicate of the consumed input and the state that one
round extends holds after every run.
-/

import Mathlib

namespace Safire.Loop

variable {ε σ α β : Type}

theorem bind_ok_iff {computation : Except ε α} {next : α → Except ε β} {result : β} :
    (computation >>= next) = .ok result ↔
      ∃ value, computation = .ok value ∧ next value = .ok result := by
  cases computation with
  | error reason => simp [bind, Except.bind]
  | ok value => simp [bind, Except.bind]

theorem map_ok_iff {computation : Except ε α} {f : α → β} {result : β} :
    computation.map f = .ok result ↔ ∃ value, computation = .ok value ∧ f value = result := by
  cases computation with
  | error reason => simp [Except.map]
  | ok value => simp [Except.map]

@[simp] theorem pure_ok_iff {value result : α} :
    (pure value : Except ε α) = .ok result ↔ value = result := by
  simp [pure, Except.pure]

section Rounds

variable {round : σ → α → Except ε σ}

theorem run_cons_ok_iff {start finish : σ} {item : α} {rest : List α} :
    (item :: rest).foldlM round start = .ok finish ↔
      ∃ next, round start item = .ok next ∧ rest.foldlM round next = .ok finish := by
  rw [List.foldlM_cons]
  exact bind_ok_iff

theorem run_append_ok_iff {start finish : σ} {first second : List α} :
    (first ++ second).foldlM round start = .ok finish ↔
      ∃ middle, first.foldlM round start = .ok middle ∧ second.foldlM round middle = .ok finish := by
  rw [List.foldlM_append]
  exact bind_ok_iff

theorem run_snoc_ok_iff {start finish : σ} {first : List α} {item : α} :
    (first ++ [item]).foldlM round start = .ok finish ↔
      ∃ middle, first.foldlM round start = .ok middle ∧ round middle item = .ok finish := by
  rw [run_append_ok_iff]
  constructor
  · rintro ⟨middle, reached, last⟩
    obtain ⟨next, stepped, stopped⟩ := run_cons_ok_iff.mp last
    rw [List.foldlM_nil, pure_ok_iff] at stopped
    exact ⟨middle, reached, stopped ▸ stepped⟩
  · rintro ⟨middle, reached, stepped⟩
    exact ⟨middle, reached, run_cons_ok_iff.mpr ⟨finish, stepped, by simp⟩⟩

/-- The invariant rule. `holds done state` speaks of the input consumed so far;
a round may use where its item stands in the input. -/
theorem run_invariant (holds : List α → σ → Prop) {start : σ} (initially : holds [] start)
    (items : List α)
    (preserved : ∀ done item rest state next, items = done ++ item :: rest → holds done state →
      round state item = .ok next → holds (done ++ [item]) next) :
    ∀ finish, items.foldlM round start = .ok finish → holds items finish := by
  suffices general : ∀ rest done state, done ++ rest = items → holds done state →
      ∀ finish, rest.foldlM round state = .ok finish → holds items finish from
    general items [] start rfl initially
  intro rest
  induction rest with
  | nil =>
      intro done state whole held finish run
      rw [List.foldlM_nil, pure_ok_iff] at run
      rw [List.append_nil] at whole
      exact run ▸ whole ▸ held
  | cons item rest ih =>
      intro done state whole held finish run
      obtain ⟨next, stepped, later⟩ := run_cons_ok_iff.mp run
      exact ih (done ++ [item]) next (by simpa using whole)
        (preserved done item rest state next whole.symm held stepped) finish later

/-- The weights of the rounds of a run, up to the round that fails. -/
def tally (round : σ → α → Except ε σ) (weight : σ → α → Nat) : σ → List α → Nat
  | _, [] => 0
  | state, item :: rest =>
      weight state item +
        match round state item with
        | .ok next => tally round weight next rest
        | .error _ => 0

theorem tally_snoc {weight : σ → α → Nat} {items : List α} {item : α} {start finish : σ}
    (run : items.foldlM round start = .ok finish) :
    tally round weight start (items ++ [item]) =
      tally round weight start items + weight finish item := by
  induction items generalizing start with
  | nil =>
      rw [List.foldlM_nil, pure_ok_iff] at run
      rw [List.nil_append, tally, tally, run]
      cases round finish item with
      | ok next => simp [tally]
      | error reason => simp
  | cons first rest ih =>
      obtain ⟨next, stepped, later⟩ := run_cons_ok_iff.mp run
      rw [List.cons_append, tally, tally, stepped]
      dsimp only
      rw [ih later, Nat.add_assoc]

/-- The counting rule. If every round adds its weight to a count of the consumed
input, then the count grows by the tally of the run. -/
theorem tally_of_run (holds : List α → σ → Prop) (count : List α → Nat) (weight : σ → α → Nat)
    (start : σ) {finish : σ} (initially : holds [] start) (items : List α)
    (rounds : ∀ done item rest state next, items = done ++ item :: rest → holds done state →
      round state item = .ok next →
      holds (done ++ [item]) next ∧ count (done ++ [item]) = count done + weight state item)
    (run : items.foldlM round start = .ok finish) :
    count items = count [] + tally round weight start items := by
  have invariant := run_invariant
    (fun done state => done.foldlM round start = .ok state ∧ holds done state ∧
      count done = count [] + tally round weight start done)
    (⟨rfl, initially, rfl⟩) items ?_ finish run
  · exact invariant.2.2
  · rintro done item rest state next place ⟨reached, held, counted⟩ stepped
    obtain ⟨heldNext, grown⟩ := rounds done item rest state next place held stepped
    refine ⟨run_snoc_ok_iff.mpr ⟨state, reached, stepped⟩, heldNext, ?_⟩
    rw [grown, counted, tally_snoc reached, Nat.add_assoc]

end Rounds

section Lockstep

variable {τ δ : Type} {round : σ → α → Except ε σ} {round' : τ → α → Except δ τ}

/-- Two loops over one input. If a relation is kept by rounds that both succeed,
and related states succeed together, then the runs succeed together. -/
theorem run_lockstep (related : List α → σ → τ → Prop) {start : σ} {start' : τ}
    (initially : related [] start start') (items : List α)
    (together : ∀ done item rest state state', items = done ++ item :: rest →
      related done state state' →
      ((∃ next, round state item = .ok next) ↔ ∃ next, round' state' item = .ok next))
    (preserved : ∀ done item rest state state' next next', items = done ++ item :: rest →
      related done state state' → round state item = .ok next → round' state' item = .ok next' →
      related (done ++ [item]) next next') :
    (∃ finish, items.foldlM round start = .ok finish) ↔
      ∃ finish, items.foldlM round' start' = .ok finish := by
  suffices general : ∀ rest done state state', items = done ++ rest → related done state state' →
      ((∃ finish, rest.foldlM round state = .ok finish) ↔
        ∃ finish, rest.foldlM round' state' = .ok finish) from
    general items [] start start' rfl initially
  intro rest
  induction rest with
  | nil =>
      intro done state state' _ _
      simp
  | cons item rest ih =>
      intro done state state' whole held
      have step := together done item rest state state' whole held
      have later : ∀ next next', round state item = .ok next → round' state' item = .ok next' →
          ((∃ finish, rest.foldlM round next = .ok finish) ↔
            ∃ finish, rest.foldlM round' next' = .ok finish) := by
        intro next next' stepped stepped'
        exact ih (done ++ [item]) next next' (by simpa using whole)
          (preserved done item rest state state' next next' whole held stepped stepped')
      constructor
      · rintro ⟨finish, run⟩
        obtain ⟨next, stepped, tail⟩ := run_cons_ok_iff.mp run
        obtain ⟨next', stepped'⟩ := step.mp ⟨next, stepped⟩
        obtain ⟨finish', tail'⟩ := (later next next' stepped stepped').mp ⟨finish, tail⟩
        exact ⟨finish', run_cons_ok_iff.mpr ⟨next', stepped', tail'⟩⟩
      · rintro ⟨finish', run'⟩
        obtain ⟨next', stepped', tail'⟩ := run_cons_ok_iff.mp run'
        obtain ⟨next, stepped⟩ := step.mpr ⟨next', stepped'⟩
        obtain ⟨finish, tail⟩ := (later next next' stepped stepped').mpr ⟨finish', tail'⟩
        exact ⟨finish, run_cons_ok_iff.mpr ⟨next, stepped, tail⟩⟩

/-- A second loop that can follow every round of the first follows its runs. -/
theorem run_simulates (related : σ → τ → Prop) {start : σ} {start' : τ}
    (initially : related start start') (items : List α)
    (follows : ∀ item state state' next, related state state' → round state item = .ok next →
      ∃ next', round' state' item = .ok next' ∧ related next next')
    {finish : σ} (run : items.foldlM round start = .ok finish) :
    ∃ finish', items.foldlM round' start' = .ok finish' := by
  induction items generalizing start start' with
  | nil => exact ⟨start', rfl⟩
  | cons item rest ih =>
      obtain ⟨next, stepped, later⟩ := run_cons_ok_iff.mp run
      obtain ⟨next', stepped', held⟩ := follows item start start' next initially stepped
      obtain ⟨finish', tail⟩ := ih held later
      exact ⟨finish', run_cons_ok_iff.mpr ⟨next', stepped', tail⟩⟩

/-- A loop over images follows the first one where each of its rounds does. -/
theorem run_map {image : σ → τ} {α' : Type} {item' : α → α'} {step' : τ → α' → Except ε τ}
    (follows : ∀ state item, step' (image state) (item' item) = (round state item).map image)
    (items : List α) (start : σ) :
    (items.map item').foldlM step' (image start) = (items.foldlM round start).map image := by
  induction items generalizing start with
  | nil => rfl
  | cons item rest ih =>
      rw [List.map_cons, List.foldlM_cons, List.foldlM_cons, follows]
      cases round start item with
      | error reason => rfl
      | ok next => exact ih next

end Lockstep

end Safire.Loop
