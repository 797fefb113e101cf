/-
The runs of the branch validator, record by record.

A history lists the applied records in chain order, each with its block. A
predicate of the history and the branch state that one accepted record extends
holds at every point of every accepted chain. All results about balances,
nonces, names and members are instances of this rule.
-/

import Safire.ConnectedChain
import Safire.Library.Loop

namespace Safire.ChainValidator

open Loop

variable {env : Env}

abbrev Entry := Block × Record

def chainEntries (chain : List Block) : List Entry :=
  chain.flatMap (fun block => block.records.map (Prod.mk block))

/-- The history after the blocks `before` and some records of the next block. -/
def history (before : List Block) (block : Block) (records : List Record) : List Entry :=
  chainEntries before ++ records.map (Prod.mk block)

theorem chainEntries_snoc (before : List Block) (block : Block) :
    chainEntries (before ++ [block]) = history before block block.records := by
  simp [chainEntries, history]

theorem history_snoc (before : List Block) (block : Block) (records : List Record)
    (record : Record) :
    history before block (records ++ [record]) =
      history before block records ++ [(block, record)] := by
  simp [history]

theorem mem_chainEntries {chain : List Block} {entry : Entry} :
    entry ∈ chainEntries chain ↔ entry.1 ∈ chain ∧ entry.2 ∈ entry.1.records := by
  simp only [chainEntries, List.mem_flatMap, List.mem_map]
  constructor
  · rintro ⟨block, member, record, inBlock, rfl⟩
    exact ⟨member, inBlock⟩
  · rintro ⟨member, inBlock⟩
    exact ⟨entry.1, member, entry.2, inBlock, rfl⟩

/-! ### Inversion -/

theorem connectRecords_ok_iff {block : Block} {isGenesis : Bool} {state next : BranchState}
    {records : List Record} :
    connectRecords env block isGenesis state records = .ok next ↔
      ∃ seen, records.foldlM (recordStep env block isGenesis) (state, ∅) = .ok (next, seen) := by
  rw [connectRecords, bind_ok_iff]
  constructor
  · rintro ⟨⟨reached, seen⟩, run, same⟩
    exact ⟨seen, pure_ok_iff.mp same ▸ run⟩
  · rintro ⟨seen, run⟩
    exact ⟨(next, seen), run, pure_ok_iff.mpr rfl⟩

theorem recordStep_ok_iff {block : Block} {isGenesis : Bool}
    {progress next : BranchState × TextSet} {record : Record} :
    recordStep env block isGenesis progress record = .ok next ↔
      connectRecord env block isGenesis progress.1 progress.2 record = .ok next.1 ∧
        next.2 = progress.2.insert record.hash := by
  rw [recordStep, bind_ok_iff]
  constructor
  · rintro ⟨state, connected, same⟩
    rw [pure_ok_iff] at same
    subst same
    exact ⟨connected, rfl⟩
  · rintro ⟨connected, seen⟩
    exact ⟨next.1, connected, pure_ok_iff.mpr (Prod.ext rfl seen.symm)⟩

theorem connectBlock_ok_iff {before : List Block} {state next : BranchState} {block : Block} :
    connectBlock env before state block = .ok next ↔
      checkHeader env before state block = .ok () ∧
        ∃ applied, connectRecords env block before.isEmpty state block.records = .ok applied ∧
          next = pushSnapshot block applied := by
  simp only [connectBlock, bind_ok_iff, pure_ok_iff]
  constructor
  · rintro ⟨_, checked, applied, connected, same⟩
    exact ⟨checked, applied, connected, same.symm⟩
  · rintro ⟨checked, applied, connected, same⟩
    exact ⟨(), checked, applied, connected, same.symm⟩

theorem blockStep_ok_iff {progress next : List Block × BranchState} {block : Block} :
    blockStep env progress block = .ok next ↔
      connectBlock env progress.1 progress.2 block = .ok next.2 ∧
        next.1 = progress.1 ++ [block] := by
  rw [blockStep, bind_ok_iff]
  constructor
  · rintro ⟨state, connected, same⟩
    rw [pure_ok_iff] at same
    subst same
    exact ⟨connected, rfl⟩
  · rintro ⟨connected, blocks⟩
    exact ⟨next.2, connected, pure_ok_iff.mpr (Prod.ext blocks.symm rfl)⟩

/-- The block list carried by the loop is the input consumed so far. -/
theorem blockRun_blocks (chain : List Block) (finish : List Block × BranchState)
    (run : chain.foldlM (blockStep env) ([], .initial) = .ok finish) : finish.1 = chain := by
  refine run_invariant (fun done progress => progress.1 = done) rfl chain ?_ finish run
  intro done block rest progress next _ same stepped
  rw [(blockStep_ok_iff.mp stepped).2, same]

theorem connectChain_ok_iff {chain : List Block} {state : BranchState} :
    connectChain env chain = .ok state ↔
      chain.foldlM (blockStep env) ([], .initial) = .ok (chain, state) := by
  rw [connectChain, bind_ok_iff]
  constructor
  · rintro ⟨⟨blocks, reached⟩, run, same⟩
    have whole := blockRun_blocks chain _ run
    rw [pure_ok_iff] at same
    dsimp only at whole same
    rw [run, whole, same]
  · intro run
    exact ⟨(chain, state), run, pure_ok_iff.mpr rfl⟩

theorem connectChain_snoc_ok_iff {before : List Block} {block : Block} {state : BranchState} :
    connectChain env (before ++ [block]) = .ok state ↔
      ∃ parentState, connectChain env before = .ok parentState ∧
        connectBlock env before parentState block = .ok state := by
  rw [connectChain_ok_iff, run_snoc_ok_iff]
  constructor
  · rintro ⟨progress, run, stepped⟩
    have blocks := blockRun_blocks before _ run
    obtain ⟨connected, -⟩ := blockStep_ok_iff.mp stepped
    refine ⟨progress.2, connectChain_ok_iff.mpr ?_, blocks ▸ connected⟩
    rw [run, ← blocks]
  · rintro ⟨parentState, run, connected⟩
    exact ⟨(before, parentState), connectChain_ok_iff.mp run,
      blockStep_ok_iff.mpr ⟨connected, rfl⟩⟩

theorem accepts_iff {chain : List Block} :
    Accepts env chain ↔ chain ≠ [] ∧ ∃ state, connectChain env chain = .ok state := by
  rw [Accepts, validateConnectedChain]
  by_cases empty : chain.length = 0
  · have nil : chain = [] := List.length_eq_zero_iff.mp empty
    simp [nil]
  · rw [if_neg empty, map_ok_iff]
    have nonempty : chain ≠ [] := fun nil => empty (by rw [nil]; rfl)
    simp [nonempty]

theorem stateAfterRecords_ok_iff {before : List Block} {block : Block} {records : List Record}
    {state : BranchState} :
    stateAfterRecords env before block records = .ok state ↔
      ∃ parentState, connectChain env before = .ok parentState ∧
        checkHeader env before parentState block = .ok () ∧
        connectRecords env block before.isEmpty parentState records = .ok state := by
  simp only [stateAfterRecords, bind_ok_iff]
  constructor
  · rintro ⟨parentState, connected, _, checked, applied⟩
    exact ⟨parentState, connected, checked, applied⟩
  · rintro ⟨parentState, connected, checked, applied⟩
    exact ⟨parentState, connected, (), checked, applied⟩

/-! ### Every point of an accepted chain is reached -/

theorem connectChain_prefix {before after : List Block} {state : BranchState}
    (connected : connectChain env (before ++ after) = .ok state) :
    ∃ reached, connectChain env before = .ok reached := by
  rw [connectChain_ok_iff, run_append_ok_iff] at connected
  obtain ⟨⟨blocks, reached⟩, run, -⟩ := connected
  have whole := blockRun_blocks before _ run
  exact ⟨reached, connectChain_ok_iff.mpr (whole ▸ run)⟩

theorem connectRecords_prefix {block : Block} {isGenesis : Bool} {state next : BranchState}
    {first second : List Record}
    (connected : connectRecords env block isGenesis state (first ++ second) = .ok next) :
    ∃ reached, connectRecords env block isGenesis state first = .ok reached := by
  obtain ⟨seen, run⟩ := connectRecords_ok_iff.mp connected
  obtain ⟨⟨reached, seenFirst⟩, firstRun, -⟩ := run_append_ok_iff.mp run
  exact ⟨reached, connectRecords_ok_iff.mpr ⟨seenFirst, firstRun⟩⟩

theorem stateAfterRecords_reached {chain before after : List Block} {block : Block}
    {records later : List Record} (accepted : Accepts env chain)
    (place : chain = before ++ block :: after) (split : block.records = records ++ later) :
    ∃ state, stateAfterRecords env before block records = .ok state := by
  obtain ⟨-, finish, connected⟩ := accepts_iff.mp accepted
  rw [place, List.append_cons] at connected
  obtain ⟨reached, throughBlock⟩ := connectChain_prefix connected
  obtain ⟨parentState, below, stepped⟩ := connectChain_snoc_ok_iff.mp throughBlock
  obtain ⟨checked, applied, records_ok, -⟩ := connectBlock_ok_iff.mp stepped
  rw [split] at records_ok
  obtain ⟨state, partway⟩ := connectRecords_prefix records_ok
  exact ⟨state, stateAfterRecords_ok_iff.mpr ⟨parentState, below, checked, partway⟩⟩

/-! ### The invariant rule -/

section Invariant

variable {chain : List Block} (holds : List Entry → BranchState → Prop)

/-- What one accepted record has to preserve. The rule says where the record
stands in the chain, so that a proof may use facts about the input. -/
def PreservedByRecords (env : Env) (chain : List Block)
    (holds : List Entry → BranchState → Prop) : Prop :=
  ∀ before block after earlier record later state seen next,
    chain = before ++ block :: after → block.records = earlier ++ record :: later →
    holds (history before block earlier) state →
    connectRecord env block before.isEmpty state seen record = .ok next →
    holds (history before block earlier ++ [(block, record)]) next

def PreservedBySnapshots (holds : List Entry → BranchState → Prop) : Prop :=
  ∀ done block state, holds done state → holds done (pushSnapshot block state)

variable {holds}

private theorem holds_after_records (preserved : PreservedByRecords env chain holds)
    {before after : List Block} {block : Block} (place : chain = before ++ block :: after)
    {state : BranchState} (held : holds (chainEntries before) state)
    {records later : List Record} (split : block.records = records ++ later) {next : BranchState}
    (connected : connectRecords env block before.isEmpty state records = .ok next) :
    holds (history before block records) next := by
  obtain ⟨seen, run⟩ := connectRecords_ok_iff.mp connected
  refine run_invariant
    (fun applied (progress : BranchState × TextSet) => holds (history before block applied) progress.1)
    (by simpa [history] using held) records ?_ (next, seen) run
  intro applied record rest progress stepped here heldNow step
  have inBlock : block.records = applied ++ record :: (rest ++ later) := by
    rw [split, here]
    simp
  rw [history_snoc]
  exact preserved before block after applied record (rest ++ later) progress.1 progress.2
    stepped.1 place inBlock heldNow (recordStep_ok_iff.mp step).1

/-- The invariant at the end of every connected prefix of the chain. -/
theorem holds_after_blocks (initially : holds [] .initial)
    (preserved : PreservedByRecords env chain holds) (snapshots : PreservedBySnapshots holds)
    {before after : List Block} (place : chain = before ++ after) {state : BranchState}
    (connected : connectChain env before = .ok state) :
    holds (chainEntries before) state := by
  rw [connectChain_ok_iff] at connected
  -- The loop also carries its own input, which fixes the genesis flag of each block.
  have both := run_invariant
    (fun done (progress : List Block × BranchState) =>
      ∀ later, chain = done ++ later → progress.1 = done ∧ holds (chainEntries done) progress.2)
    (by intro later _; exact ⟨rfl, initially⟩) before ?_ _ connected
  · exact (both after place).2
  · intro done block rest progress next _ held stepped later place
    obtain ⟨connectedBlock, blocks⟩ := blockStep_ok_iff.mp stepped
    rw [List.append_assoc, List.singleton_append] at place
    obtain ⟨same, heldBefore⟩ := held (block :: later) place
    refine ⟨by rw [blocks, same], ?_⟩
    obtain ⟨-, applied, records_ok, pushed⟩ := connectBlock_ok_iff.mp connectedBlock
    rw [same] at records_ok
    rw [chainEntries_snoc, pushed]
    exact snapshots _ block applied
      (holds_after_records preserved place heldBefore (List.append_nil _).symm records_ok)

/-- The invariant after every record of the chain. -/
theorem holds_after_record (initially : holds [] .initial)
    (preserved : PreservedByRecords env chain holds) (snapshots : PreservedBySnapshots holds)
    {before after : List Block} {block : Block} (place : chain = before ++ block :: after)
    {records later : List Record} (split : block.records = records ++ later) {state : BranchState}
    (reached : stateAfterRecords env before block records = .ok state) :
    holds (history before block records) state := by
  obtain ⟨parentState, below, -, connected⟩ := stateAfterRecords_ok_iff.mp reached
  exact holds_after_records preserved place
    (holds_after_blocks initially preserved snapshots place below) split connected

end Invariant

end Safire.ChainValidator
