/-
The creator that the storage validator requires on a stored chain is the one
that the branch validator requires.

The storage validator rebuilds the ledger at the selection boundary, where the
branch validator looks up a snapshot; it counts the recovery run along the
stored parent hashes, where the branch validator reads the candidate vector.
-/

import Safire.LedgerMembers
import Safire.StorageValidator

namespace Safire.ChainValidator

open Loop

variable {env : Env} {db : LevelDb} {chain : List Block}

/-! ### Snapshots are the states at the earlier blocks -/

def snapshotOf (block : Block) (state : BranchState) : BranchSnapshot where
  blockNumber := block.number
  blockHash := block.hash
  members := state.members
  chainHasHeartbeatRecords := state.chainHasHeartbeatRecords

theorem applied_snapshots {block : Block} {isGenesis : Bool} {state next : BranchState}
    {record : Record} (applied : Applied block isGenesis state record next) :
    next.snapshots = state.snapshots := by
  cases applied <;> rfl

theorem connectRecords_snapshots {block : Block} {isGenesis : Bool} {state next : BranchState}
    {records : List Record}
    (connected : connectRecords env block isGenesis state records = .ok next) :
    next.snapshots = state.snapshots := by
  obtain ⟨seen, run⟩ := connectRecords_ok_iff.mp connected
  refine run_invariant (fun _ (progress : BranchState × TextSet) =>
    progress.1.snapshots = state.snapshots) rfl records ?_ (next, seen) run
  intro done record rest progress stepped _ same step
  rw [applied_snapshots (connected_of_ok (recordStep_ok_iff.mp step).1).applied]
  exact same

theorem connectChain_snapshots {before : List Block} {block : Block} {state : BranchState}
    (connected : connectChain env (before ++ [block]) = .ok state) :
    ∃ parentState, connectChain env before = .ok parentState ∧
      state.snapshots = parentState.snapshots ++ [snapshotOf block state] := by
  obtain ⟨parentState, below, stepped⟩ := connectChain_snoc_ok_iff.mp connected
  obtain ⟨-, applied, records, rfl⟩ := connectBlock_ok_iff.mp stepped
  refine ⟨parentState, below, ?_⟩
  rw [← connectRecords_snapshots records]
  rfl

/-- The snapshots stand in chain order, one for each block. -/
theorem snapshots_of_connected {state : BranchState}
    (connected : connectChain env chain = .ok state) :
    state.snapshots.map BranchSnapshot.blockNumber = chain.map Block.number ∧
      ∀ before block after, chain = before ++ block :: after →
        ∃ reached, connectChain env (before ++ [block]) = .ok reached ∧
          state.snapshots[before.length]? = some (snapshotOf block reached) := by
  induction chain using List.reverseRecOn generalizing state with
  | nil =>
      rw [connectChain_ok_iff, List.foldlM_nil, pure_ok_iff] at connected
      refine ⟨?_, ?_⟩
      · cases connected
        rfl
      · intro before block after place
        simp at place
  | append_singleton front tip ih =>
      obtain ⟨parentState, below, grown⟩ := connectChain_snapshots connected
      obtain ⟨numbers, earlier⟩ := ih below
      have lengths : parentState.snapshots.length = front.length := by
        simpa using congrArg List.length numbers
      refine ⟨?_, ?_⟩
      · rw [grown, List.map_append, numbers, List.map_append]
        rfl
      · intro before block after place
        rcases List.eq_nil_or_concat after with rfl | ⟨middle, last, rfl⟩
        · obtain ⟨rfl, same⟩ := List.append_inj' place rfl
          obtain rfl := (List.cons.inj same).1
          refine ⟨state, connected, ?_⟩
          rw [grown, List.getElem?_append_right (by omega), lengths]
          simp
        · rw [List.concat_eq_append, ← List.cons_append, ← List.append_assoc] at place
          obtain ⟨inFront, -⟩ := List.append_inj' place rfl
          obtain ⟨reached, connectedThere, found⟩ := earlier before block middle inFront
          refine ⟨reached, connectedThere, ?_⟩
          have inside : before.length < parentState.snapshots.length := by
            rw [lengths, inFront]
            simp
          rw [grown, List.getElem?_append_left inside, found]

/-- The snapshot at a boundary that covers the genesis block. -/
theorem covered_snapshot {state : BranchState} (connected : connectChain env chain = .ok state)
    {boundary : Int} {before after : List Block} {block : Block}
    (covered : chain.takeWhile (fun block => decide (block.number ≤ boundary)) = before ++ [block])
    (place : chain = before ++ block :: after) :
    ∃ reached, connectChain env (before ++ [block]) = .ok reached ∧
      (state.snapshots.takeWhile (fun snapshot => decide (snapshot.blockNumber ≤ boundary))).getLast? =
        some (snapshotOf block reached) := by
  obtain ⟨numbers, found⟩ := snapshots_of_connected connected
  obtain ⟨reached, connectedThere, atIndex⟩ := found before block after place
  refine ⟨reached, connectedThere, ?_⟩
  have lengths : (state.snapshots.takeWhile
      (fun snapshot => decide (snapshot.blockNumber ≤ boundary))).length = before.length + 1 := by
    have counted := congrArg (fun numbers => (numbers.takeWhile
      (fun number : Int => decide (number ≤ boundary))).length) numbers
    simp only [List.takeWhile_map, List.length_map, Function.comp_def] at counted
    rw [counted, covered]
    simp
  obtain ⟨rest, whole⟩ := List.takeWhile_prefix
    (fun snapshot : BranchSnapshot => decide (snapshot.blockNumber ≤ boundary))
    (l := state.snapshots)
  rw [List.getLast?_eq_getElem?, lengths, Nat.add_sub_cancel]
  rw [← whole, List.getElem?_append_left (by omega)] at atIndex
  exact atIndex

/-! ### Active members -/

theorem activeMemberKeysAt_eq {ledger : LedgerState.State} {members : List BranchMember}
    {chainHasHeartbeatRecords : Bool} {blockNumber : Int}
    (same : ledger.members.map LedgerState.MemberState.toBranchMember = members)
    (flag : ledger.chainHasHeartbeatRecords = chainHasHeartbeatRecords)
    (positive : 0 < blockNumber) :
    LedgerState.activeMemberKeysAt ledger blockNumber =
      activeMemberKeysForBlock members chainHasHeartbeatRecords blockNumber := by
  rw [LedgerState.activeMemberKeysAt, activeMemberKeysForBlock, ← same, ← flag, List.filter_map,
    List.map_map, if_neg (not_le.mpr positive)]
  rfl

/-! ### The recovery run -/

/-- Following the stored parent hashes counts the trailing blocks of the chain. -/
theorem recoveryRunInStore_eq (recoveryPublicKey : Text) (rounds : Nat) :
    ∀ {chain : List Block} {tip : Block} {state : BranchState},
      (∀ block ∈ chain ++ [tip], getBlockByHash env db block.hash = block) →
      connectChain env (chain ++ [tip]) = .ok state →
      recoveryRunInStore env db recoveryPublicKey rounds tip =
        min (((chain ++ [tip]).reverse.takeWhile
          (fun block => block.creatorKey = recoveryPublicKey)).length : Int) rounds := by
  induction rounds with
  | zero =>
      intro chain tip state _ _
      rw [recoveryRunInStore]
      omega
  | succ rounds ih =>
      intro chain tip state byHash connected
      obtain ⟨parentState, below, stepped⟩ := connectChain_snoc_ok_iff.mp connected
      obtain ⟨envelope, link⟩ := checkHeader_ok_iff.mp (connectBlock_ok_iff.mp stepped).1
      have positive := checkEnvelope_positive envelope
      rw [recoveryRunInStore, List.reverse_append, List.reverse_singleton, List.singleton_append]
      by_cases own : tip.creatorKey = recoveryPublicKey
      · rw [if_pos ⟨positive, own⟩, List.takeWhile_cons_of_pos (by simpa using own),
          List.length_cons]
        rcases List.eq_nil_or_concat chain with rfl | ⟨front, parent, rfl⟩
        · rw [if_pos (by rw [(checkLink_genesis link).2.1]; rfl)]
          simp
        · rw [List.concat_eq_append] at byHash below link ⊢
          have last : (front ++ [parent]).getLast? = some parent := by simp
          obtain ⟨ids, above, hashes⟩ := checkLink_parent last link
          have named := hashes_of_connected below parent (by simp)
          have parentPositive := (ascending_of_connected below).positive parent (by simp)
          rw [if_neg (by rw [hashes]; simpa using named), hashes, byHash parent (by simp)]
          dsimp only
          rw [if_neg (by omega),
            ih (fun block member => byHash block (List.mem_append_left _ member)) below]
          omega
      · rw [if_neg (fun both => own both.2), List.takeWhile_cons_of_neg (by simpa using own)]
        simp
        omega

theorem consecutiveRecoveryBlocks_eq {tip : Block} {state : BranchState}
    (stored : StoredAs env db chain) (last : chain.getLast? = some tip)
    (connected : connectChain env chain = .ok state) (recoveryPublicKey : Text) :
    consecutiveRecoveryBlocksInStore env db tip recoveryPublicKey =
      consecutiveRecoveryBlocksInBranch chain recoveryPublicKey := by
  obtain ⟨front, rfl⟩ := List.getLast?_eq_some_iff.mp last
  unfold consecutiveRecoveryBlocksInStore consecutiveRecoveryBlocksInBranch
  split
  · rfl
  · rw [recoveryRunInStore_eq recoveryPublicKey _ stored.byHash connected]
    rfl

/-! ### The selection state -/

/-- A walk over a connected prefix ends in a state with the members of the branch
and the last block of the prefix. -/
theorem computeState_members (shaped : BuilderShaped chain) {visited rest : List Block}
    (place : chain = visited ++ rest) {state : BranchState}
    (connected : connectChain env visited = .ok state) {stop : Int}
    (walked : LedgerState.visitedBlocks env db stop = visited) (now : Int) :
    let ledger := LedgerState.computeState env db now [] stop
    ledger.members.map LedgerState.MemberState.toBranchMember = state.members ∧
      ledger.chainHasHeartbeatRecords = state.chainHasHeartbeatRecords ∧
      ledger.latestBlock = visited.getLast?.getD .missing := by
  dsimp only
  have agree : LedgerState.MembersAgree (LedgerState.walkedProgress env db [] stop visited) state :=
    LedgerState.membersAgree_of_connected shaped place connected _ [] _ _
  rw [LedgerState.computeState_of_visited walked]
  obtain ⟨members, flag, -⟩ :=
    agree.finished (membersWellFormed_of_connected connected).distinct [] now
  exact ⟨members, flag, rfl⟩

theorem getSelectionBoundaryBlock_ge {blockNumber genesisBlock : Int} (positive : 0 < genesisBlock) :
    genesisBlock ≤ Selector.getSelectionBoundaryBlock blockNumber genesisBlock := by
  unfold Selector.getSelectionBoundaryBlock
  rw [if_neg (not_le.mpr positive)]
  dsimp only
  split
  · exact le_rfl
  · rename_i lagged
    simp only [Selector.getSelectionLagEpochs, Selector.getEpochSizeBlocks, not_lt] at lagged ⊢
    omega

/-- The blocks up to a boundary that covers the first one. -/
theorem takeWhile_covered {genesis : Block} {rest : List Block} {boundary : Int}
    (covered : genesis.number ≤ boundary) :
    ∃ before block after,
      (genesis :: rest).takeWhile (fun block => decide (block.number ≤ boundary)) =
        before ++ [block] ∧ genesis :: rest = before ++ block :: after := by
  rw [List.takeWhile_cons_of_pos (by simpa using covered)]
  generalize taken : rest.takeWhile (fun block => decide (block.number ≤ boundary)) = inside
  obtain ⟨before, block, split⟩ :=
    List.eq_nil_or_concat (genesis :: inside) |>.resolve_left (List.cons_ne_nil _ _)
  rw [List.concat_eq_append] at split
  refine ⟨before, block, rest.dropWhile (fun block => decide (block.number ≤ boundary)), split, ?_⟩
  rw [List.append_cons, ← split, ← taken, List.cons_append, List.takeWhile_append_dropWhile]

/-- The snapshot of a slot is the state after the last block up to its boundary. -/
theorem selectionSnapshot_reached {genesis : Block} {state : BranchState}
    (head : chain.head? = some genesis) (connected : connectChain env chain = .ok state)
    (blockNumber : Int) :
    ∃ front last rest reached, chain = front ++ last :: rest ∧
      chain.takeWhile (fun block => decide (block.number ≤
        Selector.getSelectionBoundaryBlock blockNumber genesis.number)) = front ++ [last] ∧
      connectChain env (front ++ [last]) = .ok reached ∧
      selectionSnapshotForBlock state.snapshots blockNumber genesis.number =
        some (snapshotOf last reached) := by
  obtain ⟨rest, rfl⟩ := List.head?_eq_some_iff.mp head
  have covers : genesis.number ≤ Selector.getSelectionBoundaryBlock blockNumber genesis.number :=
    getSelectionBoundaryBlock_ge
      ((ascending_of_connected connected).positive genesis List.mem_cons_self)
  obtain ⟨front, last, after, taken, place⟩ := @takeWhile_covered genesis rest _ covers
  obtain ⟨reached, connectedThere, found⟩ := covered_snapshot connected taken place
  refine ⟨front, last, after, reached, place, taken, connectedThere, ?_⟩
  rw [selectionSnapshotForBlock, found]
  rfl

/-- A ledger state selects as a snapshot of the branch does. -/
structure SelectsAs (ledger : LedgerState.State) (snapshot : BranchSnapshot) : Prop where
  hash : ledger.latestBlock.hash = snapshot.blockHash
  members : ledger.members.map LedgerState.MemberState.toBranchMember = snapshot.members
  flag : ledger.chainHasHeartbeatRecords = snapshot.chainHasHeartbeatRecords

section Stored

variable {genesis tip : Block} {state : BranchState}
variable (accepted : Accepts env chain) (stored : StoredAs env db chain)
variable (head : chain.head? = some genesis) (connected : connectChain env chain = .ok state)
include accepted stored head connected

/-- The ledger built at the selection boundary of a slot and the snapshot found for it. -/
theorem selectsAs_build (shaped : BuilderShaped chain) (blockNumber : Int) :
    ∃ snapshot, selectionSnapshotForBlock state.snapshots blockNumber genesis.number =
        some snapshot ∧ snapshot.blockHash ≠ [] ∧
      ∀ cache now, LedgerState.CacheCoherent env db cache →
        SelectsAs (LedgerState.build env db cache now []
          (Selector.getSelectionBoundaryBlock blockNumber (getFirstBlockId db))).1 snapshot := by
  obtain ⟨firstPositive, latestPositive⟩ := LedgerState.ends_of_stored stored accepted
  have firstId := stored.first genesis head
  have present : chain ≠ [] := (accepts_iff.mp accepted).1
  obtain ⟨front, last, rest, reached, place, taken, connectedThere, found⟩ :=
    selectionSnapshot_reached head connected blockNumber
  refine ⟨snapshotOf last reached, found, hashes_of_connected connectedThere last (by simp),
    fun cache now coherent => ?_⟩
  rw [firstId]
  have covers : genesis.number ≤ Selector.getSelectionBoundaryBlock blockNumber genesis.number :=
    getSelectionBoundaryBlock_ge (firstId ▸ firstPositive)
  generalize Selector.getSelectionBoundaryBlock blockNumber genesis.number = boundary at taken covers ⊢
  have walked : LedgerState.visitedBlocks env db boundary = front ++ [last] := by
    rw [stored.visitedBlocks_eq (ascending_of_connected connected) present, ← taken]
    congr 1
    funext other
    simp only [show 0 < boundary by omega, true_and, ← not_lt, decide_not]
  have latest : 0 ≤ LedgerState.buildLatestBlockId db boundary := by
    rw [LedgerState.buildLatestBlockId]
    split <;> omega
  rw [List.append_cons] at place
  obtain ⟨members, flag, latestBlock⟩ :=
    computeState_members shaped place connectedThere walked now
  rw [LedgerState.build_eq_computeState coherent firstPositive.le latest]
  exact ⟨by rw [latestBlock]; simp [snapshotOf], members, flag⟩

/-- Both validators require the same creator on a stored chain. -/
theorem storageAuthorization_eq {block : Block} (shaped : BuilderShaped chain)
    (last : chain.getLast? = some tip) (positive : 0 < block.number)
    (ambient : Ambient) {caches : Caches}
    (coherent : LedgerState.CacheCoherent env db caches.ledgerStateCache)
    {parentState : LedgerState.State}
    (members : parentState.members.map LedgerState.MemberState.toBranchMember = state.members)
    (flag : parentState.chainHasHeartbeatRecords = state.chainHasHeartbeatRecords) :
    ∃ snapshot, selectionSnapshotForBlock state.snapshots block.number genesis.number =
        some snapshot ∧ snapshot.blockHash ≠ [] ∧
      storageAuthorization env db tip parentState
          (selectionStateFor env ambient db caches parentState block).1 block.number =
        branchAuthorization env chain state tip genesis snapshot block.number := by
  obtain ⟨snapshot, found, hashed, selects⟩ :=
    selectsAs_build accepted stored head connected shaped block.number
  refine ⟨snapshot, found, hashed, ?_⟩
  have built := selects caches.ledgerStateCache ambient.selectionTimeBlock coherent
  have selection : (selectionStateFor env ambient db caches parentState block).1 =
      (LedgerState.build env db caches.ledgerStateCache ambient.selectionTimeBlock []
        (Selector.getSelectionBoundaryBlock block.number (getFirstBlockId db))).1 := by
    rw [selectionStateFor]
    dsimp only
    rw [built.hash, if_neg (by simpa using hashed)]
  rw [storageAuthorization, branchAuthorization, selection, stored.first genesis head,
    stored.bySlot genesis (List.mem_of_mem_head? head), ← stored.first genesis head,
    activeMemberKeysAt_eq built.members built.flag positive,
    activeMemberKeysAt_eq members flag positive, built.hash,
    consecutiveRecoveryBlocks_eq stored last connected]

end Stored

end Safire.ChainValidator
