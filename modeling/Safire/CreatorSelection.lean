/-
Who may create the next block of an accepted branch.

The creator of a slot is chosen among the members that were active at the
selection checkpoint, else among those active at the tip, else it is the recovery
key while the window lasts. The members of both states joined in earlier blocks,
and their heartbeats are records of earlier blocks.
-/

import Safire.StorageSelection

namespace Safire.ChainValidator

open Text KeyedList

variable {env : Env} {chain : List Block}

/-- `selectedCreator` of `validateConnectedChain` for a block after `before`. -/
def branchSelectedCreator (env : Env) (before : List Block) (state : BranchState)
    (blockNumber : Int) : Option Text :=
  match before.head?, before.getLast? with
  | some genesis, some parent =>
      (selectionSnapshotForBlock state.snapshots blockNumber genesis.number).map fun snapshot =>
        (branchAuthorization env before state parent genesis snapshot blockNumber).creator
  | _, _ => none

/-! ### The selector -/

theorem getSelectedUserForBlock_mem {activeUsers : List Text} (present : activeUsers ≠ [])
    (blockNumber : Int) (selectionSeedHash : Text) :
    Selector.getSelectedUserForBlock env blockNumber selectionSeedHash activeUsers ∈
      activeUsers := by
  have positive := List.length_pos_of_ne_nil present
  rw [Selector.getSelectedUserForBlock, Selector.getSelectedIndexForBlock, if_neg positive.ne']
  dsimp only
  have inside := Nat.mod_lt (Selector.selectionValue env blockNumber selectionSeedHash) positive
  rw [List.getD_eq_getElem _ _ inside]
  exact List.getElem_mem inside

/-- The active members of a snapshot. -/
def checkpointUsers (snapshot : BranchSnapshot) (blockNumber : Int) : List Text :=
  activeMemberKeysForBlock snapshot.members snapshot.chainHasHeartbeatRecords blockNumber

/-- The active members of the state at the tip. -/
def latestUsers (state : BranchState) (blockNumber : Int) : List Text :=
  activeMemberKeysForBlock state.members state.chainHasHeartbeatRecords blockNumber

section Branches

variable {before : List Block} {state : BranchState} {parent genesis : Block}
variable {snapshot : BranchSnapshot} {blockNumber : Int}

theorem branchAuthorization_checkpoint (seeded : snapshot.blockHash ≠ [])
    (active : checkpointUsers snapshot blockNumber ≠ []) :
    branchAuthorization env before state parent genesis snapshot blockNumber =
      ⟨Selector.getSelectedUserForBlock env blockNumber snapshot.blockHash
        (checkpointUsers snapshot blockNumber), false, false⟩ := by
  unfold branchAuthorization Selector.getAuthorizedCreatorForBlock
  dsimp only
  rw [if_pos ⟨List.length_pos_of_ne_nil active, List.length_pos_of_ne_nil seeded⟩]
  rfl

theorem branchAuthorization_latest (idle : checkpointUsers snapshot blockNumber = [])
    (seeded : parent.hash ≠ []) (active : latestUsers state blockNumber ≠ []) :
    branchAuthorization env before state parent genesis snapshot blockNumber =
      ⟨Selector.getSelectedUserForBlock env blockNumber parent.hash
        (latestUsers state blockNumber), false, true⟩ := by
  unfold branchAuthorization Selector.getAuthorizedCreatorForBlock
  dsimp only
  rw [if_neg fun both => absurd both.1 (by simpa [checkpointUsers] using idle),
    if_pos ⟨List.length_pos_of_ne_nil active, List.length_pos_of_ne_nil seeded⟩]
  rfl

theorem branchAuthorization_recovery (idle : checkpointUsers snapshot blockNumber = [])
    (latestIdle : latestUsers state blockNumber = []) :
    branchAuthorization env before state parent genesis snapshot blockNumber =
      if configuredRecoveryPublicKey env genesis.creatorKey ≠ [] ∧
          consecutiveRecoveryBlocksInBranch before
            (configuredRecoveryPublicKey env genesis.creatorKey) < Selector.getRecoveryWindowBlocks then
        ⟨configuredRecoveryPublicKey env genesis.creatorKey, true, false⟩
      else ⟨[], false, false⟩ := by
  unfold branchAuthorization Selector.getAuthorizedCreatorForBlock
  dsimp only
  rw [if_neg fun both => absurd both.1 (by simpa [checkpointUsers] using idle),
    if_neg fun both => absurd both.1 (by simpa [latestUsers] using latestIdle)]
  simp only [List.length_pos_iff]

end Branches

/-! ### Heartbeats are records of the branch -/

/-- The last heartbeat of a member is the number of a block with its record, and
a member with a heartbeat sets the flag of the branch. -/
structure HeartbeatsRecorded (done : List Entry) (state : BranchState) : Prop where
  recorded : ∀ member ∈ state.members, member.lastHeartbeatBlock = -1 ∨
    ∃ entry ∈ done, entry.2.transactionType = .heartBeat ∧
      entry.2.senderPublicKey = member.publicKey ∧ entry.1.number = member.lastHeartbeatBlock
  flagged : ∀ member ∈ state.members, 0 ≤ member.lastHeartbeatBlock →
    state.chainHasHeartbeatRecords = true

theorem heartbeatsRecorded_initial : HeartbeatsRecorded [] .initial where
  recorded := by simp [BranchState.initial]
  flagged := by simp [BranchState.initial]

namespace HeartbeatsRecorded

variable {done : List Entry} {state next : BranchState}

/-- A record after which every member has the heartbeat of an old member of its
key, or none. -/
theorem carried (held : HeartbeatsRecorded done state) (entry : Entry)
    (members : ∀ member ∈ next.members, member.lastHeartbeatBlock = -1 ∨
      ∃ old ∈ state.members, old.publicKey = member.publicKey ∧
        old.lastHeartbeatBlock = member.lastHeartbeatBlock)
    (flag : next.chainHasHeartbeatRecords = state.chainHasHeartbeatRecords) :
    HeartbeatsRecorded (done ++ [entry]) next where
  recorded := by
    intro member found
    rcases members member found with none | ⟨old, inOld, key, shown⟩
    · exact .inl none
    · rcases held.recorded old inOld with none | ⟨shownBy, listed, kind, sender, number⟩
      · exact .inl (shown ▸ none)
      · exact .inr ⟨shownBy, List.mem_append_left _ listed, kind, sender.trans key,
          number.trans shown⟩
  flagged := by
    intro member found positive
    rcases members member found with none | ⟨old, inOld, -, shown⟩
    · omega
    · rw [flag]
      exact held.flagged old inOld (shown ▸ positive)

theorem unchanged (held : HeartbeatsRecorded done state) (entry : Entry)
    (members : next.members = state.members)
    (flag : next.chainHasHeartbeatRecords = state.chainHasHeartbeatRecords) :
    HeartbeatsRecorded (done ++ [entry]) next := by
  refine held.carried entry (fun member found => .inr ⟨member, members ▸ found, rfl, rfl⟩) flag

/-- Renaming keeps the keys and the heartbeats. -/
theorem claiming (held : HeartbeatsRecorded done state) (entry : Entry)
    {members : List BranchMember} {key name normalized : Text}
    (kept : ∀ member ∈ members, member.lastHeartbeatBlock = -1 ∨ member ∈ state.members)
    (claimed : Claimed members state.nameOwners key name next.members next.nameOwners normalized)
    (flag : next.chainHasHeartbeatRecords = state.chainHasHeartbeatRecords) :
    HeartbeatsRecorded (done ++ [entry]) next := by
  refine held.carried entry (fun member found => ?_) flag
  rw [claimed.renamed_eq, updateMember] at found
  obtain ⟨old, inOld, rfl | ⟨-, rfl⟩⟩ := mem_updateFirst found
  · exact (kept _ inOld).imp_right fun listed => ⟨_, listed, rfl, rfl⟩
  · exact (kept old inOld).imp_right fun listed => ⟨old, listed, rfl, rfl⟩

theorem heartBeat (held : HeartbeatsRecorded done state) {block : Block} {record : Record}
    (kind : record.transactionType = .heartBeat)
    (members : next.members = updateMember
      (fun member => { member with lastHeartbeatBlock := block.number }) record.senderPublicKey
      state.members)
    (flag : next.chainHasHeartbeatRecords = true) :
    HeartbeatsRecorded (done ++ [(block, record)]) next where
  recorded := by
    intro member found
    rw [members, updateMember] at found
    obtain ⟨old, inOld, rfl | ⟨key, rfl⟩⟩ := mem_updateFirst found
    · rcases held.recorded member inOld with none | ⟨shownBy, listed, rest⟩
      · exact .inl none
      · exact .inr ⟨shownBy, List.mem_append_left _ listed, rest⟩
    · exact .inr ⟨(block, record), by simp, kind, key.symm, rfl⟩
  flagged := fun _ _ _ => flag

end HeartbeatsRecorded

/-- A join adds a member without a heartbeat, or none. -/
theorem mem_joinedMembers_cases {block : Block} {state : BranchState} {record : Record}
    {member : BranchMember} (found : member ∈ joinedMembers block state record) :
    member.lastHeartbeatBlock = -1 ∨ member ∈ state.members := by
  unfold joinedMembers at found
  split at found
  · exact .inr found
  · rcases List.mem_append.mp found with old | new
    · exact .inr old
    · rw [List.mem_singleton.mp new]
      exact .inl rfl

theorem heartbeatsRecorded_step (chain : List Block) :
    PreservedByRecords env chain HeartbeatsRecorded := by
  intro before block after earlier record later state seen next _ _ held connected
  generalize history before block earlier = done at held ⊢
  have marked : HeartbeatsRecorded done (acceptHash state record) := ⟨held.recorded, held.flagged⟩
  cases (connected_of_ok connected).applied with
  | join kind fresh unnamed =>
      refine marked.carried _ (fun member found => ?_) rfl
      rcases mem_joinedMembers_cases found with none | old
      · exact .inl none
      · exact .inr ⟨member, old, rfl, rfl⟩
  | joinNamed kind fresh named renamed owners claimed =>
      obtain ⟨normalized, granted⟩ := claimBranchName_some claimed
      exact marked.claiming _ (fun member found => mem_joinedMembers_cases found) granted rfl
  | rename kind member named renamed owners claimed =>
      obtain ⟨normalized, granted⟩ := claimBranchName_some claimed
      exact marked.claiming _ (fun member found => .inr found) granted rfl
  | heartBeat kind member => exact marked.heartBeat kind rfl rfl
  | issue | transfer | vote | strayHeartBeat | carryForward | carryForwardAgain =>
      exact marked.unchanged _ rfl rfl

theorem heartbeatsRecorded_of_connected {state : BranchState}
    (connected : connectChain env chain = .ok state) :
    HeartbeatsRecorded (chainEntries chain) state :=
  holds_after_blocks heartbeatsRecorded_initial (heartbeatsRecorded_step chain)
    (fun _ _ _ held => ⟨held.recorded, held.flagged⟩) (List.append_nil chain).symm connected

/-! ### Eligible members -/

def Joined (entries : List Entry) (key : Text) : Prop :=
  ∃ entry ∈ entries, entry.2.transactionType = .joinNetwork ∧ entry.2.senderPublicKey = key

/-- A heartbeat of the key in a block from `cutoff` on. -/
def ShownSince (cutoff : Int) (entries : List Entry) (key : Text) : Prop :=
  ∃ entry ∈ entries, entry.2.transactionType = .heartBeat ∧ entry.2.senderPublicKey = key ∧
    cutoff ≤ entry.1.number

theorem chainEntries_subset {front rest : List Block} (place : chain = front ++ rest) :
    chainEntries front ⊆ chainEntries chain := by
  intro entry member
  rw [mem_chainEntries] at member ⊢
  exact ⟨place ▸ List.mem_append_left _ member.1, member.2⟩

theorem mem_activeMemberKeysForBlock {members : List BranchMember}
    {chainHasHeartbeatRecords : Bool} {blockNumber : Int} {key : Text} :
    key ∈ activeMemberKeysForBlock members chainHasHeartbeatRecords blockNumber ↔
      ∃ member ∈ members, member.publicKey = key ∧ (chainHasHeartbeatRecords = false ∨
        blockNumber - heartbeatValidBlocks ≤ member.lastHeartbeatBlock) := by
  simp only [activeMemberKeysForBlock, List.mem_map, List.mem_filter, decide_eq_true_eq]
  constructor
  · rintro ⟨member, ⟨found, active⟩, key⟩
    exact ⟨member, found, key, active⟩
  · rintro ⟨member, found, key, active⟩
    exact ⟨member, ⟨found, active⟩, key⟩

/-- An active member of a branch state joined in the branch, and where the state
has a heartbeat it showed itself in time. -/
theorem eligible_of_active {state : BranchState} (connected : connectChain env chain = .ok state)
    {blockNumber : Int} {key : Text} (active : key ∈ activeMemberKeysForBlock state.members
      state.chainHasHeartbeatRecords blockNumber) :
    Joined (chainEntries chain) key ∧
      (heartbeatValidBlocks ≤ blockNumber →
        (∃ member ∈ state.members, 0 ≤ member.lastHeartbeatBlock) →
          ShownSince (blockNumber - heartbeatValidBlocks) (chainEntries chain) key) := by
  obtain ⟨member, found, rfl, recent⟩ := mem_activeMemberKeysForBlock.mp active
  have recorded := heartbeatsRecorded_of_connected connected
  refine ⟨(membersWellFormed_of_connected connected).joined _ (List.mem_map_of_mem found),
    fun late shown => ?_⟩
  obtain ⟨other, otherFound, positive⟩ := shown
  have cutoff : blockNumber - heartbeatValidBlocks ≤ member.lastHeartbeatBlock := by
    refine recent.resolve_left ?_
    rw [recorded.flagged other otherFound positive]
    decide
  rcases recorded.recorded member found with none | ⟨entry, listed, kind, sender, number⟩
  · omega
  · exact ⟨entry, listed, kind, sender, number ▸ cutoff⟩

/-- The members that a creator is selected from: those of the parent state on the
fallback, else those of the checkpoint. -/
def selectedMembers (authorization : Selector.Authorization) (snapshot : BranchSnapshot)
    (state : BranchState) : List BranchMember :=
  if authorization.latestStateFallback then state.members else snapshot.members

/-- What stands before a block of an accepted chain, and how its creator was found. -/
structure AuthorizedAt (env : Env) (before : List Block) (block : Block) (genesis parent : Block)
    (state : BranchState) (snapshot : BranchSnapshot) : Prop where
  head : before.head? = some genesis
  last : before.getLast? = some parent
  connected : connectChain env before = .ok state
  selected : selectionSnapshotForBlock state.snapshots block.number genesis.number = some snapshot
  creator : (branchAuthorization env before state parent genesis snapshot block.number).creator =
    block.creatorKey
  present : block.creatorKey ≠ []

theorem authorizedAt_of_accepts (accepted : Accepts env chain) {before after : List Block}
    {block : Block} (place : chain = before ++ block :: after) (later : before ≠ []) :
    ∃ genesis parent state snapshot, AuthorizedAt env before block genesis parent state snapshot := by
  obtain ⟨-, finish, connected⟩ := accepts_iff.mp accepted
  rw [place, List.append_cons] at connected
  obtain ⟨reached, throughBlock⟩ := connectChain_prefix connected
  obtain ⟨state, below, stepped⟩ := connectChain_snoc_ok_iff.mp throughBlock
  have link := (checkHeader_ok_iff.mp (connectBlock_ok_iff.mp stepped).1).2
  have last := List.getLast?_eq_some_getLast later
  obtain ⟨genesis, head, sameLink⟩ := checkLink_of_parent env last state block
  rw [sameLink] at link
  obtain ⟨-, -, -, snapshot, selected, -, checked⟩ := checkParentLink_ok_iff.mp link
  obtain ⟨present, creator⟩ := checkCreator_ok_iff.mp checked
  exact ⟨genesis, _, state, snapshot, head, last, below, selected, creator, creator ▸ present⟩

section Eligible

variable {before : List Block} {block genesis parent : Block} {state : BranchState}
variable {snapshot : BranchSnapshot}
variable (authorized : AuthorizedAt env before block genesis parent state snapshot)
include authorized

/-- The seeds of both selections are hashes of connected blocks. -/
theorem AuthorizedAt.seeded : snapshot.blockHash ≠ [] ∧ parent.hash ≠ [] := by
  obtain ⟨front, last, rest, reached, -, -, connectedThere, found⟩ :=
    selectionSnapshot_reached authorized.head authorized.connected block.number
  obtain rfl : snapshot = snapshotOf last reached :=
    Option.some.inj (authorized.selected.symm.trans found)
  exact ⟨hashes_of_connected connectedThere last (by simp),
    hashes_of_connected authorized.connected parent (List.mem_of_getLast? authorized.last)⟩

theorem AuthorizedAt.eligible :
    (branchAuthorization env before state parent genesis snapshot block.number).recoveryMode = true ∧
        block.creatorKey = configuredRecoveryPublicKey env genesis.creatorKey ∨
      (branchAuthorization env before state parent genesis snapshot
          block.number).recoveryMode = false ∧
        Joined (chainEntries before) block.creatorKey ∧
        (heartbeatValidBlocks ≤ block.number →
          (∃ member ∈ selectedMembers (branchAuthorization env before state parent genesis snapshot
            block.number) snapshot state, 0 ≤ member.lastHeartbeatBlock) →
          ShownSince (block.number - heartbeatValidBlocks) (chainEntries before)
            block.creatorKey) := by
  obtain ⟨seeded, parentSeeded⟩ := authorized.seeded
  have creator := authorized.creator
  by_cases active : checkpointUsers snapshot block.number = []
  · by_cases latest : latestUsers state block.number = []
    · rw [branchAuthorization_recovery active latest] at creator ⊢
      split
      · rename_i open_
        rw [if_pos open_] at creator
        exact .inl ⟨rfl, creator.symm⟩
      · rename_i closed
        rw [if_neg closed] at creator
        exact absurd creator.symm authorized.present
    · rw [branchAuthorization_latest active parentSeeded latest] at creator ⊢
      refine .inr ⟨rfl, ?_⟩
      rw [← creator]
      exact eligible_of_active authorized.connected (getSelectedUserForBlock_mem latest _ _)
  · rw [branchAuthorization_checkpoint seeded active] at creator ⊢
    refine .inr ⟨rfl, ?_⟩
    obtain ⟨front, last, rest, reached, place, -, connectedThere, found⟩ :=
      selectionSnapshot_reached authorized.head authorized.connected block.number
    obtain rfl : snapshot = snapshotOf last reached :=
      Option.some.inj (authorized.selected.symm.trans found)
    rw [List.append_cons] at place
    have earlier := chainEntries_subset place
    rw [← creator]
    obtain ⟨⟨entry, listed, joined⟩, shown⟩ :=
      eligible_of_active connectedThere (getSelectedUserForBlock_mem active _ _)
    refine ⟨⟨entry, earlier listed, joined⟩, fun late heartbeat => ?_⟩
    obtain ⟨beat, beatListed, kind, sender, recent⟩ := shown late heartbeat
    exact ⟨beat, earlier beatListed, kind, sender, recent⟩

end Eligible

/-- The creator of every later block of an accepted chain is the recovery key in
recovery mode, and else a member of an earlier block whose heartbeat is recent
where heartbeats count. -/
theorem creators_eligible (env : Env) (chain : List Block) (accepted : Accepts env chain)
    (before after : List Block) (block : Block) (place : chain = before ++ block :: after)
    (later : before ≠ []) :
    ∃ genesis parent state snapshot, AuthorizedAt env before block genesis parent state snapshot ∧
      ((branchAuthorization env before state parent genesis snapshot
            block.number).recoveryMode = true ∧
          block.creatorKey = configuredRecoveryPublicKey env genesis.creatorKey ∨
        (branchAuthorization env before state parent genesis snapshot
            block.number).recoveryMode = false ∧
          Joined (chainEntries before) block.creatorKey ∧
          (heartbeatValidBlocks ≤ block.number →
            (∃ member ∈ selectedMembers (branchAuthorization env before state parent genesis
              snapshot block.number) snapshot state, 0 ≤ member.lastHeartbeatBlock) →
            ShownSince (block.number - heartbeatValidBlocks) (chainEntries before)
              block.creatorKey)) := by
  obtain ⟨genesis, parent, state, snapshot, authorized⟩ :=
    authorizedAt_of_accepts accepted place later
  exact ⟨genesis, parent, state, snapshot, authorized, authorized.eligible⟩

theorem creators_eligible_of_validSpend :
    ∃ genesis parent state snapshot,
      AuthorizedAt Sample.env [Sample.genesis] Sample.validSpend genesis parent state snapshot ∧
      ((branchAuthorization Sample.env [Sample.genesis] state parent genesis snapshot
            Sample.validSpend.number).recoveryMode = true ∧
          Sample.validSpend.creatorKey =
            configuredRecoveryPublicKey Sample.env genesis.creatorKey ∨
        (branchAuthorization Sample.env [Sample.genesis] state parent genesis snapshot
            Sample.validSpend.number).recoveryMode = false ∧
          Joined (chainEntries [Sample.genesis]) Sample.validSpend.creatorKey ∧
          (heartbeatValidBlocks ≤ Sample.validSpend.number →
            (∃ member ∈ selectedMembers (branchAuthorization Sample.env [Sample.genesis] state parent
              genesis snapshot Sample.validSpend.number) snapshot state,
              0 ≤ member.lastHeartbeatBlock) →
            ShownSince (Sample.validSpend.number - heartbeatValidBlocks)
              (chainEntries [Sample.genesis]) Sample.validSpend.creatorKey)) :=
  creators_eligible Sample.env [Sample.genesis, Sample.validSpend] Sample.accepts_validSpend
    [Sample.genesis] [] Sample.validSpend rfl (by simp)

/-! ### Selection depends on the checkpoint -/

/-- In an ascending chain the blocks up to a number come first. -/
theorem takeWhile_eq_filter (ascending : Ascending chain) (boundary : Int) :
    chain.takeWhile (fun block => decide (block.number ≤ boundary)) =
      chain.filter (fun block => decide (block.number ≤ boundary)) := by
  obtain ⟨-, sorted⟩ := ascending
  induction chain with
  | nil => rfl
  | cons first rest ih =>
      obtain ⟨below, restSorted⟩ := List.pairwise_cons.mp sorted
      by_cases covered : first.number ≤ boundary
      · rw [List.takeWhile_cons_of_pos (by simpa using covered),
          List.filter_cons_of_pos (by simpa using covered), ih restSorted]
      · rw [List.takeWhile_cons_of_neg (by simpa using covered),
          List.filter_cons_of_neg (by simpa using covered)]
        refine (List.filter_eq_nil_iff.mpr fun other member => ?_).symm
        have above := below other member
        simp only [decide_eq_true_eq]
        omega

/-- Ascending chains with the same blocks up to a number begin alike. -/
theorem filter_eq_of_same {left right : List Block} (leftAscending : Ascending left)
    (rightAscending : Ascending right) {boundary : Int}
    (same : ∀ block, block.number ≤ boundary → (block ∈ left ↔ block ∈ right)) :
    left.filter (fun block => decide (block.number ≤ boundary)) =
      right.filter (fun block => decide (block.number ≤ boundary)) := by
  have distinct : ∀ {chain : List Block}, Ascending chain → chain.Nodup :=
    fun ascending => ascending.sorted.imp fun below equal => (equal ▸ below).false
  have permuted : (left.filter (fun block => decide (block.number ≤ boundary))).Perm
      (right.filter (fun block => decide (block.number ≤ boundary))) := by
    refine (List.perm_ext_iff_of_nodup ((distinct leftAscending).filter _)
      ((distinct rightAscending).filter _)).mpr fun block => ?_
    simp only [List.mem_filter, decide_eq_true_eq]
    constructor
    · rintro ⟨member, covered⟩
      exact ⟨(same block covered).mp member, covered⟩
    · rintro ⟨member, covered⟩
      exact ⟨(same block covered).mpr member, covered⟩
  exact List.Perm.eq_of_pairwise
    (fun earlier later _ _ (below : earlier.number < later.number)
      (above : later.number < earlier.number) => absurd above below.asymm)
    (leftAscending.sorted.filter _) (rightAscending.sorted.filter _) permuted

/-- The creator of a slot, where the state of its checkpoint has an active member. -/
theorem branchSelectedCreator_of_checkpoint {genesis : Block} {state checkpoint : BranchState}
    (head : chain.head? = some genesis) (connected : connectChain env chain = .ok state)
    {blockNumber : Int}
    (reached : connectChain env (chain.filter (fun block => decide (block.number ≤
      Selector.getSelectionBoundaryBlock blockNumber genesis.number))) = .ok checkpoint)
    (active : latestUsers checkpoint blockNumber ≠ []) :
    ∃ last, (chain.filter (fun block => decide (block.number ≤
        Selector.getSelectionBoundaryBlock blockNumber genesis.number))).getLast? = some last ∧
      branchSelectedCreator env chain state blockNumber =
        some (Selector.getSelectedUserForBlock env blockNumber last.hash
          (latestUsers checkpoint blockNumber)) := by
  obtain ⟨front, last, rest, atLast, -, taken, connectedThere, found⟩ :=
    selectionSnapshot_reached head connected blockNumber
  rw [takeWhile_eq_filter (ascending_of_connected connected)] at taken
  rw [taken, connectedThere] at reached
  injection reached with same
  subst same
  have users : checkpointUsers (snapshotOf last atLast) blockNumber =
      latestUsers atLast blockNumber := rfl
  have seeded := hashes_of_connected connectedThere last (by simp)
  obtain ⟨parent, tip⟩ : ∃ parent, chain.getLast? = some parent :=
    ⟨_, List.getLast?_eq_some_getLast (List.ne_nil_of_mem (List.mem_of_mem_head? head))⟩
  refine ⟨last, by rw [taken]; simp, ?_⟩
  rw [branchSelectedCreator, head, tip]
  dsimp only
  rw [found, Option.map_some, branchAuthorization_checkpoint seeded (users ▸ active), users]
  rfl

/-- Two branches with the same blocks up to the boundary of a slot authorise the
same creator for it, if the state there has an active member. -/
theorem selection_depends_on_checkpoint (env : Env) (left right : List Block)
    (leftAccepted : Accepts env left) (rightAccepted : Accepts env right) (genesis : Block)
    (leftHead : left.head? = some genesis) (rightHead : right.head? = some genesis)
    (blockNumber : Int)
    (same : ∀ block : Block,
      block.number ≤ Selector.getSelectionBoundaryBlock blockNumber genesis.number →
        (block ∈ left ↔ block ∈ right))
    (checkpoint : BranchState)
    (reached : connectChain env (left.filter (fun block => decide (block.number ≤
      Selector.getSelectionBoundaryBlock blockNumber genesis.number))) = .ok checkpoint)
    (active : activeMemberKeysForBlock checkpoint.members checkpoint.chainHasHeartbeatRecords
      blockNumber ≠ []) :
    ∃ leftState rightState creator, connectChain env left = .ok leftState ∧
      connectChain env right = .ok rightState ∧
      branchSelectedCreator env left leftState blockNumber = some creator ∧
      branchSelectedCreator env right rightState blockNumber = some creator := by
  obtain ⟨-, leftState, leftConnected⟩ := accepts_iff.mp leftAccepted
  obtain ⟨-, rightState, rightConnected⟩ := accepts_iff.mp rightAccepted
  obtain ⟨leftLast, leftEnd, leftCreator⟩ :=
    branchSelectedCreator_of_checkpoint leftHead leftConnected reached active
  rw [filter_eq_of_same (ascending_of_accepts leftAccepted) (ascending_of_accepts rightAccepted)
    same] at reached leftEnd
  obtain ⟨rightLast, rightEnd, rightCreator⟩ :=
    branchSelectedCreator_of_checkpoint rightHead rightConnected reached active
  obtain rfl : leftLast = rightLast := Option.some.inj (leftEnd.symm.trans rightEnd)
  exact ⟨leftState, rightState, _, leftConnected, rightConnected, leftCreator, rightCreator⟩

theorem selection_of_sample_branches :
    ∃ leftState rightState creator,
      connectChain Sample.env [Sample.genesis, Sample.validSpend] = .ok leftState ∧
      connectChain Sample.env [Sample.genesis, Sample.joinedBlock] = .ok rightState ∧
      branchSelectedCreator Sample.env [Sample.genesis, Sample.validSpend] leftState 103 =
        some creator ∧
      branchSelectedCreator Sample.env [Sample.genesis, Sample.joinedBlock] rightState 103 =
        some creator := by
  obtain ⟨-, checkpoint, connected⟩ := accepts_iff.mp Sample.accepts_genesis
  have active : latestUsers checkpoint 103 ≠ [] := by
    have shown : (connectChain Sample.env [Sample.genesis]).map
        (fun state => decide (latestUsers state 103 = [])) = .ok false := by
      decide +kernel
    rw [connected] at shown
    injection shown with idle
    exact of_decide_eq_false idle
  have covered : [Sample.genesis, Sample.validSpend].filter (fun block => decide (block.number ≤
      Selector.getSelectionBoundaryBlock 103 Sample.genesis.number)) = [Sample.genesis] := rfl
  refine selection_depends_on_checkpoint Sample.env _ _ Sample.accepts_validSpend
    LedgerState.accepts_joinedBlock Sample.genesis rfl rfl 103 (fun block below => ?_) checkpoint
    (covered ▸ connected) active
  have late : ∀ other : Block, other.number = 101 → block ≠ other := by
    rintro other number rfl
    rw [number] at below
    exact absurd below (by decide)
  simp [late Sample.validSpend rfl, late Sample.joinedBlock rfl]

/-! ### The recovery window -/

/-- The recovery branch of the selector authorised the block. -/
def authorizedByRecovery (env : Env) (before : List Block) (block : Block) : Bool :=
  match connectChain env before, before.head?, before.getLast? with
  | .ok state, some genesis, some parent =>
      (selectionSnapshotForBlock state.snapshots block.number genesis.number).any fun snapshot =>
        (branchAuthorization env before state parent genesis snapshot block.number).recoveryMode
  | _, _, _ => false

/-- The number of blocks at the end of a chain that the recovery branch authorised. -/
def trailingRecoveryRun (env : Env) (chain : List Block) : Nat :=
  ((List.range chain.length).reverse.takeWhile fun index =>
    chain[index]?.any (authorizedByRecovery env (chain.take index))).length

/-- The number of blocks at the end of a chain that the key created. -/
def trailingKeyRun (chain : List Block) (key : Text) : Nat :=
  (chain.reverse.takeWhile fun block => decide (block.creatorKey = key)).length

theorem configuredRecoveryPublicKey_ne_nil {genesisCreatorKey : Text}
    (present : genesisCreatorKey ≠ []) : configuredRecoveryPublicKey env genesisCreatorKey ≠ [] := by
  unfold configuredRecoveryPublicKey
  split
  · rename_i configured
    exact List.ne_nil_of_length_pos configured
  · exact present

theorem consecutiveRecoveryBlocksInBranch_lt_iff {recoveryPublicKey : Text}
    (present : recoveryPublicKey ≠ []) :
    consecutiveRecoveryBlocksInBranch chain recoveryPublicKey < Selector.getRecoveryWindowBlocks ↔
      (trailingKeyRun chain recoveryPublicKey : Int) < Selector.getRecoveryWindowBlocks := by
  rw [consecutiveRecoveryBlocksInBranch, if_neg (by simpa using present), trailingKeyRun]
  dsimp only
  rw [min_lt_iff, or_iff_left (lt_irrefl _)]

theorem active_ne_nil {state : BranchState} (connected : connectChain env chain = .ok state)
    {blockNumber : Int} {key : Text} (active : key ∈ activeMemberKeysForBlock state.members
      state.chainHasHeartbeatRecords blockNumber) : key ≠ [] := by
  obtain ⟨⟨entry, listed, kind, rfl⟩, -⟩ := eligible_of_active connected active
  obtain ⟨isGenesis, earlier, next, step⟩ := entry_connected connected listed
  exact (step.signed (by rw [recordRequiresSenderSignature, kind])).1

section Window

variable {genesis parent : Block} {state : BranchState} {snapshot : BranchSnapshot}
variable {blockNumber : Int}
variable (head : chain.head? = some genesis) (last : chain.getLast? = some parent)
variable (connected : connectChain env chain = .ok state)
variable (selected : selectionSnapshotForBlock state.snapshots blockNumber genesis.number =
  some snapshot)
include head last connected selected

/-- A slot after a connected chain has a creator where a member is active at the
checkpoint or at the tip, or where the recovery key has not filled its window. -/
theorem creator_present_iff :
    (branchAuthorization env chain state parent genesis snapshot blockNumber).creator ≠ [] ↔
      checkpointUsers snapshot blockNumber ≠ [] ∨ latestUsers state blockNumber ≠ [] ∨
        (trailingKeyRun chain (configuredRecoveryPublicKey env genesis.creatorKey) : Int) <
          Selector.getRecoveryWindowBlocks := by
  have key : configuredRecoveryPublicKey env genesis.creatorKey ≠ [] :=
    configuredRecoveryPublicKey_ne_nil
      (creators_of_connected connected genesis (List.mem_of_mem_head? head))
  obtain ⟨front, lastCovered, rest, reached, -, -, connectedThere, found⟩ :=
    selectionSnapshot_reached head connected blockNumber
  obtain rfl : snapshot = snapshotOf lastCovered reached :=
    Option.some.inj (selected.symm.trans found)
  by_cases active : checkpointUsers (snapshotOf lastCovered reached) blockNumber = []
  · by_cases latest : latestUsers state blockNumber = []
    · rw [branchAuthorization_recovery active latest, ← consecutiveRecoveryBlocksInBranch_lt_iff key]
      split
      · rename_i open_
        simp [open_.2, key]
      · rename_i closed
        simp only [key, ne_eq, not_false_eq_true, true_and] at closed
        simp [active, latest, closed]
    · have parentSeeded := hashes_of_connected connected parent (List.mem_of_getLast? last)
      rw [branchAuthorization_latest active parentSeeded latest]
      simp only [latest, ne_eq, not_false_eq_true, true_or, or_true, iff_true]
      exact active_ne_nil connected (getSelectedUserForBlock_mem latest _ _)
  · have seeded := hashes_of_connected connectedThere lastCovered (by simp)
    rw [branchAuthorization_checkpoint seeded active]
    simp only [active, ne_eq, not_false_eq_true, true_or, iff_true]
    exact active_ne_nil connectedThere (getSelectedUserForBlock_mem active _ _)

end Window

/-- A chain that has not used its recovery window has a creator for a later slot,
if and only if some member is active for it or the recovery key created fewer
blocks in a row than the window has, in recovery mode or not. -/
theorem never_frozen_iff (env : Env) (chain : List Block) (accepted : Accepts env chain)
    (blockNumber : Int) :
    ∃ genesis parent state snapshot, chain.head? = some genesis ∧ chain.getLast? = some parent ∧
      connectChain env chain = .ok state ∧
      selectionSnapshotForBlock state.snapshots blockNumber genesis.number = some snapshot ∧
      (((trailingRecoveryRun env chain : Int) < Selector.getRecoveryWindowBlocks →
          (branchAuthorization env chain state parent genesis snapshot blockNumber).creator ≠ []) ↔
        ((trailingRecoveryRun env chain : Int) < Selector.getRecoveryWindowBlocks →
          checkpointUsers snapshot blockNumber ≠ [] ∨ latestUsers state blockNumber ≠ [] ∨
            (trailingKeyRun chain (configuredRecoveryPublicKey env genesis.creatorKey) : Int) <
              Selector.getRecoveryWindowBlocks)) := by
  obtain ⟨present, state, connected⟩ := accepts_iff.mp accepted
  obtain ⟨genesis, rest, rfl⟩ := List.exists_cons_of_ne_nil present
  have head : (genesis :: rest).head? = some genesis := rfl
  have last := List.getLast?_eq_some_getLast present
  obtain ⟨-, lastCovered, -, reached, -, -, -, selected⟩ :=
    selectionSnapshot_reached head connected blockNumber
  exact ⟨genesis, _, state, _, head, last, connected, selected,
    imp_congr_right fun _ => creator_present_iff head last connected selected⟩

/-- The only member creates ten blocks in its turn, and its heartbeat has expired
by the slot: the recovery branch was never used and is closed. -/
def frozenChain : List Block :=
  Sample.genesis :: Sample.beatBlock :: Sample.idleBlocks

theorem frozenChain_without_creator :
    Accepts Sample.env frozenChain ∧
      trailingRecoveryRun Sample.env frozenChain = 0 ∧
      (∀ block ∈ frozenChain, block.number < 6200) ∧
      (connectChain Sample.env frozenChain).map
        (fun state => branchSelectedCreator Sample.env frozenChain state 6200) = .ok (some []) := by
  have creator : (connectChain Sample.env frozenChain).map
      (fun state => branchSelectedCreator Sample.env frozenChain state 6200) = .ok (some []) := by
    decide +kernel
  have accepted : Accepts Sample.env frozenChain := by
    refine accepts_iff.mpr ⟨List.cons_ne_nil _ _, ?_⟩
    cases connected : connectChain Sample.env frozenChain with
    | error reason =>
        rw [connected] at creator
        cases creator
    | ok state => exact ⟨state, rfl⟩
  refine ⟨accepted, ?_, by decide, creator⟩
  have ordinary : frozenChain[9]?.any
      (authorizedByRecovery Sample.env (frozenChain.take 9)) = false := by
    decide +kernel
  have size : frozenChain.length = 10 := rfl
  rw [trailingRecoveryRun, size, List.range_succ, List.reverse_append, List.reverse_singleton,
    List.singleton_append, List.takeWhile_cons_of_neg (by rw [ordinary]; decide)]
  rfl

theorem never_frozen_of_validSpend :
    ∃ genesis parent state snapshot,
      [Sample.genesis, Sample.validSpend].head? = some genesis ∧
      [Sample.genesis, Sample.validSpend].getLast? = some parent ∧
      connectChain Sample.env [Sample.genesis, Sample.validSpend] = .ok state ∧
      selectionSnapshotForBlock state.snapshots 103 genesis.number = some snapshot ∧
      (((trailingRecoveryRun Sample.env [Sample.genesis, Sample.validSpend] : Int) <
          Selector.getRecoveryWindowBlocks →
          (branchAuthorization Sample.env [Sample.genesis, Sample.validSpend] state parent genesis
            snapshot 103).creator ≠ []) ↔
        ((trailingRecoveryRun Sample.env [Sample.genesis, Sample.validSpend] : Int) <
          Selector.getRecoveryWindowBlocks →
          checkpointUsers snapshot 103 ≠ [] ∨ latestUsers state 103 ≠ [] ∨
            (trailingKeyRun [Sample.genesis, Sample.validSpend]
              (configuredRecoveryPublicKey Sample.env genesis.creatorKey) : Int) <
              Selector.getRecoveryWindowBlocks)) :=
  never_frozen_iff Sample.env _ Sample.accepts_validSpend 103

end Safire.ChainValidator
