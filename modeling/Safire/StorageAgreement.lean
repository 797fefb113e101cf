/-
The storage validator against the branch validator, for a block on the tip of a
stored chain.

Both loops run over the same records. They agree as long as no record that they
reach depends on an effect which the storage validator does not apply inside the
block, on the rewards that the ledger refuses to pay or on its legacy nonces. A
block that one of them admits is admitted by both only then.
-/

import Safire.LedgerDeltas
import Safire.PublicNames
import Safire.StorageSelection

namespace Safire.ChainValidator

open Loop
open LedgerState (LegacyNoncesCovered NoncesRaised deltaSum openedBy anyRecord)

variable {env : Env} {db : LevelDb} {chain : List Block}

/-! ### When a block is within the common rules -/

/-- The record types whose rule reads the member list. -/
def readsMembers (record : Record) : Bool :=
  decide (record.transactionType = .joinNetwork) ||
    decide (record.transactionType = .updateName) || decide (record.transactionType = .heartBeat)

def isSpending (record : Record) : Bool :=
  decide (record.transactionType = .transferCurrency) || decide (record.transactionType = .vote)

/-- What the sender of a transfer or a vote has to hold. -/
def spentAmount (record : Record) : Rat :=
  if record.transactionType = .vote then record.fee else transferDebit record

/-- The funds of a key before a record as the storage validator has them: the ledger
paid the rewards that match the checkpoint, up to the tip. -/
def storageFunds (env : Env) (db : LevelDb) (chain : List Block) (block : Block)
    (earlier : List Record) (key : Text) : Rat :=
  deltaSum key (history chain block earlier) +
    carryForwardReward *
      openedBy (LedgerState.carryForwardSnapshotMatches env db) key (chainEntries chain)

/-- The same funds as the branch validator has them: every reward, up to the record. -/
def branchFunds (chain : List Block) (block : Block) (earlier : List Record) (key : Text) : Rat :=
  deltaSum key (history chain block earlier) +
    carryForwardReward * openedBy anyRecord key (history chain block earlier)

/-- Another key than the owner has the name. -/
def HeldByAnother (entries : List Entry) (name owner : Text) : Prop :=
  ∃ key, key ≠ owner ∧ normalizedName (lastName key entries) = some name

/-- A record, with the records `earlier` before it in its block, on top of a chain. -/
structure RecordAligned (env : Env) (db : LevelDb) (chain : List Block) (block : Block)
    (earlier : List Record) (record : Record) : Prop where
  known : record.transactionType ≠ .periodSummary
  carryForward : record.transactionType = .carryForward → 0 ≤ record.amount →
    0 ≤ parseCarryForwardValueLong record.value "checkpoint" ∧
      0 ≤ parseCarryForwardValueLong record.value "period" ∧
      parseCarryForwardValueLong record.value "checkpoint" < block.number
  members : readsMembers record = true →
    ∀ other ∈ earlier, other.transactionType = .joinNetwork →
      other.senderPublicKey ≠ record.senderPublicKey
  names : isNaming record = true → ∀ name, normalizedName record.name = some name →
    (HeldByAnother (history chain block earlier) name record.senderPublicKey ↔
      HeldByAnother (chainEntries chain) name record.senderPublicKey)
  funds : isSpending record = true →
    (spentAmount record ≤
        storageFunds env db chain block earlier record.senderPublicKey + balanceTolerance ↔
      spentAmount record ≤ branchFunds chain block earlier record.senderPublicKey + balanceTolerance)
  nonces : record.transactionType = .transferCurrency → block.recordsMerkleRoot ≠ [] →
    (∀ other ∈ earlier, other.transactionType = .transferCurrency →
      other.senderPublicKey ≠ record.senderPublicKey) →
    LegacyNoncesCovered chain record.senderPublicKey

/-- The type rule of a record is reached: the block has passed the checks of its
content and its link, the records before it were admitted, and its own hash and
signature are in order. -/
structure Reaches (env : Env) (chain : List Block) (block : Block) (earlier : List Record)
    (record : Record) : Prop where
  envelope : checkEnvelope env block = .ok ()
  rule : ∃ state progress, connectChain env chain = .ok state ∧
    checkLink env chain state block = .ok () ∧
    earlier.foldlM (recordStep env block false) (state, ∅) = .ok progress ∧
    checkRecordHash env progress.2 (progress.1.acceptedRecordHashes.contains record.hash) record =
      .ok () ∧
    checkRecordSignature env record = .ok ()

structure BlockAligned (env : Env) (db : LevelDb) (chain : List Block) (block : Block) : Prop where
  linked : checkEnvelope env block = .ok () → 0 < block.previousBlockId ∨
    env.config.genesisMatches block.number block.hash = false
  records : ∀ earlier record later, block.records = earlier ++ record :: later →
    Reaches env chain block earlier record → RecordAligned env db chain block earlier record

/-! ### The parent state -/

/-- The ledger state of the tip as the branch validator has it. -/
structure ParentMatches (env : Env) (db : LevelDb) (chain : List Block)
    (parentState : LedgerState.State) (state : BranchState) : Prop where
  members : parentState.members.map LedgerState.MemberState.toBranchMember = state.members
  flag : parentState.chainHasHeartbeatRecords = state.chainHasHeartbeatRecords
  names : ∀ key name, parentState.names[key]? = some name ↔
    name ≠ [] ∧ ∃ member ∈ state.members, member.publicKey = key ∧ member.name = name
  hashes : parentState.acceptedRecordHashes = state.acceptedRecordHashes
  balances : ∀ key, key ≠ [] → parentState.balances.getD key 0 =
    deltaSum key (chainEntries chain) + carryForwardReward *
      openedBy (LedgerState.carryForwardSnapshotMatches env db) key (chainEntries chain)
  nonces : ∀ key, parentState.nonces.getD key 0 = state.nonce key ↔ LegacyNoncesCovered chain key

theorem finish_hashes (progress : LedgerState.Progress) (wallet : Text) (now : Int) :
    (LedgerState.finish progress wallet now).acceptedRecordHashes =
      progress.result.acceptedRecordHashes := by
  unfold LedgerState.finish LedgerState.finishTotals LedgerState.finishHeartbeat
  dsimp only
  split_ifs <;> rfl

theorem parentMatches_computeState (accepted : Accepts env chain) (shaped : BuilderShaped chain)
    (stored : StoredAs env db chain) {state : BranchState}
    (connected : connectChain env chain = .ok state) {stop : Int}
    (covers : ∀ block ∈ chain, block.number ≤ stop) (now : Int) :
    ParentMatches env db chain (LedgerState.computeState env db now [] stop) state := by
  have whole : chain = chain ++ [] := (List.append_nil chain).symm
  have agree : LedgerState.MembersAgree (LedgerState.walkedProgress env db [] stop chain) state :=
    LedgerState.membersAgree_of_connected shaped whole connected _ [] _ _
  have related : LedgerState.AmountsRelated (LedgerState.carryForwardSnapshotMatches env db)
      (chainEntries chain) (LedgerState.walkedProgress env db [] stop chain) state :=
    LedgerState.amountsRelated_of_connected connected _ [] _ _
  rw [LedgerState.computeState_of_stored stored accepted now [] (.inr covers)]
  obtain ⟨members, flag, names⟩ :=
    agree.finished (membersWellFormed_of_connected connected).distinct [] now
  obtain ⟨balances, nonces⟩ :=
    LedgerState.finish_amounts (LedgerState.walkedProgress env db [] stop chain) [] now
  refine ⟨members, flag, names, ?_, ?_, ?_⟩
  · dsimp only
    rw [finish_hashes, agree.hashes]
  · intro key present
    dsimp only
    rw [balances]
    exact LedgerState.balancesSummed_of_connected connected _ [] _ _ key present
  · intro key
    dsimp only
    rw [nonces]
    exact LedgerState.nonce_agrees_iff related.nonces (noncesCount_of_connected connected) key

/-- The state that a build at the tip finds, on any cache that the store backs. -/
theorem parentMatches_build (accepted : Accepts env chain) (shaped : BuilderShaped chain)
    (stored : StoredAs env db chain) {state : BranchState}
    (connected : connectChain env chain = .ok state) {cache : LedgerState.Cache}
    (coherent : LedgerState.CacheCoherent env db cache) {tip : Block}
    (last : chain.getLast? = some tip) (now : Int) :
    ParentMatches env db chain (LedgerState.build env db cache now [] tip.number).1 state := by
  obtain ⟨first, latest⟩ := LedgerState.ends_of_stored stored accepted
  have tipNumber := stored.latest tip last
  have reached : 0 ≤ LedgerState.buildLatestBlockId db tip.number := by
    rw [LedgerState.buildLatestBlockId]
    split <;> omega
  rw [LedgerState.build_eq_computeState coherent first.le reached]
  exact parentMatches_computeState accepted shaped stored connected
    (fun other member => (ascending_of_accepts accepted).le_last last member) now

/-! ### The two record loops -/

theorem storeRecord_ok_iff {rules : StorageRules} {block : Block} {temporary next : Temporary}
    {record : Record} :
    storeRecord env rules block temporary record = .ok next ↔
      checkRecordHash env temporary.blockRecordHashes
          (rules.duplicateRecordInParent record.hash) record = .ok () ∧
        checkRecordSignature env record = .ok () ∧
        storeTyped rules block
          { temporary with
            blockRecordHashes := temporary.blockRecordHashes.insert record.hash } record =
          .ok next := by
  simp only [storeRecord, bind_ok_iff]
  constructor
  · rintro ⟨_, hashed, _, signed, typed⟩
    exact ⟨hashed, signed, typed⟩
  · rintro ⟨hashed, signed, typed⟩
    exact ⟨(), hashed, (), signed, typed⟩

theorem storeRecords_ok_iff {rules : StorageRules} {block : Block} :
    storeRecords env rules block = .ok () ↔
      ∃ finish, block.records.foldlM (storeRecord env rules block) (.start rules.parentState) =
        .ok finish := by
  rw [storeRecords, bind_ok_iff]
  simp

/-- The walk of the ledger over some entries beside the branch state after them. -/
def LedgerBeside (env : Env) (db : LevelDb) (done : List Entry) (state : BranchState) : Prop :=
  let matches_ := LedgerState.carryForwardSnapshotMatches env db
  let progress := LedgerState.walkEntries matches_ [] (.start 0 0) done
  LedgerState.AmountsRelated matches_ done progress state ∧
    LedgerState.BalancesSummed matches_ done progress

/-- The balance of the branch state is the sum of the amounts and of every reward. -/
theorem LedgerBeside.balance {done : List Entry} {state : BranchState}
    (beside : LedgerBeside env db done state) {key : Text} (present : key ≠ []) :
    state.balance key = deltaSum key done + carryForwardReward * openedBy anyRecord key done := by
  have related := beside.1.balances key present
  rw [beside.2 key present] at related
  linarith

/-- The temporaries of the storage validator beside the branch state, after the
records `earlier` of the block. -/
structure LoopsRelated (env : Env) (db : LevelDb) (chain : List Block) (block : Block)
    (parentState : LedgerState.State) (parentBranch : BranchState) (earlier : List Record)
    (temporary : Temporary) (progress : BranchState × TextSet) : Prop where
  seen : temporary.blockRecordHashes = progress.2
  hashes : ∀ hash, hash ∈ progress.1.acceptedRecordHashes ↔
    hash ∈ parentState.acceptedRecordHashes ∨ hash ∈ progress.2
  balances : ∀ key, key ≠ [] →
    temporary.balances.getD key 0 = storageFunds env db chain block earlier key
  ledger : LedgerBeside env db (history chain block earlier) progress.1
  unspent : ∀ key,
    (∀ other ∈ earlier, other.transactionType = .transferCurrency → other.senderPublicKey ≠ key) →
    temporary.nonces.getD key 0 = parentState.nonces.getD key 0 ∧
      progress.1.nonce key = parentBranch.nonce key
  spent : block.recordsMerkleRoot ≠ [] → ∀ other ∈ earlier,
    other.transactionType = .transferCurrency →
    temporary.nonces.getD other.senderPublicKey 0 = progress.1.nonce other.senderPublicKey
  joined : ∀ key, key ∈ memberKeys progress.1.members ↔
    key ∈ memberKeys parentBranch.members ∨
      ∃ other ∈ earlier, other.transactionType = .joinNetwork ∧ other.senderPublicKey = key
  fresh : ∀ other ∈ earlier, other.transactionType = .joinNetwork →
    other.senderPublicKey ∉ memberKeys parentBranch.members
  wellFormed : MembersWellFormed (history chain block earlier) progress.1
  recorded : NamesRecorded (history chain block earlier) progress.1

section Records

variable {block : Block} {parentState : LedgerState.State} {parentBranch : BranchState}
variable {earlier : List Record} {record : Record} {temporary : Temporary}
variable {progress : BranchState × TextSet}

theorem hash_checks_agree
    (related : LoopsRelated env db chain block parentState parentBranch earlier temporary progress) :
    checkRecordHash env temporary.blockRecordHashes
        (parentState.acceptedRecordHashes.contains record.hash) record = .ok () ↔
      checkRecordHash env progress.2 (progress.1.acceptedRecordHashes.contains record.hash) record =
        .ok () := by
  rw [checkRecordHash_ok_iff, checkRecordHash_ok_iff, related.seen]
  have split := related.hashes record.hash
  rw [← Bool.not_eq_true, ← Bool.not_eq_true, Std.ExtTreeSet.contains_iff_mem,
    Std.ExtTreeSet.contains_iff_mem]
  tauto

/-- A name that does not normalize is free or taken for both. -/
theorem taken_of_invalid {name : Text} (invalid : normalizedName name = none) (owner : Text)
    (owners : TextMap Text) :
    nameTakenByAnother parentState name owner = branchNameTakenByAnother owners name owner := by
  unfold nameTakenByAnother branchNameTakenByAnother
  dsimp only
  by_cases empty : (normalizedPublicName name).length = 0
  · rw [if_pos empty, if_pos empty]
  · have marked : normalizedPublicName name = invalidName := by
      by_contra other
      have valid := normalizedName_of_normal
        (fun none => empty (by rw [none]; rfl)) other
      rw [invalid] at valid
      cases valid
    rw [if_neg empty, if_neg empty, if_pos marked, if_pos marked]

theorem normal_of_valid {name normalized : Text} (valid : normalizedName name = some normalized) :
    (normalizedPublicName name).length ≠ 0 ∧ normalizedPublicName name ≠ invalidName := by
  have named : ValidName name := validName_iff.mpr ⟨normalized, valid⟩
  exact ⟨fun none => named.normal_ne_nil (List.length_eq_zero_iff.mp none), named.normal_ne_invalid⟩

/-- The parent state has a valid name for another key exactly when the chain says so. -/
theorem nameTaken_iff (parent : ParentMatches env db chain parentState parentBranch)
    (wellFormed : MembersWellFormed (chainEntries chain) parentBranch)
    (recorded : NamesRecorded (chainEntries chain) parentBranch) {name normalized : Text}
    (valid : normalizedName name = some normalized) (owner : Text) :
    nameTakenByAnother parentState name owner = true ↔
      HeldByAnother (chainEntries chain) normalized owner := by
  obtain ⟨present, notInvalid⟩ := normal_of_valid valid
  unfold nameTakenByAnother
  dsimp only
  rw [if_neg present, if_neg notInvalid, normalizedPublicName_valid valid, List.any_eq_true]
  constructor
  · rintro ⟨⟨key, held⟩, found, checked⟩
    rw [Std.ExtTreeMap.mem_toList_iff_getElem?_eq_some] at found
    simp only [Bool.and_eq_true, decide_eq_true_eq] at checked
    obtain ⟨named, member, inMembers, rfl, rfl⟩ := (parent.names key held).mp found
    refine ⟨member.publicKey, checked.2, ?_⟩
    have heldValid : normalizedName member.name = some normalized := by
      rw [normalizedPublicName_valid valid] at present notInvalid
      have normal := normalizedName_of_normal
        (fun none => present (by rw [← checked.1, none]; rfl)) (checked.1 ▸ notInvalid)
      rwa [checked.1] at normal
    exact (owned_iff_lastName wellFormed recorded).mp
      ((wellFormed.owners _ _).mpr ⟨member, inMembers, rfl, heldValid⟩)
  · rintro ⟨key, other, held⟩
    obtain ⟨member, inMembers, rfl, memberValid⟩ := (wellFormed.owners _ _).mp
      ((owned_iff_lastName wellFormed recorded).mpr held)
    have named : member.name ≠ [] := by
      intro empty
      rw [empty, normalizedName_nil] at memberValid
      cases memberValid
    refine ⟨(member.publicKey, member.name), ?_, ?_⟩
    · rw [Std.ExtTreeMap.mem_toList_iff_getElem?_eq_some, parent.names]
      exact ⟨named, member, inMembers, rfl, rfl⟩
    · simp [normalizedPublicName_valid memberValid, other]

theorem branchNameTaken_iff {done : List Entry} {state : BranchState}
    (wellFormed : MembersWellFormed done state) (recorded : NamesRecorded done state)
    {name normalized : Text} (valid : normalizedName name = some normalized) (owner : Text) :
    branchNameTakenByAnother state.nameOwners name owner = true ↔
      HeldByAnother done normalized owner := by
  obtain ⟨present, notInvalid⟩ := normal_of_valid valid
  unfold branchNameTakenByAnother HeldByAnother
  dsimp only
  rw [if_neg present, if_neg notInvalid, normalizedPublicName_valid valid]
  simp only [← owned_iff_lastName wellFormed recorded]
  cases state.nameOwners[normalized]? with
  | none => simp
  | some holder =>
      rw [Option.any_some, decide_eq_true_eq]
      constructor
      · exact fun other => ⟨holder, other, rfl⟩
      · rintro ⟨key, other, same⟩
        rw [Option.some.inj same]
        exact other

theorem name_checks_agree (parent : ParentMatches env db chain parentState parentBranch)
    (wellFormed : MembersWellFormed (chainEntries chain) parentBranch)
    (recorded : NamesRecorded (chainEntries chain) parentBranch)
    (related : LoopsRelated env db chain block parentState parentBranch earlier temporary progress)
    (aligned : RecordAligned env db chain block earlier record)
    (naming : isNaming record = true) :
    nameTakenByAnother parentState record.name record.senderPublicKey =
      branchNameTakenByAnother progress.1.nameOwners record.name record.senderPublicKey := by
  cases valid : normalizedName record.name with
  | none => exact taken_of_invalid valid _ _
  | some normalized =>
      rw [Bool.eq_iff_iff, nameTaken_iff parent wellFormed recorded valid,
        branchNameTaken_iff related.wellFormed related.recorded valid]
      exact (aligned.names naming normalized valid).symm

theorem isJoinedMember_eq (parent : ParentMatches env db chain parentState parentBranch)
    (key : Text) :
    isJoinedMember parentState key = isBranchMember parentBranch.members key := by
  rw [isJoinedMember, LedgerState.isMember, isBranchMember, ← parent.members, List.any_map]
  rfl

theorem member_checks_agree (parent : ParentMatches env db chain parentState parentBranch)
    (related : LoopsRelated env db chain block parentState parentBranch earlier temporary progress)
    (aligned : RecordAligned env db chain block earlier record)
    (reads : readsMembers record = true) :
    isJoinedMember parentState record.senderPublicKey =
      isBranchMember progress.1.members record.senderPublicKey := by
  rw [isJoinedMember_eq parent, Bool.eq_iff_iff, isBranchMember_iff, isBranchMember_iff,
    related.joined]
  refine ⟨.inl, ?_⟩
  rintro (known | ⟨other, inEarlier, joins, own⟩)
  · exact known
  · exact absurd own (aligned.members reads other inEarlier joins)

/-! The type rules, given agreement on the values that the record's type reads. -/

section Typed

variable {state : BranchState}

theorem transfer_checks_agree
    (funds : temporary.balances.getD record.senderPublicKey 0 + balanceTolerance <
        transferDebit record ↔
      state.balance record.senderPublicKey + balanceTolerance < transferDebit record)
    (nonce : block.recordsMerkleRoot ≠ [] →
      temporary.nonces.getD record.senderPublicKey 0 = state.nonce record.senderPublicKey) :
    (∃ next, storeTransfer (enforcedRules false parentState) block temporary record = .ok next) ↔
      ∃ next, connectTransfer block state record = .ok next := by
  unfold storeTransfer connectTransfer
  simp only [enforcedRules, true_and, funds]
  by_cases rooted : block.recordsMerkleRoot = []
  · simp only [rooted, List.length_nil, lt_self_iff_false, false_and, if_false]
    split_ifs <;> simp
  · simp only [List.length_pos_of_ne_nil rooted, true_and, nonce rooted]
    split_ifs <;> simp

theorem vote_checks_agree
    (funds : temporary.balances.getD record.senderPublicKey 0 + balanceTolerance < record.fee ↔
      state.balance record.senderPublicKey + balanceTolerance < record.fee) :
    (∃ next, storeVote (enforcedRules false parentState) block temporary record = .ok next) ↔
      ∃ next, connectVote block state record = .ok next := by
  unfold storeVote connectVote
  simp only [enforcedRules, true_and, funds]
  split_ifs <;> simp

theorem join_checks_agree
    (member : isJoinedMember parentState record.senderPublicKey =
      isBranchMember state.members record.senderPublicKey)
    (names : record.name ≠ [] →
      nameTakenByAnother parentState record.name record.senderPublicKey =
        branchNameTakenByAnother state.nameOwners record.name record.senderPublicKey) :
    (∃ next, storeJoin (enforcedRules false parentState) temporary record = .ok next) ↔
      ∃ next, connectJoin block false state record = .ok next := by
  rw [connectJoin_ok_iff]
  unfold storeJoin
  simp only [enforcedRules, true_and, member]
  cases isBranchMember state.members record.senderPublicKey with
  | true => simp
  | false =>
      by_cases named : record.name = []
      · simp [named]
      · rw [names named]
        cases branchNameTakenByAnother state.nameOwners record.name record.senderPublicKey with
        | true => simp [named, List.length_pos_of_ne_nil named]
        | false => simp

theorem rename_checks_agree
    (member : isJoinedMember parentState record.senderPublicKey =
      isBranchMember state.members record.senderPublicKey)
    (names : nameTakenByAnother parentState record.name record.senderPublicKey =
      branchNameTakenByAnother state.nameOwners record.name record.senderPublicKey) :
    (∃ next, storeUpdateName (enforcedRules false parentState) temporary record = .ok next) ↔
      ∃ next, connectUpdateName state record = .ok next := by
  rw [connectUpdateName_ok_iff]
  unfold storeUpdateName
  simp only [enforcedRules, true_and, member, names]
  cases isBranchMember state.members record.senderPublicKey with
  | false => simp
  | true =>
      by_cases named : record.name = []
      · simp [named]
      · cases branchNameTakenByAnother state.nameOwners record.name record.senderPublicKey with
        | true => simp
        | false => simp [named]

theorem heartbeat_checks_agree
    (member : isJoinedMember parentState record.senderPublicKey =
      isBranchMember state.members record.senderPublicKey) :
    (∃ next, storeHeartBeat (enforcedRules false parentState) temporary record = .ok next) ↔
      ∃ next, connectHeartBeat block false state record = .ok next := by
  unfold storeHeartBeat connectHeartBeat
  simp only [enforcedRules, true_and, member]
  cases isBranchMember state.members record.senderPublicKey with
  | false => simp
  | true => simp

theorem carryForward_checks_agree
    (wellFormed : 0 ≤ record.amount → 0 ≤ parseCarryForwardValueLong record.value "checkpoint" ∧
      0 ≤ parseCarryForwardValueLong record.value "period" ∧
      parseCarryForwardValueLong record.value "checkpoint" < block.number) :
    (∃ next, storeCarryForward temporary record = .ok next) ↔
      ∃ next, connectCarryForward block state record = .ok next := by
  unfold storeCarryForward connectCarryForward
  dsimp only
  by_cases negative : record.amount < 0
  · simp [negative]
  · obtain ⟨checkpoint, period, below⟩ := wellFormed (not_lt.mp negative)
    have passed : ¬(record.amount < 0 ∨ parseCarryForwardValueLong record.value "checkpoint" < 0 ∨
        parseCarryForwardValueLong record.value "period" < 0 ∨
        block.number ≤ parseCarryForwardValueLong record.value "checkpoint") := by
      rw [not_or, not_or, not_or, not_lt, not_lt, not_lt, not_le]
      exact ⟨not_lt.mp negative, checkpoint, period, below⟩
    rw [if_neg negative, if_neg passed]
    split_ifs <;> simp

theorem typed_checks_agree (aligned : RecordAligned env db chain block earlier record)
    (funds : isSpending record = true →
      (temporary.balances.getD record.senderPublicKey 0 + balanceTolerance < spentAmount record ↔
        state.balance record.senderPublicKey + balanceTolerance < spentAmount record))
    (nonce : record.transactionType = .transferCurrency → block.recordsMerkleRoot ≠ [] →
      temporary.nonces.getD record.senderPublicKey 0 = state.nonce record.senderPublicKey)
    (member : readsMembers record = true → isJoinedMember parentState record.senderPublicKey =
      isBranchMember state.members record.senderPublicKey)
    (names : isNaming record = true →
      nameTakenByAnother parentState record.name record.senderPublicKey =
        branchNameTakenByAnother state.nameOwners record.name record.senderPublicKey) :
    (∃ next, storeTyped (enforcedRules false parentState) block temporary record = .ok next) ↔
      ∃ next, connectTyped block false state record = .ok next := by
  unfold storeTyped connectTyped
  cases kind : record.transactionType with
  | issueCurrency =>
      dsimp only
      unfold storeIssue connectIssue
      split_ifs <;> simp
  | transferCurrency =>
      have enough := funds (by simp [isSpending, kind])
      rw [spentAmount, if_neg (by simp [kind])] at enough
      exact transfer_checks_agree enough (nonce kind)
  | vote =>
      have enough := funds (by simp [isSpending, kind])
      rw [spentAmount, if_pos kind] at enough
      exact vote_checks_agree enough
  | joinNetwork =>
      exact join_checks_agree (member (by simp [readsMembers, kind]))
        (fun named => names (by simp [isNaming, kind, named]))
  | updateName =>
      exact rename_checks_agree (member (by simp [readsMembers, kind]))
        (names (by simp [isNaming, kind]))
  | heartBeat => exact heartbeat_checks_agree (member (by simp [readsMembers, kind]))
  | carryForward => exact carryForward_checks_agree (aligned.carryForward kind)
  | periodSummary => exact absurd kind aligned.known

end Typed

theorem sender_of_spending (signature : checkRecordSignature env record = .ok ())
    (spends : isSpending record = true) : record.senderPublicKey ≠ [] := by
  refine (checkRecordSignature_ok signature ?_).1
  rw [isSpending, Bool.or_eq_true, decide_eq_true_eq, decide_eq_true_eq] at spends
  rcases spends with kind | kind <;> simp [recordRequiresSenderSignature, kind]

/-- The nonces of a rooted transfer's sender agree where the legacy blocks or an
earlier transfer settle them. -/
theorem nonces_agree (parent : ParentMatches env db chain parentState parentBranch)
    (related : LoopsRelated env db chain block parentState parentBranch earlier temporary progress)
    (rooted : block.recordsMerkleRoot ≠ []) {key : Text}
    (covered : (∀ other ∈ earlier, other.transactionType = .transferCurrency →
      other.senderPublicKey ≠ key) → LegacyNoncesCovered chain key) :
    temporary.nonces.getD key 0 = progress.1.nonce key := by
  by_cases untouched : ∀ other ∈ earlier, other.transactionType = .transferCurrency →
      other.senderPublicKey ≠ key
  · obtain ⟨storage, branch⟩ := related.unspent key untouched
    rw [storage, branch]
    exact (parent.nonces key).mpr (covered untouched)
  · push Not at untouched
    obtain ⟨other, listed, transfers, own⟩ := untouched
    rw [← own]
    exact related.spent rooted other listed transfers

/-- Related loops accept a record together. -/
theorem records_agree (parent : ParentMatches env db chain parentState parentBranch)
    (wellFormed : MembersWellFormed (chainEntries chain) parentBranch)
    (recorded : NamesRecorded (chainEntries chain) parentBranch)
    (related : LoopsRelated env db chain block parentState parentBranch earlier temporary progress)
    (aligned : checkRecordHash env progress.2 (progress.1.acceptedRecordHashes.contains record.hash)
        record = .ok () → checkRecordSignature env record = .ok () →
      RecordAligned env db chain block earlier record) :
    (∃ next, storeRecord env (enforcedRules false parentState) block temporary record = .ok next) ↔
      ∃ next, recordStep env block false progress record = .ok next := by
  have stepOk : (∃ next, recordStep env block false progress record = .ok next) ↔
      ∃ next, connectRecord env block false progress.1 progress.2 record = .ok next := by
    constructor
    · rintro ⟨next, stepped⟩
      exact ⟨next.1, (recordStep_ok_iff.mp stepped).1⟩
    · rintro ⟨next, connected⟩
      exact ⟨(next, progress.2.insert record.hash), recordStep_ok_iff.mpr ⟨connected, rfl⟩⟩
  rw [stepOk]
  simp only [storeRecord_ok_iff, connectRecord_ok_iff, exists_and_left]
  rw [show checkRecordHash env temporary.blockRecordHashes
      ((enforcedRules false parentState).duplicateRecordInParent record.hash) record = .ok () ↔ _
    from hash_checks_agree related]
  refine and_congr_right (fun hashed => and_congr_right (fun signature => ?_))
  have agreed := aligned hashed signature
  refine typed_checks_agree agreed ?_ ?_
    (fun reads => member_checks_agree parent related agreed reads)
    (fun naming => name_checks_agree parent wellFormed recorded related agreed naming)
  · intro spends
    have present := sender_of_spending signature spends
    rw [balance_acceptHash, related.balances _ present, related.ledger.balance present, ← not_le,
      ← not_le, not_iff_not]
    exact agreed.funds spends
  · intro kind rooted
    exact nonces_agree parent related rooted (agreed.nonces kind rooted)

/-! What an accepted record does to each side. -/

/-- The balance updates of the storage loop: it applies no carry-forward reward. -/
def storedBalances (block : Block) (record : Record) (balances : TextMap Rat) : TextMap Rat :=
  match record.transactionType with
  | .issueCurrency => credit balances record.recipientPublicKey record.amount
  | .transferCurrency => applyTransfer block record balances
  | .vote => applyVote block record balances
  | _ => balances

def storedNonces (block : Block) (record : Record) (nonces : TextMap Int) : TextMap Int :=
  if record.transactionType = .transferCurrency ∧ 0 < block.recordsMerkleRoot.length then
    nonces.insert record.senderPublicKey record.nonce
  else nonces

theorem getD_storedNonces_other {nonces : TextMap Int} {key : Text}
    (quiet : record.transactionType = .transferCurrency → record.senderPublicKey ≠ key) :
    (storedNonces block record nonces).getD key 0 = nonces.getD key 0 := by
  unfold storedNonces
  split
  · rename_i transfers
    rw [Std.ExtTreeMap.getD_insert, if_neg (by simpa using quiet transfers.1)]
  · rfl

theorem getD_storedNonces_congr {left right : TextMap Int} {key : Text}
    (same : left.getD key 0 = right.getD key 0) :
    (storedNonces block record left).getD key 0 = (storedNonces block record right).getD key 0 := by
  unfold storedNonces
  split
  · simp only [Std.ExtTreeMap.getD_insert, same]
  · exact same

theorem getD_storedNonces_own {left right : TextMap Int} (rooted : block.recordsMerkleRoot ≠ [])
    (transfers : record.transactionType = .transferCurrency) :
    (storedNonces block record left).getD record.senderPublicKey 0 =
      (storedNonces block record right).getD record.senderPublicKey 0 := by
  unfold storedNonces
  rw [if_pos ⟨transfers, List.length_pos_of_ne_nil rooted⟩,
    if_pos ⟨transfers, List.length_pos_of_ne_nil rooted⟩, Std.ExtTreeMap.getD_insert_self,
    Std.ExtTreeMap.getD_insert_self]

theorem storeTyped_effect {isGenesis : Bool} {next : Temporary}
    (stored : storeTyped (enforcedRules isGenesis parentState) block temporary record = .ok next) :
    next.blockRecordHashes = temporary.blockRecordHashes ∧
      next.balances = storedBalances block record temporary.balances ∧
      next.nonces = storedNonces block record temporary.nonces := by
  unfold storeTyped at stored
  unfold storedBalances storedNonces
  cases kind : record.transactionType with
  | issueCurrency =>
      rw [kind] at stored
      unfold storeIssue at stored
      split_ifs at stored
      cases stored
      simp
  | transferCurrency =>
      rw [kind] at stored
      unfold storeTransfer at stored
      simp only [enforcedRules, true_and] at stored
      split_ifs at stored
      all_goals
        cases stored
        simp [*]
  | vote =>
      rw [kind] at stored
      unfold storeVote at stored
      split_ifs at stored
      cases stored
      simp
  | joinNetwork =>
      rw [kind] at stored
      unfold storeJoin at stored
      split_ifs at stored
      cases stored
      simp
  | updateName =>
      rw [kind] at stored
      unfold storeUpdateName at stored
      split_ifs at stored
      cases stored
      simp
  | heartBeat =>
      rw [kind] at stored
      unfold storeHeartBeat at stored
      split_ifs at stored
      cases stored
      simp
  | carryForward =>
      rw [kind] at stored
      unfold storeCarryForward at stored
      split_ifs at stored
      cases stored
      simp
  | periodSummary =>
      rw [kind] at stored
      cases stored
      simp

/-- The storage loop adds what the ledger adds for the amounts of an accepted record. -/
theorem applied_delta {isGenesis : Bool} {state next : BranchState} {key : Text}
    {balances : TextMap Rat} (applied : Applied block isGenesis state record next) :
    (storedBalances block record balances).getD key 0 =
      balances.getD key 0 + LedgerState.amountDelta block record key := by
  unfold storedBalances LedgerState.amountDelta
  cases applied with
  | issue kind lower upper =>
      have amount : LedgerState.issueAmount record = record.amount := by
        rw [LedgerState.issueAmount, if_neg]
        rw [not_or, not_lt, not_lt]
        exact ⟨upper, lower⟩
      rw [kind]
      dsimp only
      rw [getD_credit, amount]
  | transfer kind =>
      rw [kind]
      dsimp only
      rw [getD_applyTransfer, neg_add, ← sub_eq_add_neg]
      ring
  | vote kind =>
      rw [kind]
      dsimp only
      rw [getD_applyVote]
      ring
  | join kind | joinNamed kind | rename kind | heartBeat kind | strayHeartBeat kind
  | carryForward kind | carryForwardAgain kind =>
      rw [kind]
      exact (add_zero _).symm

theorem applied_nonces {isGenesis : Bool} {state next : BranchState}
    (applied : Applied block isGenesis state record next) :
    next.nonces = storedNonces block record state.nonces := by
  unfold storedNonces
  cases applied with
  | transfer kind => simp [kind]
  | issue kind | vote kind | join kind | joinNamed kind | rename kind
  | heartBeat kind | strayHeartBeat kind | carryForward kind | carryForwardAgain kind =>
      simp [kind]

theorem applied_fresh {state next : BranchState}
    (applied : Applied block false state record next)
    (joins : record.transactionType = .joinNetwork) :
    isBranchMember state.members record.senderPublicKey = false := by
  cases applied with
  | join kind fresh => exact fresh rfl
  | joinNamed kind fresh => exact fresh rfl
  | issue kind | transfer kind | vote kind | rename kind | heartBeat kind | strayHeartBeat kind
  | carryForward kind | carryForwardAgain kind =>
      rw [joins] at kind
      cases kind

theorem applied_keys {isGenesis : Bool} {state next : BranchState} {key : Text}
    (applied : Applied block isGenesis state record next) :
    key ∈ memberKeys next.members ↔ key ∈ memberKeys state.members ∨
      record.transactionType = .joinNetwork ∧ record.senderPublicKey = key := by
  cases applied with
  | join kind =>
      rw [mem_joinedMembers]
      simp [kind]
  | joinNamed kind fresh named renamed owners claimed =>
      obtain ⟨normalized, granted⟩ := claimBranchName_some claimed
      change key ∈ memberKeys renamed ↔ _
      rw [granted.keys, mem_joinedMembers]
      simp [kind]
  | rename kind member named renamed owners claimed =>
      obtain ⟨normalized, granted⟩ := claimBranchName_some claimed
      change key ∈ memberKeys renamed ↔ _
      rw [granted.keys]
      simp [kind]
  | heartBeat kind =>
      change key ∈ memberKeys (updateMember _ _ state.members) ↔ _
      rw [memberKeys_heartbeat]
      simp [kind]
  | issue kind | transfer kind | vote kind | strayHeartBeat kind | carryForward kind
  | carryForwardAgain kind => simp [kind]

theorem LoopsRelated.step {later : List Record} {next : Temporary} {branchNext : BranchState × TextSet}
    (related : LoopsRelated env db chain block parentState parentBranch earlier temporary progress)
    (creators : ∀ other ∈ chain ++ [block], other.creatorKey ≠ []) (present : chain ≠ [])
    (place : block.records = earlier ++ record :: later)
    (stored : storeRecord env (enforcedRules false parentState) block temporary record = .ok next)
    (stepped : recordStep env block false progress record = .ok branchNext) :
    LoopsRelated env db chain block parentState parentBranch (earlier ++ [record]) next
      branchNext := by
  obtain ⟨-, -, typed⟩ := storeRecord_ok_iff.mp stored
  obtain ⟨hashes, balances, nonces⟩ := storeTyped_effect typed
  obtain ⟨connected, seen⟩ := recordStep_ok_iff.mp stepped
  have applied := (connected_of_ok connected).applied
  have inChain : connectRecord env block chain.isEmpty progress.1 progress.2 record =
      .ok branchNext.1 := by
    rw [List.isEmpty_eq_false_iff.mpr present]
    exact connected
  have branchNonce (key : Text) : branchNext.1.nonce key =
      (storedNonces block record progress.1.nonces).getD key 0 := by
    rw [BranchState.nonce, applied_nonces applied]
    rfl
  refine
    { seen := ?_, hashes := ?_, balances := ?_, ledger := ?_, unspent := ?_, spent := ?_,
      joined := ?_, fresh := ?_, wellFormed := ?_, recorded := ?_ }
  · rw [hashes, seen]
    dsimp only
    rw [related.seen]
  · intro hash
    rw [applied_hashes applied, seen, acceptHash, Std.ExtTreeSet.mem_insert,
      Std.ExtTreeSet.mem_insert, related.hashes]
    tauto
  · intro key nonempty
    rw [balances, applied_delta applied, storageFunds, history_snoc, LedgerState.deltaSum_snoc]
    have before := related.balances key nonempty
    rw [storageFunds] at before
    dsimp only
    rw [before]
    ring
  · rw [history_snoc]
    exact LedgerState.balancesSummed_step creators _ [] 0 0 chain block [] earlier record later _ _ _
      rfl place related.ledger inChain
  · intro key quiet
    have own : record.transactionType = .transferCurrency → record.senderPublicKey ≠ key :=
      quiet record (by simp)
    obtain ⟨storage, branch⟩ :=
      related.unspent key fun other member => quiet other (List.mem_append_left _ member)
    rw [nonces, branchNonce, getD_storedNonces_other own, getD_storedNonces_other own]
    exact ⟨storage, branch⟩
  · intro rooted other member transfers
    rw [nonces, branchNonce]
    rcases List.mem_append.mp member with old | new
    · exact getD_storedNonces_congr (related.spent rooted other old transfers)
    · rw [List.mem_singleton.mp new] at transfers ⊢
      exact getD_storedNonces_own rooted transfers
  · intro key
    rw [applied_keys applied]
    change key ∈ memberKeys progress.1.members ∨ _ ↔ _
    rw [related.joined]
    simp only [List.mem_append, List.mem_singleton]
    constructor
    · rintro ((old | ⟨other, member, joins⟩) | joins)
      · exact .inl old
      · exact .inr ⟨other, .inl member, joins⟩
      · exact .inr ⟨record, .inr rfl, joins⟩
    · rintro (old | ⟨other, member | rfl, joins⟩)
      · exact .inl (.inl old)
      · exact .inl (.inr ⟨other, member, joins⟩)
      · exact .inr joins
  · intro other member joins known
    rcases List.mem_append.mp member with old | new
    · exact related.fresh other old joins known
    · rw [List.mem_singleton.mp new] at joins known
      have unknown := applied_fresh applied joins
      rw [← Bool.not_eq_true, isBranchMember_iff] at unknown
      exact unknown ((related.joined _).mpr (.inl known))
  · rw [history_snoc]
    exact membersWellFormed_step (chain ++ [block]) chain block [] earlier record later _ _ _ rfl
      place related.wellFormed inChain
  · rw [history_snoc]
    exact namesRecorded_step (chain ++ [block]) chain block [] earlier record later _ _ _ rfl
      place related.recorded inChain

/-! A record that both loops admit. -/

section Admitted

variable {next : Temporary}

end Admitted

section Connected

variable {state next : BranchState}

end Connected

section Loops

/-- Both loops have run over the first records of the block. -/
def BothReach (env : Env) (db : LevelDb) (chain : List Block) (block : Block)
    (parentState : LedgerState.State) (parentBranch : BranchState) (earlier : List Record)
    (temporary : Temporary) (progress : BranchState × TextSet) : Prop :=
  LoopsRelated env db chain block parentState parentBranch earlier temporary progress ∧
    earlier.foldlM (recordStep env block false) (parentBranch, ∅) = .ok progress

theorem bothReach_start (parent : ParentMatches env db chain parentState parentBranch)
    (connected : connectChain env chain = .ok parentBranch) :
    BothReach env db chain block parentState parentBranch [] (.start parentState)
      (parentBranch, ∅) := by
  have amounts := LedgerState.amountsRelated_of_connected connected
    (LedgerState.carryForwardSnapshotMatches env db) [] 0 0
  have summed := LedgerState.balancesSummed_of_connected connected
    (LedgerState.carryForwardSnapshotMatches env db) [] 0 0
  refine ⟨?_, rfl⟩
  refine
    { seen := rfl, hashes := ?_, balances := ?_, ledger := ?_, unspent := fun _ _ => ⟨rfl, rfl⟩,
      spent := fun _ _ none => absurd none List.not_mem_nil, joined := ?_,
      fresh := fun _ none => absurd none List.not_mem_nil, wellFormed := ?_, recorded := ?_ }
  · intro hash
    rw [parent.hashes]
    simp [Std.ExtTreeSet.not_mem_empty]
  · intro key present
    rw [storageFunds, history, List.map_nil, List.append_nil]
    exact parent.balances key present
  · rw [history, List.map_nil, List.append_nil]
    exact ⟨amounts, summed⟩
  · simp
  · simpa [history] using membersWellFormed_of_connected connected
  · simpa [history] using namesRecorded_of_connected connected

theorem BothReach.step {later : List Record} {next : Temporary} {branchNext : BranchState × TextSet}
    (reach : BothReach env db chain block parentState parentBranch earlier temporary progress)
    (creators : ∀ other ∈ chain ++ [block], other.creatorKey ≠ []) (present : chain ≠ [])
    (place : block.records = earlier ++ record :: later)
    (stored : storeRecord env (enforcedRules false parentState) block temporary record = .ok next)
    (stepped : recordStep env block false progress record = .ok branchNext) :
    BothReach env db chain block parentState parentBranch (earlier ++ [record]) next branchNext :=
  ⟨reach.1.step creators present place stored stepped,
    run_snoc_ok_iff.mpr ⟨progress, reach.2, stepped⟩⟩

variable (parent : ParentMatches env db chain parentState parentBranch)
  (connected : connectChain env chain = .ok parentBranch) (present : chain ≠ [])
  (creators : ∀ other ∈ chain ++ [block], other.creatorKey ≠ [])

include parent connected present creators

/-- The record loops of the two validators accept a block together. -/
theorem storeRecords_agrees (envelope : checkEnvelope env block = .ok ())
    (link : checkLink env chain parentBranch block = .ok ())
    (aligned : ∀ earlier record later, block.records = earlier ++ record :: later →
      Reaches env chain block earlier record → RecordAligned env db chain block earlier record) :
    storeRecords env (enforcedRules false parentState) block = .ok () ↔
      ∃ next, connectRecords env block false parentBranch block.records = .ok next := by
  have runs : (∃ finish, block.records.foldlM
        (storeRecord env (enforcedRules false parentState) block) (.start parentState) =
          .ok finish) ↔
      ∃ finish, block.records.foldlM (recordStep env block false) (parentBranch, ∅) =
        .ok finish := by
    refine run_lockstep (BothReach env db chain block parentState parentBranch)
      (bothReach_start parent connected) block.records ?_ ?_
    · intro earlier record later temporary progress place reach
      refine records_agree parent (membersWellFormed_of_connected connected)
        (namesRecorded_of_connected connected) reach.1 fun hashed signature => ?_
      exact aligned earlier record later place
        ⟨envelope, parentBranch, progress, connected, link, reach.2, hashed, signature⟩
    · intro earlier record later temporary progress next branchNext place reach stored stepped
      exact reach.step creators present place stored stepped
  rw [storeRecords_ok_iff]
  refine runs.trans ?_
  simp only [connectRecords_ok_iff]
  constructor
  · rintro ⟨⟨next, seen⟩, run⟩
    exact ⟨next, seen, run⟩
  · rintro ⟨next, seen, run⟩
    exact ⟨(next, seen), run⟩

end Loops

end Records

/-! ### A block on the tip -/

/-- The slot of the block holds no other block. -/
def SlotFree (env : Env) (db : LevelDb) (block : Block) : Prop :=
  (getBlock env db block.number).number = block.number →
    (getBlock env db block.number).hash = block.hash

theorem enforcesStateRules_of_stored (stored : StoredAs env db chain) {tip block : Block}
    (last : chain.getLast? = some tip) (free : SlotFree env db block)
    (ids : block.previousBlockId = tip.number) : enforcesStateRules env db tip block = true := by
  unfold enforcesStateRules
  dsimp only
  rw [stored.bySlot tip (List.mem_of_getLast? last), stored.latest tip last, ids]
  simp only [decide_true, Bool.true_and, and_self, Bool.and_true, Bool.not_eq_true',
    decide_eq_false_iff_not]
  rintro ⟨sameSlot, -, other⟩
  exact other (free sameSlot)

theorem storageParent_of_stored (stored : StoredAs env db chain) {tip block : Block}
    (member : tip ∈ chain) (positive : 0 < tip.number) (hashed : tip.hash ≠ [])
    (linked : block.previousBlockHash = tip.hash) :
    storageParent env db block =
      if tip.number ≠ block.previousBlockId then
        .error "previous block id does not match parent hash"
      else if block.number ≤ block.previousBlockId then
        .error "previous block id is not before block number"
      else .ok tip := by
  unfold storageParent
  rw [linked, if_neg (by simpa using hashed), stored.byHash tip member]
  dsimp only
  rw [if_neg (not_le.mpr positive)]

theorem accepts_snoc_iff {state : BranchState} (connected : connectChain env chain = .ok state)
    {block : Block} :
    Accepts env (chain ++ [block]) ↔
      checkEnvelope env block = .ok () ∧ checkLink env chain state block = .ok () ∧
        ∃ applied, connectRecords env block chain.isEmpty state block.records = .ok applied := by
  rw [accepts_iff, ← and_assoc, ← checkHeader_ok_iff]
  simp only [connectChain_snoc_ok_iff, connected, Except.ok.injEq, connectBlock_ok_iff]
  constructor
  · rintro ⟨-, next, parentState, rfl, header, applied, records, -⟩
    exact ⟨header, applied, records⟩
  · rintro ⟨header, applied, records⟩
    exact ⟨by simp, _, state, rfl, header, applied, records, rfl⟩

theorem storeUnderRules_ok_iff {caches : Caches} {isGenesis : Bool}
    {parentState : LedgerState.State} {block : Block} :
    (storeUnderRules env db caches isGenesis parentState block).1 = .ok () ↔
      storeRecords env (enforcedRules isGenesis parentState) block = .ok () := by
  unfold storeUnderRules
  cases verdict : storeRecords env (enforcedRules isGenesis parentState) block with
  | error reason => simp
  | ok value => simp

theorem storeOnTip_records {ambient : Ambient} {caches : Caches} {parent block : Block}
    (passed : (storeOnTip env ambient db caches parent block).1 = .ok ()) :
    ∃ parentState, storeRecords env (enforcedRules false parentState) block = .ok () := by
  unfold storeOnTip at passed
  dsimp only at passed
  split at passed
  · cases passed
  · exact ⟨_, storeUnderRules_ok_iff.mp passed⟩

/-- On the tip an admitted block passed the record loop under the state rules. -/
theorem validate_on_tip_records {ambient : Ambient} {caches : Caches} {parent block : Block}
    (later : 0 < block.previousBlockId) (found : storageParent env db block = .ok parent)
    (enforced : enforcesStateRules env db parent block = true)
    (passed : (validateBlockForStorage env ambient db caches block).1 = .ok ()) :
    ∃ parentState, storeRecords env (enforcedRules false parentState) block = .ok () := by
  unfold validateBlockForStorage at passed
  split at passed
  · cases passed
  · rw [if_neg (not_le.mpr later), found] at passed
    dsimp only at passed
    rw [if_pos enforced] at passed
    exact storeOnTip_records passed

section Tip

variable {state : BranchState} {tip block : Block} {ambient : Ambient} {caches : Caches}
variable (accepted : Accepts env chain) (shaped : BuilderShaped chain)
  (stored : StoredAs env db chain) (connected : connectChain env chain = .ok state)
  (last : chain.getLast? = some tip)
  (coherent : LedgerState.CacheCoherent env db
    (parentStateFor env ambient db caches tip).2.ledgerStateCache)
  (parent : ParentMatches env db chain (parentStateFor env ambient db caches tip).1 state)

include accepted shaped stored connected last coherent parent

/-- Under the state rules a linked block passes exactly when the branch accepts its
link and the record loop its records. -/
theorem storeOnTip_ok_iff (linked : block.previousBlockHash = tip.hash)
    (ids : block.previousBlockId = tip.number) (above : tip.number < block.number) :
    (storeOnTip env ambient db caches tip block).1 = .ok () ↔
      checkLink env chain state block = .ok () ∧
        storeRecords env (enforcedRules false (parentStateFor env ambient db caches tip).1) block =
          .ok () := by
  have positive : 0 < block.number :=
    ((ascending_of_accepts accepted).positive tip (List.mem_of_getLast? last)).trans above
  obtain ⟨genesis, head, link⟩ := checkLink_of_parent env last state block
  obtain ⟨snapshot, selected, snapshotHash, authorization⟩ := storageAuthorization_eq
    accepted stored head connected shaped last positive ambient coherent parent.members parent.flag
  rw [link, checkParentLink_ok_iff]
  unfold storeOnTip
  dsimp only
  rw [authorization]
  cases creator : checkCreator
      (branchAuthorization env chain state tip genesis snapshot block.number).creator block with
  | error reason =>
      simp only [reduceCtorEq, false_iff, not_and]
      rintro ⟨-, -, -, other, found, -, verdict⟩
      rw [selected] at found
      rw [← Option.some.inj found, creator] at verdict
      cases verdict
  | ok value =>
      dsimp only
      rw [storeUnderRules_ok_iff]
      refine (and_iff_right ?_).symm
      exact ⟨ids, above, linked, snapshot, selected, snapshotHash, creator⟩

/-- The storage verdict on a block that names the stored tip as its parent. -/
theorem validate_linked_iff (linked : block.previousBlockHash = tip.hash)
    (free : SlotFree env db block) (envelope : checkEnvelope env block = .ok ())
    (child : 0 < block.previousBlockId) :
    (validateBlockForStorage env ambient db caches block).1 = .ok () ↔
      checkLink env chain state block = .ok () ∧
        storeRecords env (enforcedRules false (parentStateFor env ambient db caches tip).1) block =
          .ok () := by
  have tipMember := List.mem_of_getLast? last
  have tipPositive := (ascending_of_accepts accepted).positive tip tipMember
  unfold validateBlockForStorage
  rw [envelope]
  dsimp only
  rw [if_neg (not_le.mpr child), storageParent_of_stored stored tipMember tipPositive
    (hashes_of_connected connected tip tipMember) linked]
  by_cases ids : tip.number = block.previousBlockId
  · rw [if_neg (not_ne_iff.mpr ids)]
    by_cases above : block.number ≤ block.previousBlockId
    · rw [if_pos above]
      have below : ¬checkLink env chain state block = .ok () := by
        intro checked
        have := (checkLink_parent last checked).2.1
        omega
      simp [below]
    · rw [if_neg above]
      dsimp only
      rw [if_pos (enforcesStateRules_of_stored stored last free ids.symm)]
      exact storeOnTip_ok_iff accepted shaped stored connected last coherent parent linked ids.symm
        (by omega)
  · rw [if_pos ids]
    have mismatch : ¬checkLink env chain state block = .ok () :=
      fun checked => ids (checkLink_parent last checked).1.symm
    simp [mismatch]

/-- A block that names the stored tip as its parent: the two verdicts agree. -/
theorem validate_agrees_on_tip (linked : block.previousBlockHash = tip.hash)
    (free : SlotFree env db block) (aligned : BlockAligned env db chain block) :
    (validateBlockForStorage env ambient db caches block).1 = .ok () ↔
      Accepts env (chain ++ [block]) := by
  have present : chain ≠ [] := (accepts_iff.mp accepted).1
  have tipPositive := (ascending_of_accepts accepted).positive tip (List.mem_of_getLast? last)
  rw [accepts_snoc_iff connected, List.isEmpty_eq_false_iff.mpr present]
  cases envelope : checkEnvelope env block with
  | error reason =>
      unfold validateBlockForStorage
      simp [envelope]
  | ok value =>
      rw [and_iff_right rfl]
      by_cases child : 0 < block.previousBlockId
      · rw [validate_linked_iff accepted shaped stored connected last coherent parent linked free
          envelope child]
        refine and_congr_right fun link => ?_
        refine storeRecords_agrees parent connected present ?_ envelope link aligned.records
        intro other member
        rcases List.mem_append.mp member with below | own
        · exact creators_of_connected connected other below
        · rw [List.mem_singleton.mp own]
          exact checkEnvelope_creator envelope
      · -- the storage validator takes the block for a genesis block, which is not the pinned one
        have unpinned := (aligned.linked envelope).resolve_left child
        have mismatch : ¬checkLink env chain state block = .ok () := by
          intro checked
          have := (checkLink_parent last checked).1
          omega
        unfold validateBlockForStorage
        rw [envelope]
        dsimp only
        rw [if_pos (not_lt.mp child), if_pos unpinned]
        simp [mismatch]

end Tip

/-- A call in the slot after the sample genesis block, with cleared memory. -/
def sampleAmbient : Ambient where
  parentTimeBlock := 101
  selectionTimeBlock := 101
  indeterminate := ⟨0, false, 0, 0⟩

/-- On the sample genesis block transfers alone stay within the common rules. -/
theorem transfers_aligned (db : LevelDb) {block : Block} (later : 0 < block.previousBlockId)
    (transfers : ∀ record ∈ block.records, record.transactionType = .transferCurrency) :
    BlockAligned Sample.env db [Sample.genesis] block := by
  have quiet : ∀ entry ∈ chainEntries [Sample.genesis],
      entry.2.transactionType ≠ .carryForward ∧ entry.2.transactionType ≠ .transferCurrency := by
    decide
  refine ⟨fun _ => .inl later, fun earlier record rest place _ => ?_⟩
  have kind : record.transactionType = .transferCurrency := transfers record (by simp [place])
  have noCarries : ∀ entry ∈ history [Sample.genesis] block earlier,
      entry.2.transactionType ≠ .carryForward := by
    intro entry member
    rw [history] at member
    rcases List.mem_append.mp member with below | own
    · exact (quiet entry below).1
    · obtain ⟨other, listed, rfl⟩ := List.mem_map.mp own
      rw [transfers other (by simp [place, listed])]
      decide
  refine
    { known := by simp [kind]
      carryForward := fun carries => absurd carries (by simp [kind])
      members := fun reads => absurd reads (by simp [readsMembers, kind])
      names := fun naming => absurd naming (by simp [isNaming, kind])
      funds := ?_, nonces := ?_ }
  · intro _
    rw [storageFunds, branchFunds, LedgerState.openedBy_of_unselected,
      LedgerState.openedBy_of_unselected]
    · exact fun entry member carries => absurd carries (noCarries entry member)
    · exact fun entry member carries => absurd carries (quiet entry member).1
  · intro _ _ _ entry member transfer
    exact absurd transfer (quiet entry member).2

theorem validSpend_aligned (db : LevelDb) :
    BlockAligned Sample.env db [Sample.genesis] Sample.validSpend :=
  transfers_aligned db (by decide) (by decide)

end Safire.ChainValidator
