/-
`CChainValidator::validateBlockForStorage`: the checks before a block is stored.

The state rules are enforced for a genesis block and for a block that extends
the canonical tip; any other block is checked by its own content and its links
only. The records are checked against the ledger state of the parent, kept in a
cache by block hash, and not against each other's effects on members and names.
-/

import Safire.LedgerState

namespace Safire.ChainValidator

open Text
open LedgerState (State MemberState)

/-! ### Inputs and caches -/

/-- The scalar members of a default-constructed ledger state that a caller may
read: the source leaves them unassigned. -/
structure Indeterminate where
  issuedSupply : Rat
  chainHasHeartbeatRecords : Bool
  firstBlockId : Int
  connectedBlockCount : Int

/-- What one call reads besides its arguments: the time slot at each of its two
calls of `build`, and the unassigned scalars of `parentState`. -/
structure Ambient where
  parentTimeBlock : Int
  selectionTimeBlock : Int
  indeterminate : Indeterminate

def unassignedState (values : Indeterminate) : State :=
  { State.start values.firstBlockId (-1) with
    issuedSupply := values.issuedSupply
    chainHasHeartbeatRecords := values.chainHasHeartbeatRecords
    connectedBlockCount := values.connectedBlockCount }

/-- The static caches of the validator and of the ledger. -/
structure Caches where
  validationStateByBlockHash : TextMap State
  ledgerStateCache : LedgerState.Cache

def Caches.empty : Caches where
  validationStateByBlockHash := ∅
  ledgerStateCache := ∅

def cachedLedgerStateForBlock (cache : TextMap State) (block : Block) : Option State :=
  match cache[block.hash]? with
  | none => none
  | some state =>
      if state.latestBlockId ≠ block.number ∨ state.latestBlock.hash ≠ block.hash then none
      else some state

def cacheLedgerStateForBlock (cache : TextMap State) (block : Block) (state : State) :
    TextMap State :=
  if block.hash.length = 0 ∨ block.number ≤ 0 then cache
  else
    let inserted := cache.insert block.hash state
    if 2048 < inserted.size then LedgerState.eraseSmallest inserted else inserted

/-! ### The state after a block -/

def carryForwardSnapshotMatches (env : Env) (db : LevelDb) (record : Record) : Bool :=
  let checkpoint := parseCarryForwardValueLong record.value "checkpoint"
  if checkpoint < 0 then false
  else
    let expectedBalance := LedgerState.balanceAtBlock env db record.recipientPublicKey checkpoint
    decide (|expectedBalance - record.amount| < balanceTolerance)

def joinCachedMember (block : Block) (record : Record) (members : List MemberState) :
    List MemberState :=
  if LedgerState.isMember members record.senderPublicKey then members
  else members ++ [LedgerState.newMember record.senderPublicKey block.number]

/-- Set the name of a member, if there is one with the key. -/
def nameCachedMember (record : Record) (state : State) : State :=
  if LedgerState.isMember state.members record.senderPublicKey then
    { state with
      members := LedgerState.setMemberName record.name record.senderPublicKey state.members
      names := state.names.insert record.senderPublicKey record.name }
  else state

def applyRecordToCachedState (env : Env) (db : LevelDb) (block : Block) (state : State)
    (record : Record) : State :=
  let marked := { state with
    acceptedRecordHashes :=
      if 0 < record.hash.length then state.acceptedRecordHashes.insert record.hash
      else state.acceptedRecordHashes }
  match record.transactionType with
  | .issueCurrency =>
      { marked with
        balances := credit state.balances record.recipientPublicKey record.amount
        issuedSupply := state.issuedSupply + record.amount }
  | .transferCurrency =>
      { marked with
        balances := applyTransfer block record state.balances
        nonces := LedgerState.raiseNonce state.nonces record }
  | .vote => { marked with balances := applyVote block record state.balances }
  | .joinNetwork =>
      let joined := { marked with members := joinCachedMember block record state.members }
      if 0 < record.name.length then nameCachedMember record joined else joined
  | .updateName => nameCachedMember record marked
  | .heartBeat =>
      if LedgerState.isMember state.members record.senderPublicKey then
        { marked with
          members := updateFirst (fun member => member.publicKey)
            (fun member => { member with lastHeartbeatBlock := block.number })
            record.senderPublicKey state.members
          chainHasHeartbeatRecords := true }
      else marked
  | .carryForward =>
      let key := carryForwardKey record
      if isBasicCarryForwardRecord record block.number = true ∧
          carryForwardSnapshotMatches env db record = true ∧
          0 < key.length ∧ key ∉ state.acceptedCarryForwardKeys then
        { marked with
          acceptedCarryForwardKeys := state.acceptedCarryForwardKeys.insert key
          balances := credit state.balances record.senderPublicKey carryForwardReward
          issuedSupply := state.issuedSupply + carryForwardReward }
      else marked
  | .periodSummary => marked

def applyBlockToCachedState (env : Env) (db : LevelDb) (parentState : State) (block : Block) :
    State :=
  let entered := { parentState with
    firstBlockId :=
      if parentState.firstBlockId < 0 then block.number else parentState.firstBlockId
    latestBlockId := block.number
    latestBlock := block
    connectedBlockCount := parentState.connectedBlockCount + 1 }
  block.records.foldl (applyRecordToCachedState env db block) entered

/-! ### Lookups of the record loop -/

def recordExistsInChain (env : Env) (db : LevelDb) (recordHash : Text) (stopBlock : Int) : Bool :=
  let firstBlockId := getFirstBlockId db
  if recordHash.length = 0 ∨ firstBlockId < 0 ∨ stopBlock < firstBlockId then false
  else
    (walk env db (fun number => stopBlock < number) (fun number => number = stopBlock) walkGuard
      (getBlock env db firstBlockId)).any
      (fun block => block.records.any (fun record => record.hash = recordHash))

def nameTakenByAnother (state : State) (name owner : Text) : Bool :=
  let normalized := normalizedPublicName name
  if normalized.length = 0 then false
  else if normalized = invalidName then true
  else
    state.names.toList.any (fun entry =>
      normalizedPublicName entry.2 = normalized && decide (entry.1 ≠ owner))

def isJoinedMember (state : State) (publicKey : Text) : Bool :=
  LedgerState.isMember state.members publicKey

/-- The rounds are those that the window leaves. -/
def recoveryRunInStore (env : Env) (db : LevelDb) (recoveryPublicKey : Text) : Nat → Block → Int
  | 0, _ => 0
  | rounds + 1, parent =>
      if 0 < parent.number ∧ parent.creatorKey = recoveryPublicKey then
        if parent.previousBlockHash.length = 0 then 1
        else
          let previous := getBlockByHash env db parent.previousBlockHash
          if previous.number ≤ 0 ∨ previous.number = parent.number then 1
          else 1 + recoveryRunInStore env db recoveryPublicKey rounds previous
      else 0

def consecutiveRecoveryBlocksInStore (env : Env) (db : LevelDb) (parent : Block)
    (recoveryPublicKey : Text) : Int :=
  if recoveryPublicKey.length = 0 then 0
  else recoveryRunInStore env db recoveryPublicKey Selector.getRecoveryWindowBlocks.toNat parent

/-! ### The record loop -/

/-- What the record loop reads: whether the state rules are enforced, the parent
state and which record hashes count as duplicates. -/
structure StorageRules where
  enforceStateRules : Bool
  isGenesis : Bool
  parentState : State
  duplicateRecordInParent : Text → Bool

structure Temporary where
  balances : TextMap Rat
  nonces : TextMap Int
  blockRecordHashes : TextSet

section Records

variable (rules : StorageRules) (block : Block) (temporary : Temporary) (record : Record)

def storeIssue : Except String Temporary :=
  if record.amount < 0 ∨ 1 < record.amount then .error "issue amount is invalid"
  else if record.senderPublicKey ≠ block.creatorKey ∨
      record.recipientPublicKey ≠ block.creatorKey then
    .error "issue reward must pay the block creator"
  else
    .ok { temporary with
      balances := credit temporary.balances record.recipientPublicKey record.amount }

def storeTransfer : Except String Temporary :=
  let sequenced := rules.enforceStateRules = true ∧ 0 < block.recordsMerkleRoot.length
  if record.amount ≤ 0 ∨ record.fee < 0 then .error "transfer amount or fee is invalid"
  else if sequenced ∧ record.nonce ≠ temporary.nonces.getD record.senderPublicKey 0 + 1 then
    .error "transfer nonce is invalid"
  else if rules.enforceStateRules = true ∧
      temporary.balances.getD record.senderPublicKey 0 + balanceTolerance <
        transferDebit record then
    .error "transfer overspends sender balance"
  else
    .ok { temporary with
      balances := applyTransfer block record temporary.balances
      nonces :=
        if sequenced then temporary.nonces.insert record.senderPublicKey record.nonce
        else temporary.nonces }

def storeVote : Except String Temporary :=
  if record.fee < 0 ∨ rules.enforceStateRules = true ∧
      temporary.balances.getD record.senderPublicKey 0 + balanceTolerance < record.fee then
    .error "vote fee overspends sender balance"
  else .ok { temporary with balances := applyVote block record temporary.balances }

def storeJoin : Except String Temporary :=
  if rules.enforceStateRules = true ∧ rules.isGenesis = false ∧
      isJoinedMember rules.parentState record.senderPublicKey = true then
    .error "member already joined"
  else if rules.enforceStateRules = true ∧ 0 < record.name.length ∧
      nameTakenByAnother rules.parentState record.name record.senderPublicKey = true then
    .error "public name is unavailable"
  else .ok temporary

def storeUpdateName : Except String Temporary :=
  if rules.enforceStateRules = true ∧
      isJoinedMember rules.parentState record.senderPublicKey = false then
    .error "name update sender is not a member"
  else if record.name.length = 0 ∨ rules.enforceStateRules = true ∧
      nameTakenByAnother rules.parentState record.name record.senderPublicKey = true then
    .error "public name is unavailable"
  else .ok temporary

def storeHeartBeat : Except String Temporary :=
  if rules.enforceStateRules = true ∧ rules.isGenesis = false ∧
      isJoinedMember rules.parentState record.senderPublicKey = false then
    .error "heartbeat sender is not a member"
  else .ok temporary

/-- The checkpoint is read and dropped: only the amount is checked. -/
def storeCarryForward : Except String Temporary :=
  if record.amount < 0 then .error "carry-forward amount is invalid" else .ok temporary

/-- The chain of type tests has no last `else`: a period summary passes. -/
def storeTyped : Except String Temporary :=
  match record.transactionType with
  | .issueCurrency => storeIssue block temporary record
  | .transferCurrency => storeTransfer rules block temporary record
  | .vote => storeVote rules block temporary record
  | .joinNetwork => storeJoin rules temporary record
  | .updateName => storeUpdateName rules temporary record
  | .heartBeat => storeHeartBeat rules temporary record
  | .carryForward => storeCarryForward temporary record
  | .periodSummary => .ok temporary

end Records

def storeRecord (env : Env) (rules : StorageRules) (block : Block) (temporary : Temporary)
    (record : Record) : Except String Temporary := do
  checkRecordHash env temporary.blockRecordHashes (rules.duplicateRecordInParent record.hash) record
  checkRecordSignature env record
  storeTyped rules block
    { temporary with blockRecordHashes := temporary.blockRecordHashes.insert record.hash } record

def Temporary.start (parentState : State) : Temporary where
  balances := parentState.balances
  nonces := parentState.nonces
  blockRecordHashes := ∅

def storeRecords (env : Env) (rules : StorageRules) (block : Block) : Except String Unit := do
  let _ ← block.records.foldlM (storeRecord env rules block) (.start rules.parentState)
  pure ()

/-! ### The whole check -/

/-- The parent's state from the cache, or built and cached. -/
def parentStateFor (env : Env) (ambient : Ambient) (db : LevelDb) (caches : Caches)
    (parent : Block) : State × Caches :=
  match cachedLedgerStateForBlock caches.validationStateByBlockHash parent with
  | some state => (state, caches)
  | none =>
      let (state, ledgerStateCache) :=
        LedgerState.build env db caches.ledgerStateCache ambient.parentTimeBlock [] parent.number
      (state,
        { validationStateByBlockHash :=
            cacheLedgerStateForBlock caches.validationStateByBlockHash parent state
          ledgerStateCache := ledgerStateCache })

/-- The state at the selection boundary, or the parent's where the walk finds no block. -/
def selectionStateFor (env : Env) (ambient : Ambient) (db : LevelDb) (caches : Caches)
    (parentState : State) (block : Block) : State × Caches :=
  let selectionBoundary := Selector.getSelectionBoundaryBlock block.number (getFirstBlockId db)
  let (state, ledgerStateCache) := LedgerState.build env db caches.ledgerStateCache
    ambient.selectionTimeBlock [] selectionBoundary
  (if state.latestBlock.hash.length = 0 then parentState else state,
    { caches with ledgerStateCache := ledgerStateCache })

def storageAuthorization (env : Env) (db : LevelDb) (parent : Block)
    (parentState selectionState : State) (blockNumber : Int) : Selector.Authorization :=
  let genesisBlock := getBlock env db (getFirstBlockId db)
  let recoveryPublicKey := configuredRecoveryPublicKey env genesisBlock.creatorKey
  Selector.getAuthorizedCreatorForBlock env blockNumber selectionState.latestBlock.hash
    (LedgerState.activeMemberKeysAt selectionState blockNumber) parent.hash
    (LedgerState.activeMemberKeysAt parentState blockNumber) recoveryPublicKey
    (consecutiveRecoveryBlocksInStore env db parent recoveryPublicKey)

/-- State rules apply to a block on the canonical tip whose slot holds no other block. -/
def enforcesStateRules (env : Env) (db : LevelDb) (parent block : Block) : Bool :=
  let canonicalParent := getBlock env db parent.number
  let canonicalSameSlot := getBlock env db block.number
  let parentIsCanonical :=
    decide (canonicalParent.number = parent.number ∧ canonicalParent.hash = parent.hash)
  let sameSlotFork := decide (canonicalSameSlot.number = block.number ∧
    0 < canonicalSameSlot.hash.length ∧ canonicalSameSlot.hash ≠ block.hash)
  let extendsCanonicalTip := decide (block.previousBlockId = getLatestBlockId db)
  parentIsCanonical && !sameSlotFork && extendsCanonicalTip

def enforcedRules (isGenesis : Bool) (parentState : State) : StorageRules where
  enforceStateRules := true
  isGenesis := isGenesis
  parentState := parentState
  duplicateRecordInParent := fun hash => parentState.acceptedRecordHashes.contains hash

/-- The record loop under the state rules, after which the state of the block is cached. -/
def storeUnderRules (env : Env) (db : LevelDb) (caches : Caches) (isGenesis : Bool)
    (parentState : State) (block : Block) : Except String Unit × Caches :=
  match storeRecords env (enforcedRules isGenesis parentState) block with
  | .error reason => (.error reason, caches)
  | .ok () =>
      let blockState := applyBlockToCachedState env db parentState block
      (.ok (),
        { caches with
          validationStateByBlockHash :=
            cacheLedgerStateForBlock caches.validationStateByBlockHash block blockState })

def sideRules (env : Env) (ambient : Ambient) (db : LevelDb) (parent : Block) : StorageRules where
  enforceStateRules := false
  isGenesis := false
  parentState := unassignedState ambient.indeterminate
  duplicateRecordInParent := fun hash => recordExistsInChain env db hash parent.number

/-- The record loop for a block on a side branch. -/
def storeOffTip (env : Env) (ambient : Ambient) (db : LevelDb) (parent block : Block) :
    Except String Unit :=
  storeRecords env (sideRules env ambient db parent) block

def storeOnTip (env : Env) (ambient : Ambient) (db : LevelDb) (caches : Caches)
    (parent block : Block) : Except String Unit × Caches :=
  let (parentState, afterParent) := parentStateFor env ambient db caches parent
  let (selectionState, afterSelection) :=
    selectionStateFor env ambient db afterParent parentState block
  let authorization := storageAuthorization env db parent parentState selectionState block.number
  match checkCreator authorization.creator block with
  | .error reason => (.error reason, afterSelection)
  | .ok () => storeUnderRules env db afterSelection false parentState block

/-- The link checks, and the parent that the previous hash names. -/
def storageParent (env : Env) (db : LevelDb) (block : Block) : Except String Block :=
  if block.previousBlockHash.length = 0 then .error "previous block hash is missing"
  else
    let parent := getBlockByHash env db block.previousBlockHash
    if parent.number ≤ 0 then .error "parent block is missing"
    else if parent.number ≠ block.previousBlockId then
      .error "previous block id does not match parent hash"
    else if block.number ≤ block.previousBlockId then
      .error "previous block id is not before block number"
    else .ok parent

/-- The verdict with the caches after the call. -/
def validateBlockForStorage (env : Env) (ambient : Ambient) (db : LevelDb) (caches : Caches)
    (block : Block) : Except String Unit × Caches :=
  match checkEnvelope env block with
  | .error reason => (.error reason, caches)
  | .ok () =>
      if block.previousBlockId ≤ 0 then
        if env.config.genesisMatches block.number block.hash = false then
          (.error "genesis block does not match safire.conf", caches)
        else
          storeUnderRules env db caches true (unassignedState ambient.indeterminate) block
      else
        match storageParent env db block with
        | .error reason => (.error reason, caches)
        | .ok parent =>
            if enforcesStateRules env db parent block then
              storeOnTip env ambient db caches parent block
            else (storeOffTip env ambient db parent block, caches)

end Safire.ChainValidator
