/-
`CLedgerState`: balances, members and names read off the canonical chain.

`build` walks the stored chain up to a stop block and applies each record once.
Finished states are cached under a key made of the query, the chain ends and
the time slot of the call, which is an input here.
-/

import Safire.Store

namespace Safire

open Text

namespace LedgerState

open ChainValidator (BranchMember)

/-- `member_state` has the fields of the validator's `BranchMember`, and `active`. -/
structure MemberState extends BranchMember where
  active : Bool
  deriving DecidableEq

structure State where
  balances : TextMap Rat
  nonces : TextMap Int
  names : TextMap Text
  acceptedRecordHashes : TextSet
  acceptedCarryForwardKeys : TextSet
  members : List MemberState
  activeMemberKeys : List Text
  issuedSupply : Rat
  ledgerBalanceTotal : Rat
  walletBalance : Rat
  joined : Bool
  activeHeartbeat : Bool
  heartbeatRenewalDue : Bool
  chainHasHeartbeatRecords : Bool
  lastHeartbeatBlock : Int
  firstBlockId : Int
  latestBlockId : Int
  connectedBlockCount : Int
  latestBlock : Block

/-- The assignments at the start of `build`. -/
def State.start (firstBlockId latestBlockId : Int) : State where
  balances := ∅
  nonces := ∅
  names := ∅
  acceptedRecordHashes := ∅
  acceptedCarryForwardKeys := ∅
  members := []
  activeMemberKeys := []
  issuedSupply := 0
  ledgerBalanceTotal := 0
  walletBalance := 0
  joined := false
  activeHeartbeat := false
  heartbeatRenewalDue := false
  chainHasHeartbeatRecords := false
  lastHeartbeatBlock := -1
  firstBlockId := firstBlockId
  latestBlockId := latestBlockId
  connectedBlockCount := 0
  latestBlock := .missing

/-! ### Names and balances -/

def normalizedPublicName (name : Text) : Text :=
  (normalizedName name).getD []

def isMember (members : List MemberState) (publicKey : Text) : Bool :=
  members.any (fun member => member.publicKey = publicKey)

def memberName (members : List MemberState) (publicKey : Text) : Text :=
  match members.find? (fun member => member.publicKey = publicKey) with
  | none => []
  | some member => member.name

def setMemberName (name publicKey : Text) (members : List MemberState) : List MemberState :=
  updateFirst (fun member => member.publicKey) (fun member => { member with name := name })
    publicKey members

/-- The updated members and owners. A claim that the source refuses changes
nothing, and no caller reads the verdict. -/
def claimPublicName (members : List MemberState) (nameOwners : TextMap Text)
    (publicKey name : Text) : List MemberState × TextMap Text :=
  let normalized := normalizedPublicName name
  if normalized.length = 0 then (members, nameOwners)
  else if isMember members publicKey = false then (members, nameOwners)
  else if nameOwners[normalized]?.any (fun owner => owner ≠ publicKey) then (members, nameOwners)
  else
    let released := ChainValidator.releaseName nameOwners
      (normalizedPublicName (memberName members publicKey)) publicKey
    (setMemberName name publicKey members, released.insert normalized publicKey)

/-- Unlike the validators, the ledger keeps no balance for the empty key. -/
def addBalanceDelta (balances : TextMap Rat) (publicKey : Text) (amount : Rat) : TextMap Rat :=
  if publicKey.length = 0 then balances else credit balances publicKey amount

/-- An issued amount out of range counts as one. -/
def issueAmount (record : Record) : Rat :=
  if 1 < record.amount ∨ record.amount < 0 then 1 else record.amount

def applyRecordToBalances (block : Block) (record : Record) (balances : TextMap Rat) :
    TextMap Rat :=
  match record.transactionType with
  | .issueCurrency => addBalanceDelta balances record.recipientPublicKey (issueAmount record)
  | .transferCurrency =>
      addBalanceDelta
        (addBalanceDelta
          (addBalanceDelta balances record.recipientPublicKey record.amount)
          record.senderPublicKey (-record.amount - record.fee))
        block.creatorKey record.fee
  | .vote =>
      addBalanceDelta (addBalanceDelta balances record.senderPublicKey (-record.fee))
        block.creatorKey record.fee
  | _ => balances

/-- What `applyRecordToBalances` adds to the issued supply. -/
def suppliedAmount (record : Record) : Rat :=
  if record.transactionType = .issueCurrency then issueAmount record else 0

/-! ### Balances at a checkpoint -/

/-- One round of the record loop: a hash that was met before is skipped, and a
record without a hash is never a repetition. -/
def balanceRound (block : Block) (progress : TextMap Rat × TextSet) (record : Record) :
    TextMap Rat × TextSet :=
  if 0 < record.hash.length ∧ record.hash ∈ progress.2 then progress
  else
    (applyRecordToBalances block record progress.1,
      if 0 < record.hash.length then progress.2.insert record.hash else progress.2)

def balancesThroughBlock (env : Env) (db : LevelDb) (checkpointBlock : Int) : TextMap Rat :=
  let firstBlockId := getFirstBlockId db
  let latestBlockId := getLatestBlockId db
  if firstBlockId < 0 ∨ latestBlockId < 0 ∨ checkpointBlock < firstBlockId then ∅
  else
    let visited := walk env db (fun number => checkpointBlock < number)
      (fun number => number = latestBlockId) walkGuard (getBlock env db firstBlockId)
    (visited.foldl (fun progress block => block.records.foldl (balanceRound block) progress)
      (∅, ∅)).1

def carryForwardSnapshotMatches (env : Env) (db : LevelDb) (record : Record) : Bool :=
  let checkpoint := parseCarryForwardValueLong record.value "checkpoint"
  if checkpoint < 0 then false
  else
    let expectedBalance :=
      (balancesThroughBlock env db checkpoint).getD record.recipientPublicKey 0
    decide (|expectedBalance - record.amount| < balanceTolerance)

/-! ### The walk of `build` -/

/-- The local variables of the walk. The source keeps a second copy of the two
accepted sets beside the ones of the result. -/
structure Progress where
  result : State
  nameOwners : TextMap Text
  latestHeartbeatBlockByUser : TextMap Int

def newMember (publicKey : Text) (joinBlock : Int) : MemberState where
  publicKey := publicKey
  name := []
  joinBlock := joinBlock
  lastHeartbeatBlock := -1
  active := false

def Progress.withMembers (progress : Progress) (claimed : List MemberState × TextMap Text) :
    Progress :=
  { progress with
    result := { progress.result with members := claimed.1 }
    nameOwners := claimed.2 }

def applyJoin (walletPublicKey : Text) (progress : Progress) (block : Block) (record : Record) :
    Progress :=
  let sender := record.senderPublicKey
  let members := progress.result.members
  let admitted :=
    if isMember members sender then progress
    else
      let extended := members ++ [newMember sender block.number]
      progress.withMembers
        (if 0 < record.name.length then
          claimPublicName extended progress.nameOwners sender record.name
        else (extended, progress.nameOwners))
  if sender = walletPublicKey then
    { admitted with result := { admitted.result with joined := true } }
  else admitted

def applyHeartBeat (walletPublicKey : Text) (progress : Progress) (block : Block)
    (record : Record) : Progress :=
  { progress with
    result := { progress.result with
      chainHasHeartbeatRecords := true
      lastHeartbeatBlock :=
        if record.senderPublicKey = walletPublicKey then block.number
        else progress.result.lastHeartbeatBlock }
    latestHeartbeatBlockByUser :=
      progress.latestHeartbeatBlockByUser.insert record.senderPublicKey block.number }

def applyCarryForward (progress : Progress) (record : Record) : Progress :=
  let key := carryForwardKey record
  if 0 < key.length ∧ key ∉ progress.result.acceptedCarryForwardKeys then
    { progress with
      result := { progress.result with
        acceptedCarryForwardKeys := progress.result.acceptedCarryForwardKeys.insert key
        balances := addBalanceDelta progress.result.balances record.senderPublicKey carryForwardReward
        issuedSupply := progress.result.issuedSupply + carryForwardReward } }
  else progress

section Walk

variable (snapshotMatches : Record → Bool) (walletPublicKey : Text)

/-- The chain of type tests in the walk. -/
def applyMembership (progress : Progress) (block : Block) (record : Record) : Progress :=
  if record.transactionType = .joinNetwork ∧ 0 < record.senderPublicKey.length then
    applyJoin walletPublicKey progress block record
  else if record.transactionType = .updateName ∧ 0 < record.senderPublicKey.length ∧
      0 < record.name.length then
    progress.withMembers
      (claimPublicName progress.result.members progress.nameOwners record.senderPublicKey
        record.name)
  else if record.transactionType = .heartBeat ∧ 0 < record.senderPublicKey.length then
    applyHeartBeat walletPublicKey progress block record
  else if isBasicCarryForwardRecord record block.number && snapshotMatches record then
    applyCarryForward progress record
  else progress

/-- `nonces[sender]` becomes the largest nonce met; reading it creates the entry. -/
def raiseNonce (nonces : TextMap Int) (record : Record) : TextMap Int :=
  nonces.insert record.senderPublicKey (max record.nonce (nonces.getD record.senderPublicKey 0))

def applyAmounts (progress : Progress) (block : Block) (record : Record) : Progress :=
  { progress with
    result := { progress.result with
      balances := applyRecordToBalances block record progress.result.balances
      issuedSupply := progress.result.issuedSupply + suppliedAmount record
      nonces :=
        if record.transactionType = .transferCurrency then
          raiseNonce progress.result.nonces record
        else progress.result.nonces } }

def applyRecord (progress : Progress) (block : Block) (record : Record) : Progress :=
  applyAmounts (applyMembership snapshotMatches walletPublicKey progress block record) block record

/-- One round of the record loop. The set of met hashes is the accepted set. -/
def recordRound (block : Block) (progress : Progress) (record : Record) : Progress :=
  if 0 < record.hash.length ∧ record.hash ∈ progress.result.acceptedRecordHashes then progress
  else
    let hashes := progress.result.acceptedRecordHashes
    let marked := { progress with
      result := { progress.result with
        acceptedRecordHashes :=
          if 0 < record.hash.length then hashes.insert record.hash else hashes } }
    applyRecord snapshotMatches walletPublicKey marked block record

def blockRound (progress : Progress) (block : Block) : Progress :=
  block.records.foldl (recordRound snapshotMatches walletPublicKey block) progress

end Walk

/-! ### After the walk -/

def mergeHeartbeat (latestHeartbeatBlockByUser : TextMap Int) (chainHasHeartbeatRecords : Bool)
    (heartbeatCutoff : Int) (member : MemberState) : MemberState :=
  let last := latestHeartbeatBlockByUser.getD member.publicKey (-1)
  { member with
    lastHeartbeatBlock := last
    active := chainHasHeartbeatRecords = false || heartbeatCutoff ≤ last || member.active }

def memberNames (members : List MemberState) : TextMap Text :=
  members.foldl
    (fun names member =>
      if 0 < member.name.length then names.insert member.publicKey member.name else names) ∅

def finishMembers (progress : Progress) (currentTimeBlock : Int) : State :=
  let result := progress.result
  let heartbeatCutoff := currentTimeBlock - heartbeatValidBlocks
  let members := result.members.map
    (mergeHeartbeat progress.latestHeartbeatBlockByUser result.chainHasHeartbeatRecords
      heartbeatCutoff)
  { result with
    members := members
    activeMemberKeys :=
      (members.filter (fun member =>
        result.chainHasHeartbeatRecords = false ∨
          heartbeatCutoff ≤ member.lastHeartbeatBlock)).map (fun member => member.publicKey)
    names := memberNames members }

def finishHeartbeat (state : State) (currentTimeBlock : Int) : State :=
  let heartbeatCutoff := currentTimeBlock - heartbeatValidBlocks
  let heartbeatRenewCutoff := currentTimeBlock - heartbeatRenewBlocks
  if state.joined = false then state
  else if state.chainHasHeartbeatRecords = false then
    { state with activeHeartbeat := true, heartbeatRenewalDue := true }
  else if heartbeatCutoff ≤ state.lastHeartbeatBlock then
    { state with
      activeHeartbeat := true
      heartbeatRenewalDue := decide (state.lastHeartbeatBlock < heartbeatRenewCutoff) }
  else { state with activeHeartbeat := false, heartbeatRenewalDue := true }

def finishTotals (state : State) (walletPublicKey : Text) : State :=
  let totalled := { state with
    ledgerBalanceTotal :=
      state.balances.toList.foldl (fun total entry => total + entry.2) state.ledgerBalanceTotal }
  if 0 < walletPublicKey.length then
    { totalled with
      walletBalance := state.balances.getD walletPublicKey 0
      balances := credit state.balances walletPublicKey 0 }
  else totalled

def finish (progress : Progress) (walletPublicKey : Text) (currentTimeBlock : Int) : State :=
  finishTotals (finishHeartbeat (finishMembers progress currentTimeBlock) currentTimeBlock)
    walletPublicKey

/-! ### `build` and its cache -/

abbrev Cache := TextMap State

def eraseSmallest {β : Type} (cache : TextMap β) : TextMap β :=
  match cache.minKey? with
  | none => cache
  | some key => cache.erase key

/-- `while (cache.size() > limit) cache.erase(cache.begin())`. -/
def trimCache {β : Type} (limit : Nat) (cache : TextMap β) : TextMap β :=
  eraseSmallest^[cache.size - limit] cache

def cacheLedgerState (cache : Cache) (key : Text) (state : State) : Cache :=
  trimCache 256 (cache.insert key state)

def ledgerStateCacheKey (walletPublicKey : Text) (firstBlockId latestBlockId : Int)
    (latestBlockHash : Text) (stopBlock currentTimeBlock : Int) : Text :=
  walletPublicKey ++ "|".toList ++ ofLong firstBlockId ++ "|".toList ++ ofLong latestBlockId ++
    "|".toList ++ latestBlockHash ++ "|".toList ++ ofLong stopBlock ++ "|".toList ++
    ofLong currentTimeBlock

/-- The last block of the walk: the stop block where it lies below the tip. -/
def buildLatestBlockId (db : LevelDb) (stopBlock : Int) : Int :=
  let latestBlockId := getLatestBlockId db
  if 0 < stopBlock ∧ (latestBlockId < 0 ∨ stopBlock < latestBlockId) then stopBlock
  else latestBlockId

def visitedBlocks (env : Env) (db : LevelDb) (stopBlock : Int) : List Block :=
  walk env db (fun number => 0 < stopBlock ∧ stopBlock < number)
    (fun number => number = buildLatestBlockId db stopBlock) walkGuard
    (getBlock env db (getFirstBlockId db))

def Progress.start (firstBlockId latestBlockId : Int) : Progress where
  result := .start firstBlockId latestBlockId
  nameOwners := ∅
  latestHeartbeatBlockByUser := ∅

/-- What `build` computes when the cache has no entry for the query. The last
visited block and the number of blocks, which the loop only assigns, are read
off the visited list. -/
def computeState (env : Env) (db : LevelDb) (currentTimeBlock : Int) (walletPublicKey : Text)
    (stopBlock : Int) : State :=
  let visited := visitedBlocks env db stopBlock
  let walked := visited.foldl (blockRound (carryForwardSnapshotMatches env db) walletPublicKey)
    (.start (getFirstBlockId db) (buildLatestBlockId db stopBlock))
  { finish walked walletPublicKey currentTimeBlock with
    latestBlock := visited.getLast?.getD .missing
    connectedBlockCount := visited.length }

def buildCacheKey (env : Env) (db : LevelDb) (currentTimeBlock : Int) (walletPublicKey : Text)
    (stopBlock : Int) : Text :=
  let latestBlockId := buildLatestBlockId db stopBlock
  ledgerStateCacheKey walletPublicKey (getFirstBlockId db) latestBlockId
    (getBlock env db latestBlockId).hash stopBlock currentTimeBlock

/-- The state with the cache after the call. -/
def build (env : Env) (db : LevelDb) (cache : Cache) (currentTimeBlock : Int)
    (walletPublicKey : Text) (stopBlock : Int) : State × Cache :=
  let latestBlockId := buildLatestBlockId db stopBlock
  if getFirstBlockId db < 0 ∨ latestBlockId < 0 then
    (State.start (getFirstBlockId db) latestBlockId, cache)
  else
    let key := buildCacheKey env db currentTimeBlock walletPublicKey stopBlock
    match cache[key]? with
    | some state => (state, cache)
    | none =>
        let state := computeState env db currentTimeBlock walletPublicKey stopBlock
        (state, cacheLedgerState cache key state)

/-! ### Queries -/

def balanceAtBlock (env : Env) (db : LevelDb) (publicKey : Text) (checkpointBlock : Int) : Rat :=
  if publicKey.length = 0 then 0
  else (balancesThroughBlock env db checkpointBlock).getD publicKey 0

def confirmedStopBlock (env : Env) (db : LevelDb) (confirmationBlocks : Int) : Int :=
  let firstBlockId := getFirstBlockId db
  let latestBlockId := getLatestBlockId db
  if firstBlockId < 0 ∨ latestBlockId < 0 then -1
  else if confirmationBlocks ≤ 0 then latestBlockId
  else
    let connectedBlocks := (walk env db (fun _ => false) (fun number => number = latestBlockId)
      walkGuard (getBlock env db firstBlockId)).map Block.number
    if (connectedBlocks.length : Int) ≤ confirmationBlocks then firstBlockId - 1
    else connectedBlocks.getD (connectedBlocks.length - confirmationBlocks.toNat - 1) 0

def activeMemberKeysAt (state : State) (blockNumber : Int) : List Text :=
  let number := if blockNumber ≤ 0 then state.latestBlockId else blockNumber
  (state.members.filter (fun member =>
    state.chainHasHeartbeatRecords = false ∨
      number - heartbeatValidBlocks ≤ member.lastHeartbeatBlock)).map
    (fun member => member.publicKey)

end LedgerState

end Safire
