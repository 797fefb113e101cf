/-
`CChainValidator::validateConnectedChain`: consensus rules over a whole branch.

The loop over the blocks carries the branch state. A block sees the blocks
before it (`before`), which is all the source reads of the candidate vector:
its front, the parent and the trailing run of creators.
-/

import Safire.RecordRules

namespace Safire

open Text

namespace ChainValidator

def invalidName : Text := "#invalid".toList

def normalizedPublicName (name : Text) : Text :=
  if name.length = 0 then [] else (normalizedName name).getD invalidName

structure BranchMember where
  publicKey : Text
  name : Text
  joinBlock : Int
  lastHeartbeatBlock : Int
  deriving DecidableEq

structure BranchSnapshot where
  blockNumber : Int
  blockHash : Text
  members : List BranchMember
  chainHasHeartbeatRecords : Bool

/-- The local variables of the block loop. -/
structure BranchState where
  balances : TextMap Rat
  nonces : TextMap Int
  members : List BranchMember
  nameOwners : TextMap Text
  acceptedRecordHashes : TextSet
  acceptedCarryForwardKeys : TextSet
  snapshots : List BranchSnapshot
  chainHasHeartbeatRecords : Bool

def BranchState.initial : BranchState where
  balances := ∅
  nonces := ∅
  members := []
  nameOwners := ∅
  acceptedRecordHashes := ∅
  acceptedCarryForwardKeys := ∅
  snapshots := []
  chainHasHeartbeatRecords := false

/-- A missing entry counts as zero: `std::map::operator[]` creates it so. -/
def BranchState.balance (state : BranchState) (key : Text) : Rat :=
  state.balances.getD key 0

def BranchState.nonce (state : BranchState) (key : Text) : Int :=
  state.nonces.getD key 0

/-! ### Members and names -/

def isBranchMember (members : List BranchMember) (publicKey : Text) : Bool :=
  members.any (fun member => member.publicKey = publicKey)

def updateMember (change : BranchMember → BranchMember) (publicKey : Text)
    (members : List BranchMember) : List BranchMember :=
  updateFirst BranchMember.publicKey change publicKey members

def memberName (members : List BranchMember) (publicKey : Text) : Text :=
  match members.find? (fun member => member.publicKey = publicKey) with
  | none => []
  | some member => member.name

def branchNameTakenByAnother (nameOwners : TextMap Text) (name owner : Text) : Bool :=
  let normalized := normalizedPublicName name
  if normalized.length = 0 then false
  else if normalized = invalidName then true
  else nameOwners[normalized]?.any (fun holder => holder ≠ owner)

/-- Drop the entry of a previous name, if the key still owns it. -/
def releaseName (nameOwners : TextMap Text) (previousName publicKey : Text) : TextMap Text :=
  if 0 < previousName.length ∧ nameOwners[previousName]? = some publicKey then
    nameOwners.erase previousName
  else nameOwners

/-- The updated members and owners, or nothing where the source returns false. -/
def claimBranchName (members : List BranchMember) (nameOwners : TextMap Text)
    (publicKey name : Text) : Option (List BranchMember × TextMap Text) :=
  let normalized := normalizedPublicName name
  if normalized.length = 0 ∨ normalized = invalidName then none
  else if isBranchMember members publicKey = false then none
  else if branchNameTakenByAnother nameOwners name publicKey then none
  else
    let released :=
      releaseName nameOwners (normalizedPublicName (memberName members publicKey)) publicKey
    some (updateMember (fun member => { member with name := name }) publicKey members,
      released.insert normalized publicKey)

/-! ### Creator selection on a branch -/

def activeMemberKeysForBlock (members : List BranchMember) (chainHasHeartbeatRecords : Bool)
    (blockNumber : Int) : List Text :=
  (members.filter (fun member =>
    chainHasHeartbeatRecords = false ∨
      blockNumber - heartbeatValidBlocks ≤ member.lastHeartbeatBlock)).map BranchMember.publicKey

/-- The trailing blocks by the recovery key, counted up to the window. -/
def consecutiveRecoveryBlocksInBranch (before : List Block) (recoveryPublicKey : Text) : Int :=
  if recoveryPublicKey.length = 0 then 0
  else
    let run := before.reverse.takeWhile (fun block => block.creatorKey = recoveryPublicKey)
    min (run.length : Int) Selector.getRecoveryWindowBlocks

def selectionSnapshotForBlock (snapshots : List BranchSnapshot) (blockNumber genesisBlock : Int) :
    Option BranchSnapshot :=
  let selectionBoundary := Selector.getSelectionBoundaryBlock blockNumber genesisBlock
  let covered := snapshots.takeWhile (fun snapshot => snapshot.blockNumber ≤ selectionBoundary)
  covered.getLast?.or snapshots.head?

/-! ### Records -/

def connectIssue (block : Block) (state : BranchState) (record : Record) :
    Except String BranchState :=
  if record.amount < 0 ∨ 1 < record.amount then .error "issue amount is invalid"
  else if record.senderPublicKey ≠ block.creatorKey ∨
      record.recipientPublicKey ≠ block.creatorKey then
    .error "issue reward must pay the block creator"
  else
    .ok { state with balances := credit state.balances record.recipientPublicKey record.amount }

/-- What a transfer takes from its sender: a self-transfer costs the fee only. -/
def transferDebit (record : Record) : Rat :=
  if record.senderPublicKey = record.recipientPublicKey then record.fee
  else record.amount + record.fee

/-- The three balance updates of a transfer, in the order of the source. -/
def applyTransfer (block : Block) (record : Record) (balances : TextMap Rat) : TextMap Rat :=
  credit
    (credit (credit balances record.recipientPublicKey record.amount)
      record.senderPublicKey (-(record.amount + record.fee)))
    block.creatorKey record.fee

def applyVote (block : Block) (record : Record) (balances : TextMap Rat) : TextMap Rat :=
  credit (credit balances record.senderPublicKey (-record.fee)) block.creatorKey record.fee

def connectTransfer (block : Block) (state : BranchState) (record : Record) :
    Except String BranchState :=
  if record.amount ≤ 0 ∨ record.fee < 0 then .error "transfer amount or fee is invalid"
  else if 0 < block.recordsMerkleRoot.length ∧
      record.nonce ≠ state.nonce record.senderPublicKey + 1 then
    .error "transfer nonce is invalid"
  else if state.balance record.senderPublicKey + balanceTolerance < transferDebit record then
    .error "transfer overspends sender balance"
  else
    .ok { state with
      balances := applyTransfer block record state.balances
      nonces :=
        if 0 < block.recordsMerkleRoot.length then
          state.nonces.insert record.senderPublicKey record.nonce
        else state.nonces }

def connectVote (block : Block) (state : BranchState) (record : Record) :
    Except String BranchState :=
  if record.fee < 0 ∨ state.balance record.senderPublicKey + balanceTolerance < record.fee then
    .error "vote fee overspends sender balance"
  else .ok { state with balances := applyVote block record state.balances }

def newBranchMember (publicKey : Text) (joinBlock : Int) : BranchMember where
  publicKey := publicKey
  name := []
  joinBlock := joinBlock
  lastHeartbeatBlock := -1

def connectJoin (block : Block) (isGenesis : Bool) (state : BranchState) (record : Record) :
    Except String BranchState :=
  if isGenesis = false ∧ isBranchMember state.members record.senderPublicKey = true then
    .error "member already joined"
  else if 0 < record.name.length ∧
      branchNameTakenByAnother state.nameOwners record.name record.senderPublicKey = true then
    .error "public name is unavailable"
  else
    let members :=
      if isBranchMember state.members record.senderPublicKey then state.members
      else state.members ++ [newBranchMember record.senderPublicKey block.number]
    if record.name.length = 0 then .ok { state with members := members }
    else
      match claimBranchName members state.nameOwners record.senderPublicKey record.name with
      | none => .error "public name is unavailable"
      | some (renamed, owners) => .ok { state with members := renamed, nameOwners := owners }

def connectUpdateName (state : BranchState) (record : Record) : Except String BranchState :=
  if isBranchMember state.members record.senderPublicKey = false then
    .error "name update sender is not a member"
  else if record.name.length = 0 then .error "public name is unavailable"
  else
    match claimBranchName state.members state.nameOwners record.senderPublicKey record.name with
    | none => .error "public name is unavailable"
    | some (renamed, owners) => .ok { state with members := renamed, nameOwners := owners }

def connectHeartBeat (block : Block) (isGenesis : Bool) (state : BranchState) (record : Record) :
    Except String BranchState :=
  if isBranchMember state.members record.senderPublicKey then
    .ok { state with
      members := updateMember (fun member => { member with lastHeartbeatBlock := block.number })
        record.senderPublicKey state.members
      chainHasHeartbeatRecords := true }
  else if isGenesis then .ok state
  else .error "heartbeat sender is not a member"

def connectCarryForward (block : Block) (state : BranchState) (record : Record) :
    Except String BranchState :=
  let checkpointBlock := parseCarryForwardValueLong record.value "checkpoint"
  let period := parseCarryForwardValueLong record.value "period"
  if record.amount < 0 ∨ checkpointBlock < 0 ∨ period < 0 ∨ block.number ≤ checkpointBlock then
    .error "carry-forward amount is invalid"
  else
    let key := carryForwardKey record
    if 0 < key.length ∧ key ∉ state.acceptedCarryForwardKeys then
      .ok { state with
        acceptedCarryForwardKeys := state.acceptedCarryForwardKeys.insert key
        balances := credit state.balances record.senderPublicKey carryForwardReward }
    else .ok state

/-- The chain of type tests. The last `else` of the source ("unknown record
type") is dead: the enumeration has no other value. -/
def connectTyped (block : Block) (isGenesis : Bool) (state : BranchState) (record : Record) :
    Except String BranchState :=
  match record.transactionType with
  | .issueCurrency => connectIssue block state record
  | .transferCurrency => connectTransfer block state record
  | .vote => connectVote block state record
  | .joinNetwork => connectJoin block isGenesis state record
  | .updateName => connectUpdateName state record
  | .heartBeat => connectHeartBeat block isGenesis state record
  | .carryForward => connectCarryForward block state record
  | .periodSummary => .error "period summary records are not accepted"

/-- The hash checks, the two insertions, the signature check and the type rule. -/
def connectRecord (env : Env) (block : Block) (isGenesis : Bool) (state : BranchState)
    (blockRecordHashes : TextSet) (record : Record) : Except String BranchState := do
  checkRecordHash env blockRecordHashes (state.acceptedRecordHashes.contains record.hash) record
  checkRecordSignature env record
  connectTyped block isGenesis
    { state with acceptedRecordHashes := state.acceptedRecordHashes.insert record.hash } record

/-- One round of the record loop, with the set of hashes seen in the block. -/
def recordStep (env : Env) (block : Block) (isGenesis : Bool) (progress : BranchState × TextSet)
    (record : Record) : Except String (BranchState × TextSet) := do
  let next ← connectRecord env block isGenesis progress.1 progress.2 record
  pure (next, progress.2.insert record.hash)

def connectRecords (env : Env) (block : Block) (isGenesis : Bool) (state : BranchState)
    (records : List Record) : Except String BranchState := do
  let progress ← records.foldlM (recordStep env block isGenesis) (state, ∅)
  pure progress.1

/-! ### Blocks -/

/-- Creator required for a block on top of `before`, given the branch state there. -/
def branchAuthorization (env : Env) (before : List Block) (state : BranchState) (parent : Block)
    (genesis : Block) (snapshot : BranchSnapshot) (blockNumber : Int) : Selector.Authorization :=
  let recoveryPublicKey := configuredRecoveryPublicKey env genesis.creatorKey
  Selector.getAuthorizedCreatorForBlock env blockNumber snapshot.blockHash
    (activeMemberKeysForBlock snapshot.members snapshot.chainHasHeartbeatRecords blockNumber)
    parent.hash
    (activeMemberKeysForBlock state.members state.chainHasHeartbeatRecords blockNumber)
    recoveryPublicKey
    (consecutiveRecoveryBlocksInBranch before recoveryPublicKey)

/-- The verdict on the selected creator, shared by both validators. -/
def checkCreator (selectedCreator : Text) (block : Block) : Except String Unit :=
  if selectedCreator.length = 0 then
    .error "no active members or recovery creator can create blocks"
  else if selectedCreator ≠ block.creatorKey then
    .error "block creator is not selected for this slot"
  else .ok ()

def checkGenesisLink (env : Env) (block : Block) : Except String Unit :=
  if 0 < block.previousBlockId ∨ 0 < block.previousBlockHash.length then
    .error "genesis block has a parent"
  else if env.config.genesisMatches block.number block.hash = false then
    .error "genesis block does not match safire.conf"
  else .ok ()

def checkParentLink (env : Env) (before : List Block) (genesis parent : Block)
    (state : BranchState) (block : Block) : Except String Unit :=
  if block.previousBlockId ≠ parent.number then
    .error "previous block id does not match parent"
  else if block.number ≤ block.previousBlockId then
    .error "previous block id is not before block number"
  else if block.previousBlockHash ≠ parent.hash then
    .error "previous block hash does not match parent"
  else
    match selectionSnapshotForBlock state.snapshots block.number genesis.number with
    | none => .error "selection checkpoint is missing"
    | some snapshot =>
        if snapshot.blockHash.length = 0 then .error "selection checkpoint is missing"
        else
          checkCreator
            (branchAuthorization env before state parent genesis snapshot block.number).creator
            block

def checkLink (env : Env) (before : List Block) (state : BranchState) (block : Block) :
    Except String Unit :=
  match before.head?, before.getLast? with
  | some genesis, some parent => checkParentLink env before genesis parent state block
  | _, _ => checkGenesisLink env block

def pushSnapshot (block : Block) (state : BranchState) : BranchState :=
  { state with
    snapshots := state.snapshots ++
      [{ blockNumber := block.number
         blockHash := block.hash
         members := state.members
         chainHasHeartbeatRecords := state.chainHasHeartbeatRecords }] }

/-- One round of the block loop, up to the records. -/
def checkHeader (env : Env) (before : List Block) (state : BranchState) (block : Block) :
    Except String Unit := do
  checkEnvelope env block
  checkLink env before state block

/-- One round of the block loop. -/
def connectBlock (env : Env) (before : List Block) (state : BranchState) (block : Block) :
    Except String BranchState := do
  checkHeader env before state block
  let next ← connectRecords env block before.isEmpty state block.records
  pure (pushSnapshot block next)

/-- The block loop carries the connected blocks with the branch state. -/
def blockStep (env : Env) (progress : List Block × BranchState) (block : Block) :
    Except String (List Block × BranchState) := do
  let next ← connectBlock env progress.1 progress.2 block
  pure (progress.1 ++ [block], next)

/-- The branch state after the last block, or the reason of the rejection. -/
def connectChain (env : Env) (chain : List Block) : Except String BranchState := do
  let progress ← chain.foldlM (blockStep env) ([], .initial)
  pure progress.2

def validateConnectedChain (env : Env) (chain : List Block) : Except String Unit :=
  if chain.length = 0 then .error "candidate chain is empty"
  else (connectChain env chain).map (fun _ => ())

/-- The validator returns true. -/
def Accepts (env : Env) (chain : List Block) : Prop :=
  validateConnectedChain env chain = .ok ()

instance (env : Env) (chain : List Block) : Decidable (Accepts env chain) :=
  inferInstanceAs (Decidable (_ = _))

/-- The branch state inside the loops: `before` is connected and the first
`records` of the next block have been applied. -/
def stateAfterRecords (env : Env) (before : List Block) (block : Block) (records : List Record) :
    Except String BranchState := do
  let state ← connectChain env before
  checkHeader env before state block
  connectRecords env block before.isEmpty state records

end ChainValidator

/-! ### A small network -/

/-- The last `width` hexadecimal digits of a number. -/
def hexText (width value : Nat) : Text :=
  (List.range width).foldl (fun digits place =>
    Nat.digitChar (value / 16 ^ place % 16) :: digits) []

def upperHexText (width value : Nat) : Text :=
  (hexText width value).map Char.toUpper

namespace Sample

/-- Key, record and block names are those of the double-spend tests. -/
def sender : Text :=
  upperHexText 66 0x02a78727544748a47ec2b7e309693eb3723d26ac0e6889de4fc73a80027b139707

def recipient : Text :=
  upperHexText 66 0x02befb68703f3927062d65dd0139fd2b2c6be2fdf31a1adeb3a5e9c7e2cae0b6f1

def joinRecordHash : Text :=
  hexText 64 0xa281717c6f015f6e9aa02c0b5fe3455d8c3ad9e559b62160ba27a69ddad9d9c3

def issueRecordHash : Text :=
  hexText 64 0x532be1f9d62bc54c2bf4f1e2121ef07c24aa53775197f3699618e79cdd22fdc0

def spendHash : Text :=
  hexText 64 0x1145ab9af8e26a71abdce95173bdb86a3798820fe56e844efdb173f5e598d983

def duplicateNonceHash : Text :=
  hexText 64 0xd458d898fbec9acf72c803bfc096d1982aa4ccac9e335365d904848b7d4cd155

def secondJoinHash : Text :=
  hexText 64 0x874d6503c09dab9ce5737d710c1ec7997759f7fbe5387a6dd55d690ec81a25d3

def heartBeatHash : Text :=
  hexText 64 0x887530f4e278097bf63ef4282d8bd56a600e8957ca9398092a077a2fba320344

def carryFirstHash : Text :=
  hexText 64 0xb94764c62b7624f604e2c807323485310d83512bf07900152fc53d81c8af236d

def carrySecondHash : Text :=
  hexText 64 0x510145662d1ab0d744b9d75559748c1fcb23d7b243bd953292a9d39f2265facd

def strayCarryHash : Text :=
  hexText 64 0xbd705dae0de9336d7aa313f7aebd3cbb4354150492b5c5bae0a44e83d3be96d5

def firstRewardHash : Text :=
  hexText 64 0xb3d24864e511994b5018d93c91ec8e2ebeb6698f5ccd67afd2da84dadc1beb86

def secondRewardHash : Text :=
  hexText 64 0x555f0c2397e9f251ff81a6bca5aee32caedb782230475a12a0b3e079653f9b2d

def lostSpendHash : Text :=
  hexText 64 0x077df56685610e3b5f9a5406c7fd3b2b16483a176f74a0e91787eb3f491ba17a

def ownHeartBeatHash : Text :=
  hexText 64 0xbf1b7c11010e2f8472e0cfc253a6590fd03013acc12db276d05cfa624bb2a355

/-- The fields that the sample records share. -/
def record (kind : TransactionType) (time : String) (nonce : Int) (amount : Rat)
    (senderPublicKey recipientPublicKey : Text) (name : String) (hash : Text) (signature : Nat) :
    Record where
  network := "main".toList
  time := time.toList
  transactionType := kind
  nonce := nonce
  amount := amount
  fee := 0
  senderPublicKey := senderPublicKey
  recipientPublicKey := recipientPublicKey
  hash := hash
  signature := upperHexText 128 signature
  name := name.toList
  value := []

def joinRecord : Record :=
  record .joinNetwork "1" 0 0 sender [] "tester" joinRecordHash
    0xb04db6dace13ddcee5e9589dc0d03f4b556c72ad417c2c3ae2b3443a193473dcd10cc681ece7765992d84f140ddf4d9b5403b4f0e77f4edca4e7748a53e9a150

def issueRecord : Record :=
  record .issueCurrency "1" 0 1 sender sender "" issueRecordHash
    0x13ec21eb89b75163fdd06ab171e7e7d158e7adfbf37b2d0112c34c5a80eeeb50a56f7fcba99ad9ab047ff90ae7ca74a5c66b6a0eb54bb555fcb6e085a60d674f

def spend : Record :=
  record .transferCurrency "2" 1 (1 / 2) sender recipient "" spendHash
    0x70ed3a02d5cb8ed24c878583de583092f808aecf6dd20d1cdef826334d055f628ec59b95ec5e16c5b7efe6462867e02a4b6070ca3397d24e77bfa2dea217b55e

def duplicateNonce : Record :=
  record .transferCurrency "2" 1 (1 / 4) sender recipient "" duplicateNonceHash
    0x05d2d8a1d3b4cf17bd7591b04bbf08b68403e827c4dd0f4195af7c82fb230b08a38e45dbf72d76880eab84855090e36fce816210e539e5de79a91e793213a0f1

def secondJoin : Record :=
  record .joinNetwork "2" 0 0 recipient [] "" secondJoinHash
    0xde915b98ffd9133ea28382f063abe04ca4e941427bdc9f73c82004b2d786fb3d170350f84712fbd7d91eb321dfe924586773ebd1866c1b2f1080b31264177251

def heartBeat : Record :=
  record .heartBeat "2" 0 0 recipient [] "" heartBeatHash
    0x71fd658c740962b2951c0dd8b45357026e0166859fce2e7d4d78fa2e977065c270f6dec61b0d89058c3158a60b528fd402aeb0245602b4d28eec6d6cc923e701

def carryFirst : Record :=
  { record .carryForward "2" 0 1 sender sender "carry-forward" carryFirstHash
      0x4cef3b36e4645e83b92c741ddcc28a051ffa86143b351814d93e9515ac33b4aea49013225d5eeecac8446d5f02ea537f33769a275621d7b069211b16946cd663 with
    value := "checkpoint=100;period=0;reward=1".toList }

def carrySecond : Record :=
  { record .carryForward "2" 0 1 sender sender "carry-forward" carrySecondHash
      0x34ee1f2737fb869f3866dd4e4346c5aa20c33e0121c91c992656745abbe0987bb3cdc2a2f4cbbfd931f4d6e19d3f6855e622679c1d43dfd35240a64ec63bad9e with
    value := "checkpoint=100;period=1;reward=1".toList }

def strayCarry : Record :=
  { record .carryForward "2" 0 1 sender recipient "carry-forward" strayCarryHash
      0x51e78a3f97c178153a246017e14b6e8cbbddb7ee334aa6c63f5bfe0ad9c280abfad3c3bf2142c555e6d1599e6d45448015fc4992363fe6495e089e3a886e6d62 with
    value := "checkpoint=100;period=0;reward=1".toList }

def firstReward : Record :=
  record .issueCurrency "2" 0 1 sender sender "" firstRewardHash
    0x38a66b375d4547eb161895facecf7d48beb63c6a7a9d87f88f956684bf284fffa65d58be3c8a0d124e18318c609b9d4eb4b65582fb765404862dc1abdadef130

def secondReward : Record :=
  record .issueCurrency "3" 0 1 sender sender "" secondRewardHash
    0x0ee19997d2a2027821553901565b578521ed7f7a73e91d25c3b07058b3f70d1c252f21a0795b05a22ef254bdde4c0d5d334b7ebd7a8a18e2c3af520b4ff11a70

def lostSpend : Record :=
  record .transferCurrency "2" 1 (1 / 2) sender [] "" lostSpendHash
    0xcba02b7cd6a73e2283001d454b1209df5f1f2cdbc3d064ef1d25a22809cf14622a4bb795dc97c97319c770562a3d7800f18fe7ac9c25b2bcecd20d882951623c

def ownHeartBeat : Record :=
  record .heartBeat "2" 0 0 sender [] "" ownHeartBeatHash
    0xe2dbf7f95cf69f70cb8723987a051e5ca3e48f1323cbcddf5974874722c1f50a1f1e0776c13aab2136428d63c70e178a6158cf618a4b35d83835cd34654a6506

/-- A block by the first key. -/
def block (number : Int) (time : String) (previousBlockId : Int)
    (previousBlockHash recordsMerkleRoot hash : Text) (signature : Nat) (records : List Record) :
    Block where
  network := "main".toList
  number := number
  time := time.toList
  previousBlockId := previousBlockId
  previousBlockHash := previousBlockHash
  recordsMerkleRoot := recordsMerkleRoot
  creatorKey := sender
  hash := hash
  signature := upperHexText 128 signature
  records := records

def emptyRoot : Text :=
  hexText 64 0xe3b0c44298fc1c149afbf4c8996fb92427ae41e4649b934ca495991b7852b855

def genesisRoot : Text :=
  hexText 64 0x402556294a6333449fa5daca8c28863c6b8222f636f2a0626aff1f6e37077d6e

def duplicateRoot : Text :=
  hexText 64 0x05172ca16f55b444c6def3955758c93b5790fc870ecea1eb900bc2a9df186fef

def joinedRoot : Text :=
  hexText 64 0x8e250083f82692170e130d8e43c10e822f16e4b2211627cc843853e6b2c5bb93

def carryRoot : Text :=
  hexText 64 0x23a17de3ebab877611c0f4b6f46e38713fee3821cbf01d8434fe56f145069975

def rewardRoot : Text :=
  hexText 64 0x3930fe869294ffa4c4d5ebefb2d7b30f0e95c22046de601ce1b352cfbe167642

def carryBlockHash : Text :=
  hexText 64 0x0d8158b4ed7e7e51226e6833229b5d9cec307b12772612e9fe33aa3f03b88e89

def strayBlockHash : Text :=
  hexText 64 0xa95c493653ba1e71e80ce33e850cebcfa9837cf5fc26ac4e480fdf5bfba264e0

def rewardBlockHash : Text :=
  hexText 64 0x03f745640aad0e9a8ad654d7fbcd5a27555a2e02c0665889171d3699a57f1173

def lostBlockHash : Text :=
  hexText 64 0xcf5bd2269202084c43a5f3ef369d619cee4971d41a0ddc43f905f545ee56c8a5

def beatBlockHash : Text :=
  hexText 64 0x6a5bb522cc5bc823bbad88ab5866b5f5d99379fac1bdaecb81559db66ee896d1

def genesisHash : Text :=
  hexText 64 0xb37ba3762657e998187155c9c3265ba715b1b736790b990c1cceb5ac9673d92d

def validSpendHash : Text :=
  hexText 64 0xf6ab42f34f2eb55dc22c2d3cc4b0d06790987288db8b695f9d758a6f55ff61f7

def duplicateBlockHash : Text :=
  hexText 64 0xa9376f87fc4cd00b65981bbe46608ca9a662d1153c4969454dba1f37e7866cdf

def heirBlockHash : Text :=
  hexText 64 0x7d23df80162424a20eeab7a82ee3c7e3dea6f5ac357f567e8889874aff47fd83

def emptyBlockHash : Text :=
  hexText 64 0x255b74e9074a6cdad5cabd69c11e2242f50610f14b8d1f4cb7aefadf137d8924

def laterBlockHash : Text :=
  hexText 64 0xd8e988df19f65333d36bf0e7f953cc9c49a111db6783be287c1df1c549918493

def repeatBlockHash : Text :=
  hexText 64 0x4b9a10c2d1f5b4cb8f07052225b6b2d364b5cd15c1cc6b580e33145e88bea1b1

def joinedBlockHash : Text :=
  hexText 64 0x302d89ddc992fcd3db0ba3330e4f02c3b7fee494138b3d8d8fb3864d1d11f4f7

def genesis : Block :=
  block 100 "1" (-1) [] genesisRoot genesisHash
    0x14caba9d7dd016cb301b070453ed1bd413d2c863f45ba4107f97d9c85be811c49dbd2cd2086dcd569a5cb90cd3b55075afd8e8adf48ea5d1dfd8bf7baecfb38b
    [joinRecord, issueRecord]

def validSpend : Block :=
  block 101 "2" 100 genesisHash spendHash validSpendHash
    0x2e741a2e94b97c9f77c659680a33aa3f7470c0923a9b9109b889d3404774587d5dbad040be558c14b9606f5dbb27f3982005b06929d4d0a980a37f06d00efa3b
    [spend]

def duplicateBlock : Block :=
  block 101 "2" 100 genesisHash duplicateRoot duplicateBlockHash
    0xc26bbd35765fe5e2ffa6b6fd91a8812e9b6b05e1763eacec46650f71739fe11574da59619832c3b3f3c63e254c8f4b0c78bc4b691e3a2237b1031f9c5def5e67
    [spend, duplicateNonce]

def heirBlock : Block :=
  block 103 "2" 101 duplicateBlockHash emptyRoot heirBlockHash
    0x2f6159d934c6692fa533520f7bce1c15d220667b85e69a72641023abf36e3e0988a20f69beafbfdd4a39ed55a9d123311feb32afba9be5d8cceeb49385e014ee
    []

def emptyBlock : Block :=
  block 101 "2" 100 genesisHash emptyRoot emptyBlockHash
    0x0511e6ac05f154a98d5455f3542fd44594734abf088e9fc4df7ac3f37bb88362cd0845704839b9eea7a795c67bde8348794efde2aced8d896444f032b997ae78
    []

def laterBlock : Block :=
  block 102 "2" 100 genesisHash emptyRoot laterBlockHash
    0x6e8a7091866f938c5bfcaf03d4eabd02ccf89f651d1652e3365f2f07d222359ff50a63f0ec14da5ae97d808ced5a97f0c3bc21e807fa5839cb81deacc23a3197
    []

def repeatBlock : Block :=
  block 103 "2" 101 emptyBlockHash duplicateRoot repeatBlockHash
    0x1053ba950d716a823ab8ff7fc9498e16904706c8d5395ba145ba83c802602115875ccdba51fa739f8d9bf9fe43dff67aa56284d5b1e23fbd2d8475e703d8c328
    [spend, duplicateNonce]

def joinedBlock : Block :=
  block 101 "2" 100 genesisHash joinedRoot joinedBlockHash
    0x6f81e9ec9be63639bbe5ac6afb1ba6f7297e3e4d16d5f85d8bc0bb6cbc4d8b145c6a106604f8cf83d5e8ee6f5870e8a7a1bb3cbceda126c87dd44f684f6a7d2b
    [secondJoin, heartBeat]

def carryBlock : Block :=
  block 101 "2" 100 genesisHash carryRoot carryBlockHash
    0x01f5bc5c006999f6c98c55d8d3c0f0b09ae5c24668963466bda491e99980eee8e3fdf74a7a170c7f6bc668f890117b61c4e948ec8b95b2bc2f920366b1a9f1a9
    [carryFirst, carrySecond]

def strayBlock : Block :=
  block 101 "2" 100 genesisHash strayCarryHash strayBlockHash
    0x57e0c5dfc131e75d4ff8fa8c469a887af466fac4e7fb95f83b5a30ddee9a86cd79c1e73795e300abf557152ae8d954e8a730c6d598c43e4eb4eee74fe3a9f71a
    [strayCarry]

def rewardBlock : Block :=
  block 101 "2" 100 genesisHash rewardRoot rewardBlockHash
    0x7d96c2fdb5a14a46b55b3ce1cc6920594665ffd02a76d68a448d21bf6401a4742f41a701216b52cf91401495f830ffd695a28fd80f655843fd8c93a3f5d4db88
    [firstReward, secondReward]

def lostBlock : Block :=
  block 101 "2" 100 genesisHash lostSpendHash lostBlockHash
    0x3f4d0e5d2c30360b2815df7f659e2d1b2301a94522bd41019b986d93e0f96d110913b65eec7171f055aa3d744ab860f291c442515ea38d56aefe22bb4f17e910
    [lostSpend]

def beatBlock : Block :=
  block 101 "2" 100 genesisHash ownHeartBeatHash beatBlockHash
    0x434093080659b2b11d70064032fd140de7d6717d11bf7cd075200ec92e1a8d62ee4682f6c91f5e2128425de665437128c6d3d428a30ccfe5d396fbab20cf8738
    [ownHeartBeat]

/-- Blocks without records in a row, each with its hash and signature. -/
def idleBlocksFrom (number : Int) (parentHash : Text) : List (Nat × Nat) → List Block
  | [] => []
  | (hash, signature) :: rest =>
      block number "2" (number - 1) parentHash emptyRoot (hexText 64 hash) signature [] ::
        idleBlocksFrom (number + 1) (hexText 64 hash) rest

def idleBlocks : List Block :=
  idleBlocksFrom 102 beatBlockHash
    [(0xc168e0582f729d9d55941dc4d7fb1025bf7611818a14257c7edb615767cfcef4,
      0xe8f71ee5266b06583910104635cd59f397fd51504127aa605dff9328b7442f28b575baa792b0148d00a18448f7beb20709af6c8288253f7b6668401fd21ca594),
     (0xabd6bf717633fd1d45ce13795da5e7e49d10dc7ac2b342f63ae82867dbe32a6f,
      0x69bc0bec7368021090769be22a01783394648a6b7abb173ab632648c357a0a0af5a08e1689c90d5639fd5a503c3c76e74198f9f75e05a8c9e24aeb4159732952),
     (0x0ced6e12b270261478fbf8e62cc1c7ac19bda1237e2a8c3984173daaebb80ab3,
      0x12b70ba46193f2a3359b5f63fbfe6ef4e6d02d2e0686cb90dab03c6aed538cde45dd4047b4bec757a1434e8244cfaa86d8610ff10ba0d74a9f43e01d4eee125f),
     (0xb0de0169bf71e9e77743fa7c91792cfbed3dd6da97a5cfa77366f1061408b444,
      0x3b966b30efe1cd1632d70c7bb571e6575a427448ee60e9cec90970938e109026ed20b2608b31bb70ee281d257366679aa2280e267ac3e6646b71dadf5675f10b),
     (0xac2136f0b98467a8d047eee3e87a4c0f28f2ee98ec419d5239e5823413415596,
      0xaaf96867dc4c6ecc9b4da3f3f69ceb86ff4eba7747e890cc261ad54ca7a97db4affb5dab62320081e2b6115ec212af694dfa48e082d2c0d0ee9633d508312513),
     (0x2b15598b149c5d0f827fda3ede70108619da78f5e0fa876b9be8990bb759f8e8,
      0x716736bcaf8b5778ac5c047cd28fa49b83a6928bde6be30049340b98b489a115c37e9c99067048b1c70bcc571166d888e4d0375f483a4d39714c314be7c5026f),
     (0x7ad975d6b525cbbfc852e98eb6ae4228ae387cbe65adcd390a06660e68d579d9,
      0x2e6cdb185cc6237dab681b97d05e97873f754a475dd3b1eaba432395b4ea2083a0a239bad4a998c6e6ad66f93f7c1dcb341a71ef92a67356a43d23c316eff68d),
     (0x24767ede285f1987eabb7c752de87b8c762bdb3579c128f546d623e516213fff,
      0xa0957b488a362ae7e24eff4929bc46082b284df03ce93e484ea2c2f4c036dcfe79733cb41e5cca4e8d64bc3cbe72aae1f5de07627f9a0a3c0217b2282ed17a8a)]

/-- The spend without its Merkle root. The preimage of its hash, and so the
signature, are those of the block with the root. -/
def legacyBlock : Block :=
  { validSpend with recordsMerkleRoot := [] }

def recordContent (record : Record) (amount : String) : Text :=
  "main".toList ++ record.time ++ ofLong record.transactionType.code ++
    (if 0 < record.nonce then ofLong record.nonce else []) ++ amount.toList ++ "0".toList ++
    record.senderPublicKey ++ record.recipientPublicKey ++ record.name ++ record.value

def blockContent (block : Block) : Text :=
  "main".toList ++ ofLong block.number ++ block.time ++ block.previousBlockHash ++ sender ++
    block.recordsMerkleRoot

/-- The blocks that the first key signed. -/
def signedBlocks : List Block :=
  [genesis, validSpend, duplicateBlock, heirBlock, emptyBlock, laterBlock, repeatBlock,
   joinedBlock, carryBlock, strayBlock, rewardBlock, lostBlock, beatBlock] ++
    idleBlocks

/-- The digests that choose the creators after the genesis block. -/
def seedDigests : List (Int × Nat) :=
  [(101, 0x0f567acf824c957c573568580e707937f283a0056a530c5926e8a0109cfc4ca4),
   (102, 0x3a5b35e4d9cecdec8078d621ca5254b4e4fe40fc8ba329b164f2f915a9a04bd4),
   (103, 0x225fa23b776587b0df9280231449cb2a4384f0dcaae15912c82bc5d7cf6345e7),
   (104, 0x8a30a78f90f9d87a4fd47166b7f487d4aa7b4f9179ce5e44468b9b6102b6cd69),
   (105, 0xc043e365bb3f883d2cc46c16151517ef78cd1438f7ebf68992079f2079777816),
   (106, 0x8723005d3638c9401759c551b276ae9e33eac7006a9f645188913abfaba456af),
   (107, 0xf97237435d255c431d345f4f9fd681ce0711c37ec30b122176cd06acde1a0422),
   (108, 0x0535f75fa7b349c81348901759dbeaf8f0b69e65ddaef240522828fdeb7665b7),
   (109, 0x8ec83708d17484fd4a9c8fe22a48897516597123151397de9eae1db236e72159)]

/-- SHA-256 on the texts that the sample blocks need. -/
def digests : List (Text × Text) :=
  [(recordContent joinRecord "0", joinRecordHash),
   (recordContent issueRecord "1", issueRecordHash),
   (recordContent spend "0.5", spendHash),
   (recordContent duplicateNonce "0.25", duplicateNonceHash),
   (recordContent secondJoin "0", secondJoinHash),
   (recordContent heartBeat "0", heartBeatHash),
   (recordContent carryFirst "1", carryFirstHash),
   (recordContent carrySecond "1", carrySecondHash),
   (recordContent strayCarry "1", strayCarryHash),
   (recordContent firstReward "1", firstRewardHash),
   (recordContent secondReward "1", secondRewardHash),
   (recordContent lostSpend "0.5", lostSpendHash),
   (recordContent ownHeartBeat "0", ownHeartBeatHash),
   ([], emptyRoot),
   (joinRecordHash ++ issueRecordHash, genesisRoot),
   (spendHash ++ duplicateNonceHash, duplicateRoot),
   (secondJoinHash ++ heartBeatHash, joinedRoot),
   (carryFirstHash ++ carrySecondHash, carryRoot),
   (firstRewardHash ++ secondRewardHash, rewardRoot)] ++
  signedBlocks.map (fun block => (blockContent block, block.hash)) ++
  seedDigests.map (fun seed => (genesisHash ++ ":".toList ++ ofLong seed.1, hexText 64 seed.2))

/-- The valid signatures: a hash with its signer and signature. -/
def signatures : List (Text × Text × Text) :=
  [joinRecord, issueRecord, spend, duplicateNonce, secondJoin, heartBeat, carryFirst,
   carrySecond, strayCarry, firstReward, secondReward, lostSpend, ownHeartBeat].map
      (fun record => (record.hash, record.signature, record.senderPublicKey)) ++
    signedBlocks.map (fun block => (block.hash, block.signature, block.creatorKey))

/-- The printed forms of the sample amounts that are no integers. -/
def decimals : List (Rat × Text) :=
  [(1 / 2, "0.5".toList), (1 / 4, "0.25".toList), (21 / 2, "10.5".toList)]

/-- An integer, or two integers with a bar between them. -/
def fractionText (amount : Rat) : Text :=
  ofLong amount.num ++ if amount.den = 1 then [] else '/' :: ofLong amount.den

/-- No listed digest starts with the letter of the other texts. -/
def env : Env where
  sha256 := fun content => (digests.lookup content).getD ('x' :: content)
  verifyMessageCompressed := fun message signature publicKey =>
    if (message, signature, publicKey) ∈ signatures then 1 else 0
  doubleText := fun amount => (decimals.lookup amount).getD (fractionText amount)
  atof := fun text =>
    ((decimals.map Prod.swap).lookup text).getD (atol text)
  unsetType := .joinNetwork
  config :=
    { genesisBlock := 100
      genesisHash := genesisHash
      recoveryPublicKey := []
      strictGenesis := true }

theorem sha256_injective : Function.Injective env.sha256 := by
  have values : (digests.map Prod.snd).Nodup := by decide +kernel
  have marked : ∀ entry ∈ digests, entry.2.head? ≠ some 'x' := by decide +kernel
  have apart : ∀ entry ∈ digests, ∀ content, entry.2 ≠ 'x' :: content := by
    intro entry member content same
    exact marked entry member (by rw [same]; rfl)
  exact KeyedList.lookup_getD_injective values apart (List.cons_injective)

/-- A printed fraction shows its numerator up to the bar. -/
theorem fractionText_injective : Function.Injective fractionText := by
  have bar : ∀ value : Int, ∀ byte ∈ ofLong value, byte ≠ '/' := by
    rintro value byte member rfl
    rcases mem_ofLong member with same | digit
    · exact absurd same (by decide)
    · exact absurd digit (by decide)
  have taken : ∀ amount : Rat, (fractionText amount).takeWhile (· ≠ '/') = ofLong amount.num := by
    intro amount
    rw [fractionText, List.takeWhile_append_of_pos (by simpa using bar amount.num)]
    split <;> simp
  intro left right same
  have numerators : left.num = right.num :=
    ofLong_injective ((taken left).symm.trans ((congrArg _ same).trans (taken right)))
  have tails : (if left.den = 1 then [] else '/' :: ofLong left.den) =
      (if right.den = 1 then [] else '/' :: ofLong right.den) := by
    rw [fractionText, fractionText, numerators] at same
    exact List.append_cancel_left same
  have denominators : left.den = right.den := by
    split at tails
    · split at tails
      · omega
      · cases tails
    · split at tails
      · cases tails
      · exact Int.ofNat.inj (ofLong_injective (List.cons.inj tails).2)
  exact Rat.ext numerators denominators

theorem doubleText_injective : Function.Injective env.doubleText := by
  have values : (decimals.map Prod.snd).Nodup := by decide
  have dotted : ∀ entry ∈ decimals, '.' ∈ entry.2 := by decide
  have plain : ∀ amount, '.' ∉ fractionText amount := by
    intro amount member
    rcases List.mem_append.mp member with inside | after
    · rcases mem_ofLong inside with same | digit
      · exact absurd same (by decide)
      · exact absurd digit (by decide)
    · split at after
      · cases after
      · rcases List.mem_cons.mp after with same | inside
        · exact absurd same (by decide)
        · rcases mem_ofLong inside with same | digit
          · exact absurd same (by decide)
          · exact absurd digit (by decide)
  refine KeyedList.lookup_getD_injective values ?_ fractionText_injective
  intro entry member amount same
  exact plain amount (same ▸ dotted entry member)

/-- The sample blocks that are valid on the genesis block. -/
def children : List Block :=
  [validSpend, emptyBlock, laterBlock, joinedBlock, carryBlock, strayBlock, rewardBlock, lostBlock,
    legacyBlock]

theorem accepts_children :
    ∀ child ∈ children, ChainValidator.Accepts env [genesis, child] := by
  -- Each child is checked on its own, which keeps the checks small.
  rw [children]
  simp only [List.forall_mem_cons, List.not_mem_nil, false_implies, implies_true, and_true]
  refine ⟨?_, ?_, ?_, ?_, ?_, ?_, ?_, ?_, ?_⟩ <;> decide +kernel

theorem accepts_child {child : Block} (place : Nat) (listed : children[place]? = some child) :
    ChainValidator.Accepts env [genesis, child] :=
  accepts_children child (List.mem_of_getElem? listed)

theorem accepts_genesis : ChainValidator.Accepts env [genesis] := by decide +kernel

theorem accepts_validSpend : ChainValidator.Accepts env [genesis, validSpend] :=
  accepts_child 0 rfl

end Sample

end Safire
