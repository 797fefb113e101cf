/-
`validateConnectedChain` on amounts that need not be numbers.

`atof` reads "nan" and "inf" as a `double` reads them, and every check on an amount
is the rejection of a bad comparison. The records here carry such amounts; what reads
no amount is the rule of the validator over rational amounts.
-/

import Safire.ConnectedChain
import Safire.Library.Loop
import Safire.Library.Ieee

namespace Safire

open Text Ieee

abbrev Double := Number Rat

/-- The printing and reading of a `double`, with the values that are no numbers. -/
structure DoubleText where
  print : Double → Text
  atof : Text → Double

structure DoubleRecord where
  network : Text
  time : Text
  transactionType : TransactionType
  nonce : Int
  amount : Double
  fee : Double
  senderPublicKey : Text
  recipientPublicKey : Text
  hash : Text
  signature : Text
  name : Text
  value : Text
  deriving DecidableEq

structure DoubleBlock where
  network : Text
  number : Int
  time : Text
  previousBlockId : Int
  previousBlockHash : Text
  recordsMerkleRoot : Text
  creatorKey : Text
  hash : Text
  signature : Text
  records : List DoubleRecord
  deriving DecidableEq

/-- The record for the rules that read neither amount nor fee. -/
@[reducible] def DoubleRecord.plain (record : DoubleRecord) : Record where
  network := record.network
  time := record.time
  transactionType := record.transactionType
  nonce := record.nonce
  amount := 0
  fee := 0
  senderPublicKey := record.senderPublicKey
  recipientPublicKey := record.recipientPublicKey
  hash := record.hash
  signature := record.signature
  name := record.name
  value := record.value

/-- The block for the rules that read no record of it. -/
@[reducible] def DoubleBlock.plain (block : DoubleBlock) : Block where
  network := block.network
  number := block.number
  time := block.time
  previousBlockId := block.previousBlockId
  previousBlockHash := block.previousBlockHash
  recordsMerkleRoot := block.recordsMerkleRoot
  creatorKey := block.creatorKey
  hash := block.hash
  signature := block.signature
  records := []

namespace Doubles

open ChainValidator

/-! ### Texts and hashes -/

section Texts

variable (env : Env) (doubles : DoubleText)

def getRecordHash (record : DoubleRecord) : Text :=
  hashText env
    (record.network ++ record.time ++ ofLong record.transactionType.code ++
      (if 0 < record.nonce then ofLong record.nonce else []) ++
      doubles.print record.amount ++ doubles.print record.fee ++
      record.senderPublicKey ++ record.recipientPublicKey ++ record.name ++ record.value)

def recordHashOrComputed (record : DoubleRecord) : Text :=
  if record.hash = [] then getRecordHash env doubles record else record.hash

def getRecordsMerkleRoot (records : List DoubleRecord) : Text :=
  if records = [] then hashText env []
  else
    let level := records.map (recordHashOrComputed env doubles)
    (merkleRounds env level.length level).headD []

def getBlockHash (block : DoubleBlock) : Text :=
  hashText env
    (block.network ++ ofLong block.number ++ block.time ++ block.previousBlockHash ++
      block.creatorKey ++ block.recordsMerkleRoot ++
      if block.recordsMerkleRoot.length = 0 then
        block.records.flatMap (recordHashOrComputed env doubles)
      else [])

def recordJSON (record : DoubleRecord) : Text :=
  "\x7b\"record\":\x7b ".toList ++
    jsonField "network" record.network ++
    jsonField "time" record.time ++
    jsonField "name" record.name ++
    jsonField "typ" (ofLong record.transactionType.code) ++
    (if 0 < record.nonce then jsonField "nonce" (ofLong record.nonce) else []) ++
    jsonField "amt" (doubles.print record.amount) ++
    jsonField "fee" (doubles.print record.fee) ++
    jsonField "sndkey" record.senderPublicKey ++
    jsonField "rcvkey" record.recipientPublicKey ++
    jsonField "value" record.value ++
    jsonField "hash" record.hash ++
    "\"sig\":\"".toList ++ record.signature ++ "\"".toList ++
    "\x7d\x7d\n".toList

def recordSizeError (record : DoubleRecord) : String :=
  if maxRecordNetworkBytes < record.network.length then "network field is too long"
  else if maxRecordTimeBytes < record.time.length then "time field is too long"
  else if maxRecordNameBytes < record.name.length then "name field is too long"
  else if maxRecordValueBytes < record.value.length then "value field is too long"
  else if maxRecordKeyBytes < record.senderPublicKey.length then "sender public key is too long"
  else if maxRecordKeyBytes < record.recipientPublicKey.length then
    "recipient public key is too long"
  else if maxRecordHashBytes < record.hash.length then "hash field is too long"
  else if maxRecordSignatureBytes < record.signature.length then "signature field is too long"
  else if maxRecordJsonBytes < (recordJSON doubles record).length then
    "serialized record is too large"
  else ""

def parseSectionDouble (content : Text) (name : String) : Double :=
  doubles.atof (quotedSection content name)

/-- All fields but the two amounts are those of the rational reader. -/
def parseRecordJson (content : Text) : DoubleRecord :=
  let read := Safire.parseRecordJson env content
  { network := read.network
    time := read.time
    transactionType := read.transactionType
    nonce := read.nonce
    amount := parseSectionDouble doubles content "amt"
    fee := parseSectionDouble doubles content "fee"
    senderPublicKey := read.senderPublicKey
    recipientPublicKey := read.recipientPublicKey
    hash := read.hash
    signature := read.signature
    name := read.name
    value := read.value }

end Texts

/-! ### The checks before the type rules -/

section Checks

variable (env : Env) (doubles : DoubleText)

def checkEnvelope (block : DoubleBlock) : Except String Unit :=
  if block.number ≤ 0 then .error "block number is invalid"
  else if block.hash.length = 0 then .error "block hash is missing"
  else if maxBlockRecords < block.records.length then .error "too many records"
  else if 0 < block.recordsMerkleRoot.length ∧
      getRecordsMerkleRoot env doubles block.records ≠ block.recordsMerkleRoot then
    .error "records merkle root mismatch"
  else if getBlockHash env doubles block ≠ block.hash then .error "block hash mismatch"
  else if block.creatorKey.length = 0 then .error "block creator is missing"
  else if block.signature.length = 0 ∨
      env.verifyMessageCompressed block.hash block.signature block.creatorKey ≠ 1 then
    .error "block signature is invalid"
  else .ok ()

def checkRecordHash (blockRecordHashes : TextSet) (inParent : Bool) (record : DoubleRecord) :
    Except String Unit :=
  if recordSizeError doubles record ≠ "" then .error "record is oversized"
  else if record.hash.length = 0 ∨ getRecordHash env doubles record ≠ record.hash then
    .error "record hash mismatch"
  else if record.hash ∈ blockRecordHashes then .error "duplicate record hash in block"
  else if inParent then .error "duplicate record hash already exists in chain"
  else .ok ()

end Checks

/-! ### The branch state and its balances -/

/-- The branch state, whose own balances are left empty, beside the balances. -/
structure BranchState where
  rest : ChainValidator.BranchState
  balances : TextMap Double

def BranchState.initial : BranchState where
  rest := .initial
  balances := ∅

def BranchState.balance (state : BranchState) (key : Text) : Double :=
  state.balances.getD key (.finite 0)

def credit (balances : TextMap Double) (key : Text) (amount : Double) : TextMap Double :=
  balances.insert key ((balances.getD key (.finite 0)).add amount)

/-! ### The type rules that read an amount -/

section Typed

variable (block : DoubleBlock) (state : BranchState) (record : DoubleRecord)

def connectIssue : Except String BranchState :=
  if record.amount.lt (.finite 0) = true ∨ Number.lt (.finite 1) record.amount = true then
    .error "issue amount is invalid"
  else if record.senderPublicKey ≠ block.creatorKey ∨
      record.recipientPublicKey ≠ block.creatorKey then
    .error "issue reward must pay the block creator"
  else
    .ok { state with balances := credit state.balances record.recipientPublicKey record.amount }

def transferDebit : Double :=
  if record.senderPublicKey = record.recipientPublicKey then record.fee
  else record.amount.add record.fee

def applyTransfer (balances : TextMap Double) : TextMap Double :=
  credit
    (credit (credit balances record.recipientPublicKey record.amount)
      record.senderPublicKey (record.amount.add record.fee).neg)
    block.creatorKey record.fee

def applyVote (balances : TextMap Double) : TextMap Double :=
  credit (credit balances record.senderPublicKey record.fee.neg) block.creatorKey record.fee

/-- The balance with the tolerance lies below the debit. -/
def overspends (debit : Double) : Bool :=
  ((state.balance record.senderPublicKey).add (.finite balanceTolerance)).lt debit

def connectTransfer : Except String BranchState :=
  if record.amount.le (.finite 0) = true ∨ record.fee.lt (.finite 0) = true then
    .error "transfer amount or fee is invalid"
  else if 0 < block.recordsMerkleRoot.length ∧
      record.nonce ≠ state.rest.nonce record.senderPublicKey + 1 then
    .error "transfer nonce is invalid"
  else if overspends state record (transferDebit record) = true then
    .error "transfer overspends sender balance"
  else
    .ok
      { rest :=
          { state.rest with
            nonces :=
              if 0 < block.recordsMerkleRoot.length then
                state.rest.nonces.insert record.senderPublicKey record.nonce
              else state.rest.nonces }
        balances := applyTransfer block record state.balances }

def connectVote : Except String BranchState :=
  if record.fee.lt (.finite 0) = true ∨ overspends state record record.fee = true then
    .error "vote fee overspends sender balance"
  else .ok { state with balances := applyVote block record state.balances }

/-- The amount is compared, and the reward is paid. -/
def connectCarryForward : Except String BranchState :=
  let checkpointBlock := parseCarryForwardValueLong record.value "checkpoint"
  let period := parseCarryForwardValueLong record.value "period"
  if record.amount.lt (.finite 0) = true ∨ checkpointBlock < 0 ∨ period < 0 ∨
      block.number ≤ checkpointBlock then
    .error "carry-forward amount is invalid"
  else
    let key := carryForwardKey record.plain
    if 0 < key.length ∧ key ∉ state.rest.acceptedCarryForwardKeys then
      .ok
        { rest :=
            { state.rest with
              acceptedCarryForwardKeys := state.rest.acceptedCarryForwardKeys.insert key }
          balances :=
            credit state.balances record.senderPublicKey (.finite carryForwardReward) }
    else .ok state

/-- A rule that reads no amount leaves the balances alone. -/
def keepBalances (rest : Except String ChainValidator.BranchState) : Except String BranchState :=
  rest.map (fun rest => { state with rest := rest })

end Typed

/-! ### The loops -/

section Loops

variable (env : Env) (doubles : DoubleText)

def connectTyped (block : DoubleBlock) (isGenesis : Bool) (state : BranchState)
    (record : DoubleRecord) : Except String BranchState :=
  match record.transactionType with
  | .issueCurrency => connectIssue block state record
  | .transferCurrency => connectTransfer block state record
  | .vote => connectVote block state record
  | .joinNetwork => keepBalances state (connectJoin block.plain isGenesis state.rest record.plain)
  | .updateName => keepBalances state (connectUpdateName state.rest record.plain)
  | .heartBeat =>
      keepBalances state (connectHeartBeat block.plain isGenesis state.rest record.plain)
  | .carryForward => connectCarryForward block state record
  | .periodSummary => .error "period summary records are not accepted"

def BranchState.markHash (state : BranchState) (hash : Text) : BranchState :=
  { state with
    rest := { state.rest with
      acceptedRecordHashes := state.rest.acceptedRecordHashes.insert hash } }

def connectRecord (block : DoubleBlock) (isGenesis : Bool) (state : BranchState)
    (blockRecordHashes : TextSet) (record : DoubleRecord) : Except String BranchState := do
  checkRecordHash env doubles blockRecordHashes
    (state.rest.acceptedRecordHashes.contains record.hash) record
  checkRecordSignature env record.plain
  connectTyped block isGenesis (state.markHash record.hash) record

def recordStep (block : DoubleBlock) (isGenesis : Bool) (progress : BranchState × TextSet)
    (record : DoubleRecord) : Except String (BranchState × TextSet) := do
  let next ← connectRecord env doubles block isGenesis progress.1 progress.2 record
  pure (next, progress.2.insert record.hash)

def connectRecords (block : DoubleBlock) (isGenesis : Bool) (state : BranchState)
    (records : List DoubleRecord) : Except String BranchState := do
  let progress ← records.foldlM (recordStep env doubles block isGenesis) (state, ∅)
  pure progress.1

def checkHeader (before : List DoubleBlock) (state : BranchState) (block : DoubleBlock) :
    Except String Unit := do
  checkEnvelope env doubles block
  checkLink env (before.map DoubleBlock.plain) state.rest block.plain

def connectBlock (before : List DoubleBlock) (state : BranchState) (block : DoubleBlock) :
    Except String BranchState := do
  checkHeader env doubles before state block
  let next ← connectRecords env doubles block before.isEmpty state block.records
  pure { next with rest := pushSnapshot block.plain next.rest }

def blockStep (progress : List DoubleBlock × BranchState) (block : DoubleBlock) :
    Except String (List DoubleBlock × BranchState) := do
  let next ← connectBlock env doubles progress.1 progress.2 block
  pure (progress.1 ++ [block], next)

def connectChain (chain : List DoubleBlock) : Except String BranchState := do
  let progress ← chain.foldlM (blockStep env doubles) ([], .initial)
  pure progress.2

def validateConnectedChain (chain : List DoubleBlock) : Except String Unit :=
  if chain.length = 0 then .error "candidate chain is empty"
  else (connectChain env doubles chain).map (fun _ => ())

def Accepts (chain : List DoubleBlock) : Prop :=
  validateConnectedChain env doubles chain = .ok ()

instance (chain : List DoubleBlock) : Decidable (Accepts env doubles chain) :=
  inferInstanceAs (Decidable (_ = _))

/-- The state inside the loops, as for rational amounts. -/
def stateAfterRecords (before : List DoubleBlock) (block : DoubleBlock)
    (records : List DoubleRecord) : Except String BranchState := do
  let state ← connectChain env doubles before
  checkHeader env doubles before state block
  connectRecords env doubles block before.isEmpty state records

end Loops

/-! ### Rational amounts -/

/-- A rational record as one with doubles. -/
@[reducible] def ofRecord (record : Record) : DoubleRecord where
  network := record.network
  time := record.time
  transactionType := record.transactionType
  nonce := record.nonce
  amount := .finite record.amount
  fee := .finite record.fee
  senderPublicKey := record.senderPublicKey
  recipientPublicKey := record.recipientPublicKey
  hash := record.hash
  signature := record.signature
  name := record.name
  value := record.value

@[reducible] def ofBlock (block : Block) : DoubleBlock where
  network := block.network
  number := block.number
  time := block.time
  previousBlockId := block.previousBlockId
  previousBlockHash := block.previousBlockHash
  recordsMerkleRoot := block.recordsMerkleRoot
  creatorKey := block.creatorKey
  hash := block.hash
  signature := block.signature
  records := block.records.map ofRecord

def ofBalances (balances : TextMap Rat) : TextMap Double :=
  balances.map (fun _ balance => .finite balance)

@[reducible] def ofState (state : ChainValidator.BranchState) : BranchState where
  rest := { state with balances := ∅ }
  balances := ofBalances state.balances

section Rational

variable {env : Env} {doubles : DoubleText}

theorem getD_ofBalances (balances : TextMap Rat) (key : Text) :
    (ofBalances balances).getD key (.finite 0) = .finite (balances.getD key 0) := by
  rw [Std.ExtTreeMap.getD_eq_getD_getElem?, Std.ExtTreeMap.getD_eq_getD_getElem?, ofBalances,
    Std.ExtTreeMap.getElem?_map]
  cases balances[key]? with
  | none => rfl
  | some balance => rfl

theorem credit_ofBalances (balances : TextMap Rat) (key : Text) (amount : Rat) :
    credit (ofBalances balances) key (.finite amount) =
      ofBalances (Safire.credit balances key amount) := by
  apply Std.ExtTreeMap.ext_getElem?
  intro other
  rw [credit, getD_ofBalances, Safire.credit, Std.ExtTreeMap.getElem?_insert, ofBalances,
    ofBalances, Std.ExtTreeMap.getElem?_map, Std.ExtTreeMap.getElem?_map,
    Std.ExtTreeMap.getElem?_insert]
  split
  · rfl
  · rfl

section Records

variable (block : Block) (isGenesis : Bool) (state : ChainValidator.BranchState) (record : Record)

theorem connectIssue_ofRecord :
    connectIssue (ofBlock block) (ofState state) (ofRecord record) =
      (ChainValidator.connectIssue block state record).map ofState := by
  unfold connectIssue ChainValidator.connectIssue
  simp only [Number.lt, decide_eq_true_eq]
  by_cases range : record.amount < 0 ∨ 1 < record.amount
  · rw [if_pos range, if_pos range]
    rfl
  · rw [if_neg range, if_neg range]
    by_cases keys : record.senderPublicKey ≠ block.creatorKey ∨
        record.recipientPublicKey ≠ block.creatorKey
    · rw [if_pos keys, if_pos keys]
      rfl
    · rw [if_neg keys, if_neg keys]
      simp only [Except.map, ofState, credit_ofBalances]

theorem overspends_ofRecord (debit : Rat) :
    overspends (ofState state) (ofRecord record) (.finite debit) =
      decide (state.balance record.senderPublicKey + balanceTolerance < debit) := by
  have balance : (ofState state).balance record.senderPublicKey =
      .finite (state.balance record.senderPublicKey) :=
    getD_ofBalances state.balances record.senderPublicKey
  unfold overspends
  simp only [balance, Number.add, Number.lt]

theorem transferDebit_ofRecord :
    transferDebit (ofRecord record) = .finite (ChainValidator.transferDebit record) := by
  unfold transferDebit ChainValidator.transferDebit
  simp only [Number.add]
  by_cases own : record.senderPublicKey = record.recipientPublicKey
  · rw [if_pos own, if_pos own]
  · rw [if_neg own, if_neg own]

theorem connectTransfer_ofRecord :
    connectTransfer (ofBlock block) (ofState state) (ofRecord record) =
      (ChainValidator.connectTransfer block state record).map ofState := by
  unfold connectTransfer ChainValidator.connectTransfer
  rw [transferDebit_ofRecord, overspends_ofRecord]
  have nonce : (ofState state).rest.nonce = state.nonce := rfl
  simp only [ofRecord, ofBlock, Number.lt, Number.le, decide_eq_true_eq, nonce]
  by_cases amounts : record.amount ≤ 0 ∨ record.fee < 0
  · rw [if_pos amounts, if_pos amounts]
    rfl
  · rw [if_neg amounts, if_neg amounts]
    by_cases sequence : 0 < block.recordsMerkleRoot.length ∧
        record.nonce ≠ state.nonce record.senderPublicKey + 1
    · rw [if_pos sequence, if_pos sequence]
      rfl
    · rw [if_neg sequence, if_neg sequence]
      by_cases short : state.balance record.senderPublicKey + balanceTolerance <
          ChainValidator.transferDebit record
      · rw [if_pos short, if_pos short]
        rfl
      · rw [if_neg short, if_neg short]
        simp only [Except.map, ofState, applyTransfer, Number.add, Number.neg, credit_ofBalances]
        rfl

theorem connectVote_ofRecord :
    connectVote (ofBlock block) (ofState state) (ofRecord record) =
      (ChainValidator.connectVote block state record).map ofState := by
  have fee : (ofRecord record).fee = .finite record.fee := rfl
  unfold connectVote ChainValidator.connectVote
  rw [fee, overspends_ofRecord]
  simp only [Number.lt, decide_eq_true_eq]
  split
  · rfl
  · simp only [Except.map, ofState, applyVote, Number.neg, credit_ofBalances]
    rfl

theorem connectCarryForward_ofRecord :
    connectCarryForward (ofBlock block) (ofState state) (ofRecord record) =
      (ChainValidator.connectCarryForward block state record).map ofState := by
  have key : carryForwardKey (ofRecord record).plain = carryForwardKey record := rfl
  unfold connectCarryForward ChainValidator.connectCarryForward
  rw [key]
  simp only [Number.lt, decide_eq_true_eq]
  generalize parseCarryForwardValueLong record.value "checkpoint" = checkpoint
  generalize parseCarryForwardValueLong record.value "period" = period
  by_cases refused : record.amount < 0 ∨ checkpoint < 0 ∨ period < 0 ∨ block.number ≤ checkpoint
  · rw [if_pos refused, if_pos refused]
    rfl
  · rw [if_neg refused, if_neg refused]
    by_cases new : 0 < (carryForwardKey record).length ∧
        carryForwardKey record ∉ state.acceptedCarryForwardKeys
    · rw [if_pos new]
      rw [if_pos new]
      simp only [Except.map, ofState, credit_ofBalances]
    · rw [if_neg new]
      rw [if_neg new]
      rfl

/-- The rules of the members do not read the balances. -/
theorem connectJoin_ofState :
    keepBalances (ofState state)
        (ChainValidator.connectJoin (ofBlock block).plain isGenesis (ofState state).rest
          (ofRecord record).plain) =
      (ChainValidator.connectJoin block isGenesis state record).map ofState := by
  unfold ChainValidator.connectJoin
  dsimp only
  generalize claimBranchName (if isBranchMember state.members record.senderPublicKey = true then
      state.members else state.members ++ [newBranchMember record.senderPublicKey block.number])
    state.nameOwners record.senderPublicKey record.name = claimed
  split
  · rfl
  · split
    · rfl
    · split
      · rfl
      · cases claimed with
        | none => rfl
        | some claim => rfl

theorem connectUpdateName_ofState :
    keepBalances (ofState state)
        (ChainValidator.connectUpdateName (ofState state).rest (ofRecord record).plain) =
      (ChainValidator.connectUpdateName state record).map ofState := by
  unfold ChainValidator.connectUpdateName
  dsimp only
  generalize claimBranchName state.members state.nameOwners record.senderPublicKey record.name =
    claimed
  split
  · rfl
  · split
    · rfl
    · cases claimed with
      | none => rfl
      | some claim => rfl

theorem connectHeartBeat_ofState :
    keepBalances (ofState state)
        (ChainValidator.connectHeartBeat (ofBlock block).plain isGenesis (ofState state).rest
          (ofRecord record).plain) =
      (ChainValidator.connectHeartBeat block isGenesis state record).map ofState := by
  unfold ChainValidator.connectHeartBeat
  dsimp only
  split
  · rfl
  · split
    · rfl
    · rfl

theorem connectTyped_ofRecord :
    connectTyped (ofBlock block) isGenesis (ofState state) (ofRecord record) =
      (ChainValidator.connectTyped block isGenesis state record).map ofState := by
  have kind : (ofRecord record).transactionType = record.transactionType := rfl
  unfold connectTyped ChainValidator.connectTyped
  rw [kind]
  cases record.transactionType with
  | issueCurrency => exact connectIssue_ofRecord block state record
  | transferCurrency => exact connectTransfer_ofRecord block state record
  | vote => exact connectVote_ofRecord block state record
  | joinNetwork => exact connectJoin_ofState block isGenesis state record
  | updateName => exact connectUpdateName_ofState state record
  | heartBeat => exact connectHeartBeat_ofState block isGenesis state record
  | carryForward => exact connectCarryForward_ofRecord block state record
  | periodSummary => rfl

end Records

/-! ### The whole validator -/

theorem consecutiveRecoveryBlocksInBranch_plain (before : List Block) (recoveryPublicKey : Text) :
    consecutiveRecoveryBlocksInBranch ((before.map ofBlock).map DoubleBlock.plain)
        recoveryPublicKey = consecutiveRecoveryBlocksInBranch before recoveryPublicKey := by
  unfold consecutiveRecoveryBlocksInBranch
  rw [List.map_map, ← List.map_reverse, List.takeWhile_map]
  dsimp only
  rw [List.length_map]
  rfl

/-- The link checks read no record and no balance. -/
theorem checkLink_plain (before : List Block) (state : ChainValidator.BranchState) (block : Block) :
    checkLink env ((before.map ofBlock).map DoubleBlock.plain) (ofState state).rest
        (ofBlock block).plain =
      checkLink env before state block := by
  unfold checkLink
  rw [List.head?_map, List.head?_map, List.getLast?_map, List.getLast?_map]
  cases before.head? with
  | none => rfl
  | some genesis =>
      cases before.getLast? with
      | none => rfl
      | some parent =>
          unfold checkParentLink branchAuthorization
          dsimp only [Option.map]
          simp only [consecutiveRecoveryBlocksInBranch_plain]
          rfl

theorem ofState_initial : ofState .initial = .initial := by
  have nothing : ofBalances ∅ = ∅ := by
    apply Std.ExtTreeMap.ext_getElem?
    intro key
    rw [ofBalances, Std.ExtTreeMap.getElem?_map, Std.ExtTreeMap.getElem?_empty,
      Std.ExtTreeMap.getElem?_empty]
    rfl
  unfold ofState BranchState.initial ChainValidator.BranchState.initial
  rw [nothing]

section Printed

variable (prints : ∀ amount, doubles.print (.finite amount) = env.doubleText amount)
include prints

theorem getRecordHash_ofRecord (record : Record) :
    getRecordHash env doubles (ofRecord record) = Safire.getRecordHash env record := by
  unfold getRecordHash Safire.getRecordHash
  rw [prints, prints]

theorem recordHashOrComputed_ofRecord (record : Record) :
    recordHashOrComputed env doubles (ofRecord record) = Safire.recordHashOrComputed env record := by
  unfold recordHashOrComputed Safire.recordHashOrComputed
  rw [getRecordHash_ofRecord prints]

theorem getRecordsMerkleRoot_ofRecord (records : List Record) :
    getRecordsMerkleRoot env doubles (records.map ofRecord) =
      Safire.getRecordsMerkleRoot env records := by
  have hashes : (records.map ofRecord).map (recordHashOrComputed env doubles) =
      records.map (Safire.recordHashOrComputed env) := by
    rw [List.map_map]
    exact List.map_congr_left fun record _ => recordHashOrComputed_ofRecord prints record
  unfold getRecordsMerkleRoot Safire.getRecordsMerkleRoot
  rw [hashes]
  simp only [List.map_eq_nil_iff]

theorem getBlockHash_ofBlock (block : Block) :
    getBlockHash env doubles (ofBlock block) = Safire.getBlockHash env block := by
  have hashes : (block.records.map ofRecord).flatMap (recordHashOrComputed env doubles) =
      block.records.flatMap (Safire.recordHashOrComputed env) := by
    rw [List.flatMap_map]
    congr 1
    funext record
    exact recordHashOrComputed_ofRecord prints record
  unfold getBlockHash Safire.getBlockHash
  dsimp only
  rw [hashes]

theorem recordSizeError_ofRecord (record : Record) :
    recordSizeError doubles (ofRecord record) = Safire.recordSizeError env record := by
  have json : recordJSON doubles (ofRecord record) = Safire.recordJSON env record := by
    unfold recordJSON Safire.recordJSON
    rw [prints, prints]
  unfold recordSizeError Safire.recordSizeError
  rw [json]

theorem checkEnvelope_ofBlock (block : Block) :
    checkEnvelope env doubles (ofBlock block) = Safire.checkEnvelope env block := by
  unfold checkEnvelope Safire.checkEnvelope
  rw [getBlockHash_ofBlock prints, getRecordsMerkleRoot_ofRecord prints, List.length_map]

theorem checkRecordHash_ofRecord (hashes : TextSet) (inParent : Bool) (record : Record) :
    checkRecordHash env doubles hashes inParent (ofRecord record) =
      Safire.checkRecordHash env hashes inParent record := by
  unfold checkRecordHash Safire.checkRecordHash isRecordSizeValid
  rw [recordSizeError_ofRecord prints, getRecordHash_ofRecord prints]
  simp only [ne_eq, decide_eq_false_iff_not]

theorem connectRecord_ofRecord (block : Block) (isGenesis : Bool)
    (state : ChainValidator.BranchState) (hashes : TextSet) (record : Record) :
    connectRecord env doubles (ofBlock block) isGenesis (ofState state) hashes (ofRecord record) =
      (ChainValidator.connectRecord env block isGenesis state hashes record).map ofState := by
  unfold connectRecord ChainValidator.connectRecord
  rw [checkRecordHash_ofRecord prints]
  dsimp only
  cases Safire.checkRecordHash env hashes (state.acceptedRecordHashes.contains record.hash) record with
  | error reason => rfl
  | ok hashed =>
      have signature : checkRecordSignature env (ofRecord record).plain =
          checkRecordSignature env record := rfl
      rw [signature]
      cases checkRecordSignature env record with
      | error reason => rfl
      | ok signed =>
          exact connectTyped_ofRecord block isGenesis
            { state with
              acceptedRecordHashes := state.acceptedRecordHashes.insert record.hash } record

theorem recordStep_ofRecord (block : Block) (isGenesis : Bool)
    (progress : ChainValidator.BranchState × TextSet) (record : Record) :
    recordStep env doubles (ofBlock block) isGenesis (ofState progress.1, progress.2)
        (ofRecord record) =
      (ChainValidator.recordStep env block isGenesis progress record).map
        (fun progress => (ofState progress.1, progress.2)) := by
  unfold recordStep ChainValidator.recordStep
  rw [connectRecord_ofRecord prints]
  cases ChainValidator.connectRecord env block isGenesis progress.1 progress.2 record with
  | error reason => rfl
  | ok next => rfl

theorem connectRecords_ofBlock (block : Block) (isGenesis : Bool)
    (state : ChainValidator.BranchState) (records : List Record) :
    connectRecords env doubles (ofBlock block) isGenesis (ofState state) (records.map ofRecord) =
      (ChainValidator.connectRecords env block isGenesis state records).map ofState := by
  have run := Loop.run_map (recordStep_ofRecord prints block isGenesis) records (state, ∅)
  unfold connectRecords ChainValidator.connectRecords
  rw [run]
  cases records.foldlM (ChainValidator.recordStep env block isGenesis) (state, ∅) with
  | error reason => rfl
  | ok progress => rfl

theorem connectBlock_ofBlock (before : List Block) (state : ChainValidator.BranchState)
    (block : Block) :
    connectBlock env doubles (before.map ofBlock) (ofState state) (ofBlock block) =
      (ChainValidator.connectBlock env before state block).map ofState := by
  unfold connectBlock ChainValidator.connectBlock checkHeader ChainValidator.checkHeader
  rw [checkEnvelope_ofBlock prints, checkLink_plain]
  cases Safire.checkEnvelope env block with
  | error reason => rfl
  | ok enveloped =>
      cases checkLink env before state block with
      | error reason => rfl
      | ok linked =>
          have genesis : (before.map ofBlock).isEmpty = before.isEmpty := by simp
          have connected := connectRecords_ofBlock prints block before.isEmpty state block.records
          dsimp only [bind, Except.bind] at connected ⊢
          rw [genesis, connected]
          cases ChainValidator.connectRecords env block before.isEmpty state block.records with
          | error reason => rfl
          | ok next => rfl

theorem connectChain_ofBlock (chain : List Block) :
    connectChain env doubles (chain.map ofBlock) =
      (ChainValidator.connectChain env chain).map ofState := by
  have steps : ∀ (progress : List Block × ChainValidator.BranchState) (block : Block),
      blockStep env doubles (progress.1.map ofBlock, ofState progress.2) (ofBlock block) =
        (ChainValidator.blockStep env progress block).map
          (fun progress => (progress.1.map ofBlock, ofState progress.2)) := by
    intro progress block
    unfold blockStep ChainValidator.blockStep
    rw [connectBlock_ofBlock prints]
    cases ChainValidator.connectBlock env progress.1 progress.2 block with
    | error reason => rfl
    | ok next => simp [bind, Except.bind, pure, Except.pure, Except.map]
  have run := Loop.run_map steps chain ([], .initial)
  rw [ofState_initial] at run
  unfold connectChain ChainValidator.connectChain
  rw [List.map_nil] at run
  rw [run]
  cases chain.foldlM (ChainValidator.blockStep env) ([], .initial) with
  | error reason => rfl
  | ok progress => rfl

/-- On rational amounts both validators accept the same chains. -/
theorem accepts_ofBlock_iff (chain : List Block) :
    Accepts env doubles (chain.map ofBlock) ↔ ChainValidator.Accepts env chain := by
  unfold Accepts ChainValidator.Accepts validateConnectedChain
    ChainValidator.validateConnectedChain
  rw [connectChain_ofBlock prints, List.length_map]
  split
  · rfl
  · cases ChainValidator.connectChain env chain with
    | error reason => simp [Except.map]
    | ok state => simp [Except.map]

end Printed

end Rational

end Doubles

end Safire
