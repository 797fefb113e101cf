/-
The balance of one account at a checkpoint, as the carry-forward code adds it up.

The node has this fold in two copies, and the ledger has a third one. The copies
pay carry-forward rewards, whatever snapshot the record claims, and do not take
from an account what it transfers to itself. The ledger's fold does neither.
-/

import Safire.LedgerDeltas

namespace Safire.CarryForward

open ChainValidator LedgerState Text

variable {env : Env} {db : LevelDb} {chain : List Block}

/-! ### The fold -/

/-- One round of the record loop: the balance and the accepted keys. -/
def accountRound (accountPublicKey : Text) (block : Block) (progress : Rat × TextSet)
    (record : Record) : Rat × TextSet :=
  let (balance, acceptedCarryForwardKeys) := progress
  if record.transactionType = .issueCurrency ∧ record.recipientPublicKey = accountPublicKey then
    (balance + record.amount, acceptedCarryForwardKeys)
  else if record.transactionType = .transferCurrency then
    let received :=
      if record.recipientPublicKey = accountPublicKey then balance + record.amount else balance
    let sent :=
      if record.senderPublicKey = accountPublicKey ∧ record.recipientPublicKey ≠ accountPublicKey then
        received - record.amount - record.fee
      else received
    (if block.creatorKey = accountPublicKey then sent + record.fee else sent,
      acceptedCarryForwardKeys)
  else if record.transactionType = .vote then
    let sent := if record.senderPublicKey = accountPublicKey then balance - record.fee else balance
    (if block.creatorKey = accountPublicKey then sent + record.fee else sent,
      acceptedCarryForwardKeys)
  else if isBasicCarryForwardRecord record block.number then
    let key := carryForwardKey record
    if 0 < key.length ∧ key ∉ acceptedCarryForwardKeys then
      (if record.senderPublicKey = accountPublicKey then balance + carryForwardReward else balance,
        acceptedCarryForwardKeys.insert key)
    else (balance, acceptedCarryForwardKeys)
  else (balance, acceptedCarryForwardKeys)

def foldAccount (accountPublicKey : Text) (blocks : List Block) : Rat :=
  (blocks.foldl (fun progress block =>
    block.records.foldl (accountRound accountPublicKey block) progress) (0, ∅)).1

/-- The body of both copies. -/
def accountBalance (env : Env) (db : LevelDb) (accountPublicKey : Text) (checkpointBlock : Int) :
    Rat :=
  let firstBlockId := getFirstBlockId db
  let latestBlockId := getLatestBlockId db
  if accountPublicKey.length = 0 ∨ firstBlockId < 0 ∨ latestBlockId < 0 then 0
  else
    foldAccount accountPublicKey
      (walk env db (fun number => checkpointBlock < number) (fun number => number = latestBlockId)
        walkGuard (getBlock env db firstBlockId))

/-- The copy in `carryforward.cpp`. -/
def accountBalanceAtBlock (env : Env) (db : LevelDb) (accountPublicKey : Text)
    (checkpointBlock : Int) : Rat :=
  accountBalance env db accountPublicKey checkpointBlock

/-- What a transfer of the account to itself takes in the ledger, and not in the copies. -/
def selfTransfer (key : Text) (record : Record) : Rat :=
  if record.transactionType = .transferCurrency ∧ record.senderPublicKey = key ∧
      record.recipientPublicKey = key then record.amount + record.fee
  else 0

def selfTransferred (key : Text) (entries : List Entry) : Rat :=
  (entries.map (fun entry => selfTransfer key entry.2)).sum

theorem selfTransferred_snoc (key : Text) (entries : List Entry) (entry : Entry) :
    selfTransferred key (entries ++ [entry]) =
      selfTransferred key entries + selfTransfer key entry.2 := by
  simp [selfTransferred]

/-- The difference to the ledger. -/
def accountExcess (key : Text) (entries : List Entry) : Rat :=
  selfTransferred key entries + carryForwardReward * openedBy anyRecord key entries

/-- The fold agrees with the sums over the records before. -/
structure AccountSummed (key : Text) (done : List Entry) (progress : Rat × TextSet) : Prop where
  keys : ∀ other, other ∈ progress.2 ↔ other ∈ selectedKeys anyRecord done
  balance : progress.1 = deltaSum key done + accountExcess key done

section Step

variable {key : Text} {done : List Entry} {progress : Rat × TextSet} {block : Block}
variable {record : Record}

/-- A record that is no carry-forward leaves the keys. -/
theorem AccountSummed.moved (summed : AccountSummed key done progress)
    (other : record.transactionType ≠ .carryForward)
    (round : accountRound key block progress record =
      (progress.1 + amountDelta block record key + selfTransfer key record, progress.2)) :
    AccountSummed key (done ++ [(block, record)]) (accountRound key block progress record) := by
  have closed : ¬ Opens anyRecord done record := not_opens_of_kind other
  rw [round]
  constructor
  · intro seen
    rw [selectedKeys_snoc, summed.keys]
    simp [closed]
  · rw [accountExcess, deltaSum_snoc, selfTransferred_snoc, openedBy_snoc,
      if_neg (fun credited => closed credited.1), summed.balance, accountExcess]
    push_cast
    ring

/-- A carry-forward record is paid once for each key. -/
theorem AccountSummed.carried (summed : AccountSummed key done progress)
    (kind : record.transactionType = .carryForward)
    (basic : carryForwardKey record ≠ [] → isBasicCarryForwardRecord record block.number = true) :
    AccountSummed key (done ++ [(block, record)]) (accountRound key block progress record) := by
  have still : amountDelta block record key + selfTransfer key record = 0 := by
    simp [amountDelta_of_carryForward kind, selfTransfer, kind]
  have sum : deltaSum key (done ++ [(block, record)]) +
      accountExcess key (done ++ [(block, record)]) = progress.1 +
        if Opens anyRecord done record ∧ record.senderPublicKey = key then carryForwardReward
        else 0 := by
    rw [accountExcess, deltaSum_snoc, selfTransferred_snoc, openedBy_snoc, summed.balance,
      accountExcess]
    split
    · push_cast
      linarith
    · push_cast
      linarith
  by_cases opens : Opens anyRecord done record
  · have unseen : carryForwardKey record ∉ progress.2 :=
      fun seen => opens.2.2.2 ((summed.keys _).mp seen)
    have round : accountRound key block progress record =
        (if record.senderPublicKey = key then progress.1 + carryForwardReward else progress.1,
          progress.2.insert (carryForwardKey record)) := by
      simp [accountRound, kind, basic opens.2.1, List.length_pos_of_ne_nil opens.2.1, unseen]
    rw [round]
    constructor
    · intro other
      rw [selectedKeys_snoc, Std.ExtTreeSet.mem_insert, summed.keys,
        Std.LawfulEqCmp.compare_eq_iff_eq]
      simp [opens, or_comm]
    · rw [sum]
      by_cases sent : record.senderPublicKey = key
      · simp [opens, sent]
      · simp [sent]
  · have idle : ¬ (0 < (carryForwardKey record).length ∧ carryForwardKey record ∉ progress.2) := by
      intro new
      exact opens ⟨kind, List.ne_nil_of_length_pos new.1, rfl,
        fun seen => new.2 ((summed.keys _).mpr seen)⟩
    have round : accountRound key block progress record = progress := by
      unfold accountRound
      simp only [kind, reduceCtorEq, false_and, if_false, if_neg idle, ite_self]
    rw [round]
    constructor
    · intro other
      rw [selectedKeys_snoc, summed.keys]
      simp [opens]
    · rw [sum, if_neg (fun credited => opens credited.1), add_zero]

/-- What one accepted record does to the account. -/
theorem AccountSummed.round {isGenesis : Bool} {state next : BranchState}
    (summed : AccountSummed key done progress)
    (connected : Connected env block isGenesis state record next) :
    AccountSummed key (done ++ [(block, record)]) (accountRound key block progress record) := by
  obtain ⟨-, -, -, signed, applied⟩ := connected
  cases applied with
  | issue kind lower upper =>
      apply summed.moved (by simp [kind])
      have clamped : issueAmount record = record.amount := if_neg (by simp [lower, upper])
      by_cases received : record.recipientPublicKey = key
      · simp [accountRound, amountDelta, selfTransfer, kind, received, clamped]
      · simp [accountRound, amountDelta, selfTransfer, isBasicCarryForwardRecord, kind, received]
  | transfer kind =>
      apply summed.moved (by simp [kind])
      -- what the record adds depends on which of the three parties the account is
      by_cases received : record.recipientPublicKey = key
      · by_cases sent : record.senderPublicKey = key
        · by_cases created : block.creatorKey = key <;>
            simp [accountRound, amountDelta, selfTransfer, kind, received, sent, created] <;> ring
        · by_cases created : block.creatorKey = key <;>
            simp [accountRound, amountDelta, selfTransfer, kind, received, sent, created]
          ring
      · by_cases sent : record.senderPublicKey = key
        · by_cases created : block.creatorKey = key <;>
            simp [accountRound, amountDelta, selfTransfer, kind, received, sent, created] <;> ring
        · by_cases created : block.creatorKey = key <;>
            simp [accountRound, amountDelta, selfTransfer, kind, received, sent, created]
  | vote kind =>
      apply summed.moved (by simp [kind])
      by_cases sent : record.senderPublicKey = key
      · by_cases created : block.creatorKey = key <;>
          simp [accountRound, amountDelta, selfTransfer, kind, sent, created]
        ring
      · by_cases created : block.creatorKey = key <;>
          simp [accountRound, amountDelta, selfTransfer, kind, sent, created]
  | join kind | joinNamed kind | rename kind | heartBeat kind | strayHeartBeat kind =>
      apply summed.moved (by simp [kind])
      simp [accountRound, amountDelta, selfTransfer, isBasicCarryForwardRecord, kind]
  | carryForward kind wellFormed | carryForwardAgain kind wellFormed =>
      have sender := (signed (by simp [recordRequiresSenderSignature, kind])).1
      apply summed.carried kind
      intro keyed
      exact isBasicCarryForwardRecord_of_key kind sender wellFormed keyed

end Step

end Safire.CarryForward
