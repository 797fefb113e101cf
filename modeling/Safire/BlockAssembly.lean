/-
The records that the block builder takes from the queue.

The builder goes through the queue once. It keeps a balance and a nonce for each
account, starting from the ledger at the tip with the reward of the new block,
and drops a transfer whose nonce does not follow the last one it took or whose
sender cannot pay. Records of the other types pass unread.
-/

import Safire.BranchBalances
import Safire.LedgerState

namespace Safire.BlockBuilder

open Text ChainValidator LedgerState

/-- The balances and nonces that the builder keeps while it reads the queue. -/
structure PendingState where
  balances : TextMap Rat
  nonces : TextMap Int

def includePendingTransfer (record : Record) (pending : PendingState) : Bool × PendingState :=
  if record.transactionType ≠ .transferCurrency then (true, pending)
  else if record.nonce ≤ 0 then (false, pending)
  else
    let expectedNonce := pending.nonces.getD record.senderPublicKey 0 + 1
    if record.nonce ≠ expectedNonce then (false, pending)
    else
      let debit := transferDebit record
      if pending.balances.getD record.senderPublicKey 0 + balanceTolerance < debit then
        (false, pending)
      else
        (true,
          { balances :=
              credit (credit pending.balances record.recipientPublicKey record.amount)
                record.senderPublicKey (-(record.amount + record.fee))
            nonces := pending.nonces.insert record.senderPublicKey record.nonce })

/-- The reward of the block, with the signature that `SignMessage` returns for its hash. -/
def blockRewardRecord (env : Env) (sign : Text → Text) (networkName : Text) (epoch : Int)
    (publicKey : Text) : Record :=
  let unsigned : Record :=
    { network := networkName
      time := ofLong epoch
      transactionType := .issueCurrency
      nonce := 0
      amount := 1
      fee := 0
      senderPublicKey := publicKey
      recipientPublicKey := publicKey
      hash := []
      signature := []
      name := []
      value := [] }
  let hash := getRecordHash env unsigned
  { unsigned with hash := hash, signature := sign hash }

/-- The records of the block under construction beside the account state. -/
structure Assembly where
  pending : PendingState
  records : List Record
  includedRecordHashes : TextSet

/-- The block starts with the reward, which its creator may spend at once. -/
def Assembly.start (pendingState : State) (publicKey : Text) (reward : Record) : Assembly where
  pending :=
    { balances := credit pendingState.balances publicKey reward.amount
      nonces := pendingState.nonces }
  records := [reward]
  includedRecordHashes := if 0 < reward.hash.length then (∅ : TextSet).insert reward.hash else ∅

theorem Assembly.start_nonces (pendingState : State) (publicKey : Text) (reward : Record) :
    (Assembly.start pendingState publicKey reward).pending.nonces = pendingState.nonces := rfl

def includeRound (assembly : Assembly) (queuedRecord : Record) : Assembly :=
  let (included, pending) := includePendingTransfer queuedRecord assembly.pending
  if included = false then { assembly with pending := pending }
  else if queuedRecord.hash.length = 0 ∨ queuedRecord.hash ∉ assembly.includedRecordHashes then
    { pending := pending
      records := assembly.records ++ [queuedRecord]
      includedRecordHashes :=
        if 0 < queuedRecord.hash.length then
          assembly.includedRecordHashes.insert queuedRecord.hash
        else assembly.includedRecordHashes }
  else { assembly with pending := pending }

/-- The loop over the records that `parseQueueRecords` returned. -/
def includeQueue (assembly : Assembly) (records : List Record) : Assembly :=
  records.foldl includeRound assembly

theorem includeQueue_cons (assembly : Assembly) (record : Record) (rest : List Record) :
    includeQueue assembly (record :: rest) = includeQueue (includeRound assembly record) rest := rfl

/-- Whether a record reaches the block or not, its effect on the accounts is kept. -/
theorem includeRound_pending (assembly : Assembly) (record : Record) :
    (includeRound assembly record).pending =
      (includePendingTransfer record assembly.pending).2 := by
  unfold includeRound
  dsimp only
  split
  · rfl
  · split <;> rfl

/-- The account can pay for the transfer, within the tolerance of the check. -/
def Affords (pending : PendingState) (record : Record) : Prop :=
  transferDebit record ≤ pending.balances.getD record.senderPublicKey 0 + balanceTolerance

instance (pending : PendingState) (record : Record) : Decidable (Affords pending record) :=
  inferInstanceAs (Decidable (_ ≤ _))

/-- A transfer is taken in its turn: its nonce follows and its sender can pay. -/
def Taken (pending : PendingState) (record : Record) : Prop :=
  record.transactionType = .transferCurrency ∧ 0 < record.nonce ∧
    record.nonce = pending.nonces.getD record.senderPublicKey 0 + 1 ∧ Affords pending record

instance (pending : PendingState) (record : Record) : Decidable (Taken pending record) :=
  inferInstanceAs (Decidable (_ ∧ _))

def PendingState.take (pending : PendingState) (record : Record) : PendingState where
  balances :=
    credit (credit pending.balances record.recipientPublicKey record.amount)
      record.senderPublicKey (-(record.amount + record.fee))
  nonces := pending.nonces.insert record.senderPublicKey record.nonce

/-- A transfer that is taken moves its amount, and every other record leaves the accounts. -/
theorem includePendingTransfer_eq (record : Record) (pending : PendingState) :
    includePendingTransfer record pending =
      (decide (record.transactionType ≠ .transferCurrency ∨ Taken pending record),
        if Taken pending record then pending.take record else pending) := by
  unfold includePendingTransfer
  dsimp only
  by_cases transfers : record.transactionType = .transferCurrency
  · rw [if_neg (not_not_intro transfers)]
    by_cases nonpositive : record.nonce ≤ 0
    · have missed : ¬ Taken pending record := fun taken => absurd taken.2.1 (not_lt.mpr nonpositive)
      rw [if_pos nonpositive, if_neg missed]
      simp [transfers, missed]
    · rw [if_neg nonpositive]
      by_cases follows : record.nonce = pending.nonces.getD record.senderPublicKey 0 + 1
      · rw [if_neg (not_not_intro follows)]
        by_cases affords : Affords pending record
        · have taken : Taken pending record :=
            ⟨transfers, not_le.mp nonpositive, follows, affords⟩
          rw [if_neg (not_lt.mpr affords), if_pos taken]
          simp [taken, PendingState.take]
        · have missed : ¬ Taken pending record := fun taken => affords taken.2.2.2
          rw [if_pos (not_le.mp affords), if_neg missed]
          simp [transfers, missed]
      · have missed : ¬ Taken pending record := fun taken => follows taken.2.2.1
        rw [if_pos follows, if_neg missed]
        simp [transfers, missed]
  · have missed : ¬ Taken pending record := fun taken => transfers taken.1
    rw [if_pos transfers, if_neg missed]
    simp [transfers]

theorem includeRound_accounts (assembly : Assembly) (record : Record) :
    (includeRound assembly record).pending =
      if Taken assembly.pending record then assembly.pending.take record
      else assembly.pending := by
  rw [includeRound_pending, includePendingTransfer_eq]

theorem PendingState.take_nonce (pending : PendingState) (record : Record) (key : Text) :
    (pending.take record).nonces.getD key 0 =
      if record.senderPublicKey = key then record.nonce else pending.nonces.getD key 0 := by
  rw [PendingState.take, Std.ExtTreeMap.getD_insert]
  simp only [Std.LawfulEqCmp.compare_eq_iff_eq]

theorem PendingState.take_balance (pending : PendingState) (record : Record) (key : Text) :
    (pending.take record).balances.getD key 0 = pending.balances.getD key 0 +
      (if record.recipientPublicKey = key then record.amount else 0) -
      (if record.senderPublicKey = key then record.amount + record.fee else 0) := by
  rw [PendingState.take, getD_credit, getD_credit]
  by_cases pays : record.senderPublicKey = key
  · rw [if_pos pays, if_pos pays, sub_eq_add_neg]
  · rw [if_neg pays, if_neg pays, add_zero, sub_zero]

end Safire.BlockBuilder
