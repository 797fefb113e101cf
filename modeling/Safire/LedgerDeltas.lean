/-
Balances of the ledger as sums over the records of a chain. Every record moves
the balance of a key by an amount of its own, and the rewards come on top.
-/

import Safire.LedgerCoverage

namespace Safire.LedgerState

open ChainValidator Text

variable {env : Env} {db : LevelDb} {chain : List Block}

/-- What `applyRecordToBalances` adds to the balance of a key. -/
def amountDelta (block : Block) (record : Record) (key : Text) : Rat :=
  match record.transactionType with
  | .issueCurrency => if record.recipientPublicKey = key then issueAmount record else 0
  | .transferCurrency =>
      (if record.recipientPublicKey = key then record.amount else 0) +
        (if record.senderPublicKey = key then -record.amount - record.fee else 0) +
        (if block.creatorKey = key then record.fee else 0)
  | .vote =>
      (if record.senderPublicKey = key then -record.fee else 0) +
        (if block.creatorKey = key then record.fee else 0)
  | _ => 0

def deltaSum (key : Text) (entries : List Entry) : Rat :=
  (entries.map (fun entry => amountDelta entry.1 entry.2 key)).sum

theorem sum_eq_zero_iff_of_nonneg {amounts : List Rat} (nonneg : ∀ amount ∈ amounts, 0 ≤ amount) :
    amounts.sum = 0 ↔ ∀ amount ∈ amounts, amount = 0 := by
  constructor
  · intro zero amount member
    exact List.all_zero_of_le_zero_le_of_sum_eq_zero nonneg zero member
  · exact List.sum_eq_zero

theorem deltaSum_append (key : Text) (earlier later : List Entry) :
    deltaSum key (earlier ++ later) = deltaSum key earlier + deltaSum key later := by
  rw [deltaSum, List.map_append, List.sum_append]
  rfl

theorem deltaSum_snoc (key : Text) (entries : List Entry) (entry : Entry) :
    deltaSum key (entries ++ [entry]) = deltaSum key entries + amountDelta entry.1 entry.2 key := by
  simp [deltaSum]

theorem getD_applyRecordToBalances {key : Text} (present : key ≠ []) (block : Block)
    (record : Record) (balances : TextMap Rat) :
    (applyRecordToBalances block record balances).getD key 0 =
      balances.getD key 0 + amountDelta block record key := by
  unfold applyRecordToBalances amountDelta
  cases record.transactionType with
  | issueCurrency => exact getD_addBalanceDelta present _ _ _
  | transferCurrency =>
      simp only [getD_addBalanceDelta present]
      ring
  | vote =>
      simp only [getD_addBalanceDelta present]
      ring
  | joinNetwork | carryForward | heartBeat | updateName | periodSummary => exact (add_zero _).symm

theorem amountDelta_of_carryForward {block : Block} {record : Record}
    (kind : record.transactionType = .carryForward) (key : Text) :
    amountDelta block record key = 0 := by
  unfold amountDelta
  rw [kind]

/-! ### Balances at a checkpoint -/

theorem distinct_of_connected {state : BranchState} (connected : connectChain env chain = .ok state) :
    (recordHashes (chainEntries chain)).Nodup := by
  have distinct : HashesDistinct (chainEntries chain) state :=
    holds_after_blocks hashesDistinct_initial (hashesDistinct_step chain)
      (fun _ _ _ held => ⟨held.members, held.nodup⟩) (List.append_nil chain).symm connected
  exact distinct.nodup

/-- Every kind of record that a chain accepts is signed by a sender. -/
theorem signed_of_connected {block : Block} {isGenesis : Bool} {state next : BranchState}
    {record : Record} (connected : Connected env block isGenesis state record next) :
    record.senderPublicKey ≠ [] := by
  apply fun required => (connected.signed required).1
  cases connected.applied with
  | issue kind | transfer kind | vote kind | join kind | joinNamed kind | rename kind
  | heartBeat kind | strayHeartBeat kind | carryForward kind | carryForwardAgain kind =>
      simp [recordRequiresSenderSignature, kind]

/-! ### Balances of `build` -/

/-- What one accepted record does to the balance of a key in the ledger. -/
theorem recordRound_balance {snapshotMatches : Record → Bool} {wallet : Text} {done : List Entry}
    {progress : Progress} {state next : BranchState} {block : Block} {record : Record}
    {isGenesis : Bool} (related : AmountsRelated snapshotMatches done progress state)
    (connected : Connected env block isGenesis state record next) {key : Text}
    (present : key ≠ []) :
    (recordRound snapshotMatches wallet block progress record).result.balances.getD key 0 =
      progress.result.balances.getD key 0 + amountDelta block record key +
        if Opens snapshotMatches done record ∧ record.senderPublicKey = key then carryForwardReward
        else 0 := by
  obtain ⟨-, hashed, unseen, signed, applied⟩ := connected
  rw [recordRound_of_new _ _ hashed (related.hashes ▸ unseen), applyRecord, applyAmounts]
  dsimp only
  rw [getD_applyRecordToBalances present]
  have marked := related.marked record
  have same : (progress.markHash record).result.balances = progress.result.balances := rfl
  by_cases kind : record.transactionType = .carryForward
  · have sender := (signed (by simp [recordRequiresSenderSignature, kind])).1
    have basic : carryForwardKey record ≠ [] →
        isBasicCarryForwardRecord record block.number = true := by
      cases applied with
      | carryForward _ wellFormed => exact isBasicCarryForwardRecord_of_key kind sender wellFormed
      | carryForwardAgain _ wellFormed =>
          exact isBasicCarryForwardRecord_of_key kind sender wellFormed
      | issue other | transfer other | vote other | join other | joinNamed other | rename other
      | heartBeat other | strayHeartBeat other =>
          rw [other] at kind
          cases kind
    rw [applyMembership_reward wallet marked kind basic, amountDelta_of_carryForward kind]
    by_cases opens : Opens snapshotMatches done record
    · rw [if_pos opens, applyCarryForward_of_opens marked opens]
      dsimp only
      rw [getD_addBalanceDelta present, same]
      simp [opens]
    · rw [if_neg opens, if_neg (fun credited => opens credited.1), same]
      ring
  · obtain ⟨-, -, sameBalances, -, -⟩ :=
      @applyMembership_amounts snapshotMatches wallet (progress.markHash record) block record kind
    rw [sameBalances, if_neg (fun credited => not_opens_of_kind kind credited.1), same]
    ring

/-- The balance of the ledger is the sum of the amounts and of the rewards that it paid. -/
def BalancesSummed (snapshotMatches : Record → Bool) (done : List Entry) (progress : Progress) :
    Prop :=
  ∀ key, key ≠ [] → progress.result.balances.getD key 0 =
    deltaSum key done + carryForwardReward * openedBy snapshotMatches key done

theorem balancesSummed_step (creators : ∀ block ∈ chain, block.creatorKey ≠ [])
    (snapshotMatches : Record → Bool) (wallet : Text) (first latest : Int) :
    PreservedByRecords env chain (fun done state =>
      AmountsRelated snapshotMatches done
          (walkEntries snapshotMatches wallet (.start first latest) done) state ∧
        BalancesSummed snapshotMatches done
          (walkEntries snapshotMatches wallet (.start first latest) done)) := by
  intro before block after earlier record later state seen next place split held connected
  constructor
  · exact amountsRelated_step creators snapshotMatches wallet first latest before block after
      earlier record later state seen next place split held.1 connected
  · intro key present
    rw [walkEntries_snoc]
    have moved := @recordRound_balance env snapshotMatches wallet _ _ state next block record _
      held.1 (connected_of_ok connected) key present
    rw [moved, held.2 key present, deltaSum_snoc, openedBy_snoc]
    split
    · push_cast
      ring
    · push_cast
      ring

theorem balancesSummed_of_connected {state : BranchState}
    (connected : connectChain env chain = .ok state) (snapshotMatches : Record → Bool)
    (wallet : Text) (first latest : Int) :
    BalancesSummed snapshotMatches (chainEntries chain)
      (walkEntries snapshotMatches wallet (.start first latest) (chainEntries chain)) := by
  have initially : BalancesSummed snapshotMatches []
      (walkEntries snapshotMatches wallet (.start first latest) []) := by
    intro key _
    simp [walkEntries, Progress.start, State.start, deltaSum, openedBy, selectedCarryForwards,
      openers]
  have held := holds_after_blocks
    (⟨amountsRelated_start snapshotMatches first latest, initially⟩ :
      AmountsRelated snapshotMatches []
          (walkEntries snapshotMatches wallet (.start first latest) []) .initial ∧ _)
    (balancesSummed_step (creators_of_connected connected) snapshotMatches wallet first latest)
    (fun _ _ _ held =>
      ⟨⟨held.1.hashes, held.1.branchKeys, held.1.ledgerKeys, held.1.balances, held.1.emptyKey,
        held.1.nonces⟩, held.2⟩)
    (List.append_nil chain).symm connected
  exact held.2

end Safire.LedgerState
