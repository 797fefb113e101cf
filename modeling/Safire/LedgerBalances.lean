/-
The balances and nonces of the ledger beside those of the branch validator.

The two folds differ in three places. The ledger keeps no balance for the empty
key, it rewards a carry-forward record only when the recorded amount matches the
balance at the checkpoint, and it raises the nonce of a sender on every
transfer, also in blocks without a Merkle root. The exact condition for
agreement over a whole chain follows from these three.
-/

import Safire.LedgerMembers
import Safire.BranchBalances
import Safire.BranchNonces

namespace Safire.LedgerState

open ChainValidator

variable {env : Env} {db : LevelDb} {chain : List Block}

/-! ### Carry-forward rewards by sender -/

local instance openerKey_lawfulBEq : LawfulBEq Text := inferInstance

/-- The first record of each key, in order. -/
def openers (records : List Record) : List Record :=
  records.foldl
    (fun kept record =>
      if carryForwardKey record ∈ kept.map carryForwardKey then kept else kept ++ [record]) []

/-- The carry-forward records with a key that a test selects. -/
def selectedCarryForwards (selected : Record → Bool) (entries : List Entry) : List Record :=
  (entries.map Prod.snd).filter (fun record =>
    decide (record.transactionType = .carryForward ∧ carryForwardKey record ≠ []) &&
      selected record)

/-- How many keys a sender opens with the selected records. -/
def openedBy (selected : Record → Bool) (sender : Text) (entries : List Entry) : Nat :=
  (openers (selectedCarryForwards selected entries)).countP
    (fun record => record.senderPublicKey = sender)

theorem openers_snoc (records : List Record) (record : Record) :
    openers (records ++ [record]) =
      if carryForwardKey record ∈ (openers records).map carryForwardKey then openers records
      else openers records ++ [record] := by
  rw [openers, List.foldl_append]
  rfl

theorem openers_keys (records : List Record) (key : Text) :
    key ∈ (openers records).map carryForwardKey ↔ key ∈ records.map carryForwardKey := by
  induction records using List.reverseRecOn with
  | nil => rfl
  | append_singleton records record ih =>
      rw [openers_snoc, List.map_append, List.mem_append, ← ih]
      split
      · rename_i known
        simp only [List.map_singleton, List.mem_singleton]
        constructor
        · exact .inl
        · rintro (old | rfl)
          · exact old
          · exact known
      · rw [List.map_append, List.mem_append]

theorem selectedCarryForwards_snoc (selected : Record → Bool) (entries : List Entry)
    (entry : Entry) :
    selectedCarryForwards selected (entries ++ [entry]) =
      selectedCarryForwards selected entries ++
        if entry.2.transactionType = .carryForward ∧ carryForwardKey entry.2 ≠ [] ∧
          selected entry.2 = true then [entry.2] else [] := by
  rw [selectedCarryForwards, List.map_append, List.filter_append]
  congr 1
  by_cases picked : entry.2.transactionType = .carryForward ∧ carryForwardKey entry.2 ≠ [] ∧
      selected entry.2 = true
  · rw [if_pos picked]
    simp [picked.1, picked.2.1, picked.2.2]
  · rw [if_neg picked]
    refine List.filter_eq_nil_iff.mpr ?_
    intro record member
    rw [List.map_singleton, List.mem_singleton] at member
    subst member
    simpa [and_assoc] using picked

def selectedKeys (selected : Record → Bool) (entries : List Entry) : List Text :=
  (selectedCarryForwards selected entries).map carryForwardKey

/-- A record opens its key when it is selected and no selected record before it has the key. -/
def Opens (selected : Record → Bool) (entries : List Entry) (record : Record) : Prop :=
  record.transactionType = .carryForward ∧ carryForwardKey record ≠ [] ∧
    selected record = true ∧ carryForwardKey record ∉ selectedKeys selected entries

instance (selected : Record → Bool) (entries : List Entry) (record : Record) :
    Decidable (Opens selected entries record) :=
  inferInstanceAs (Decidable (_ ∧ _))

theorem openedBy_snoc (selected : Record → Bool) (sender : Text) (entries : List Entry)
    (entry : Entry) :
    openedBy selected sender (entries ++ [entry]) = openedBy selected sender entries +
      if Opens selected entries entry.2 ∧ entry.2.senderPublicKey = sender then 1 else 0 := by
  rw [openedBy, selectedCarryForwards_snoc]
  by_cases picked : entry.2.transactionType = .carryForward ∧ carryForwardKey entry.2 ≠ [] ∧
      selected entry.2 = true
  · rw [if_pos picked, openers_snoc]
    by_cases known : carryForwardKey entry.2 ∈ selectedKeys selected entries
    · rw [if_pos ((openers_keys _ _).mpr known), if_neg (fun opens => opens.1.2.2.2 known)]
      rfl
    · rw [if_neg (fun old => known ((openers_keys _ _).mp old)), List.countP_append]
      simp [openedBy, Opens, picked, known]
  · rw [if_neg picked, List.append_nil, if_neg]
    · rfl
    · exact fun opens => picked ⟨opens.1.1, opens.1.2.1, opens.1.2.2.1⟩

theorem selectedKeys_snoc {selected : Record → Bool} {entries : List Entry} {entry : Entry}
    {key : Text} :
    key ∈ selectedKeys selected (entries ++ [entry]) ↔
      key ∈ selectedKeys selected entries ∨
        Opens selected entries entry.2 ∧ carryForwardKey entry.2 = key := by
  rw [selectedKeys, selectedCarryForwards_snoc, List.map_append, List.mem_append]
  change key ∈ selectedKeys selected entries ∨ _ ↔ _
  by_cases known : key ∈ selectedKeys selected entries
  · simp [known]
  · simp only [known, false_or]
    split
    · rename_i picked
      simp only [List.map_singleton, List.mem_singleton, Opens, picked]
      constructor
      · rintro rfl
        exact ⟨⟨trivial, picked.2.1, trivial, known⟩, rfl⟩
      · rintro ⟨-, rfl⟩
        rfl
    · rename_i other
      simp only [List.map_nil, List.not_mem_nil, false_iff, not_and]
      exact fun opens => absurd ⟨opens.1, opens.2.1, opens.2.2.1⟩ other

/-! ### The relation between the two folds -/

/-- What the validator credits to the empty key. -/
def lostAmount (entries : List Entry) : Rat :=
  (entries.map (fun entry =>
    if entry.2.transactionType = .transferCurrency ∧ entry.2.recipientPublicKey = [] then
      entry.2.amount
    else 0)).sum

/-- The ledger's nonce of a sender is the largest nonce of its transfers, or zero. -/
structure NoncesRaised (done : List Entry) (nonces : TextMap Int) : Prop where
  raised : ∀ entry ∈ done, entry.2.transactionType = .transferCurrency →
    entry.2.nonce ≤ nonces.getD entry.2.senderPublicKey 0
  reached : ∀ key, nonces.getD key 0 = 0 ∨ ∃ entry ∈ done,
    entry.2.transactionType = .transferCurrency ∧ entry.2.senderPublicKey = key ∧
      entry.2.nonce = nonces.getD key 0
  nonnegative : ∀ key, 0 ≤ nonces.getD key 0

theorem NoncesRaised.other {done : List Entry} {nonces : TextMap Int}
    (held : NoncesRaised done nonces) {entry : Entry}
    (kind : entry.2.transactionType ≠ .transferCurrency) :
    NoncesRaised (done ++ [entry]) nonces where
  raised := by
    intro old member transfers
    rcases List.mem_append.mp member with early | last
    · exact held.raised old early transfers
    · rw [List.mem_singleton.mp last] at transfers
      exact absurd transfers kind
  reached := by
    intro key
    rcases held.reached key with zero | ⟨old, member, facts⟩
    · exact .inl zero
    · exact .inr ⟨old, List.mem_append_left _ member, facts⟩
  nonnegative := held.nonnegative

theorem NoncesRaised.transfer {done : List Entry} {nonces : TextMap Int}
    (held : NoncesRaised done nonces) {entry : Entry}
    (kind : entry.2.transactionType = .transferCurrency) :
    NoncesRaised (done ++ [entry]) (raiseNonce nonces entry.2) := by
  have own : (raiseNonce nonces entry.2).getD entry.2.senderPublicKey 0 =
      max entry.2.nonce (nonces.getD entry.2.senderPublicKey 0) := by
    rw [raiseNonce, Std.ExtTreeMap.getD_insert_self]
  have others : ∀ key, key ≠ entry.2.senderPublicKey →
      (raiseNonce nonces entry.2).getD key 0 = nonces.getD key 0 := by
    intro key different
    rw [raiseNonce, Std.ExtTreeMap.getD_insert, if_neg (by simpa using Ne.symm different)]
  refine ⟨?_, ?_, ?_⟩
  · intro old member transfers
    by_cases sender : old.2.senderPublicKey = entry.2.senderPublicKey
    · rw [sender, own]
      rcases List.mem_append.mp member with early | last
      · exact le_max_of_le_right (sender ▸ held.raised old early transfers)
      · rw [List.mem_singleton.mp last]
        exact le_max_left _ _
    · rw [others _ sender]
      rcases List.mem_append.mp member with early | last
      · exact held.raised old early transfers
      · rw [List.mem_singleton.mp last] at sender
        exact absurd rfl sender
  · intro key
    by_cases sender : key = entry.2.senderPublicKey
    · subst sender
      rw [own]
      rcases le_total entry.2.nonce (nonces.getD entry.2.senderPublicKey 0) with below | above
      · rw [max_eq_right below]
        rcases held.reached entry.2.senderPublicKey with zero | ⟨old, member, facts⟩
        · exact .inl zero
        · exact .inr ⟨old, List.mem_append_left _ member, facts⟩
      · rw [max_eq_left above]
        exact .inr ⟨entry, by simp, kind, rfl, rfl⟩
    · rw [others _ sender]
      rcases held.reached key with zero | ⟨old, member, facts⟩
      · exact .inl zero
      · exact .inr ⟨old, List.mem_append_left _ member, facts⟩
  · intro key
    by_cases sender : key = entry.2.senderPublicKey
    · rw [sender, own]
      exact le_max_of_le_right (held.nonnegative _)
    · rw [others _ sender]
      exact held.nonnegative key

/-- Every record is selected. -/
def anyRecord (_ : Record) : Bool :=
  true

structure AmountsRelated (snapshotMatches : Record → Bool) (done : List Entry)
    (progress : Progress) (state : BranchState) : Prop where
  hashes : state.acceptedRecordHashes = progress.result.acceptedRecordHashes
  branchKeys : ∀ key, key ∈ state.acceptedCarryForwardKeys ↔ key ∈ selectedKeys anyRecord done
  ledgerKeys : ∀ key, key ∈ progress.result.acceptedCarryForwardKeys ↔
    key ∈ selectedKeys snapshotMatches done
  balances : ∀ key, key ≠ [] →
    state.balance key + carryForwardReward * openedBy snapshotMatches key done =
      progress.result.balances.getD key 0 + carryForwardReward * openedBy anyRecord key done
  emptyKey : progress.result.balances.getD [] 0 = 0 ∧ state.balance [] = lostAmount done
  nonces : NoncesRaised done progress.result.nonces

theorem getD_addBalanceDelta {other : Text} (present : other ≠ []) (balances : TextMap Rat)
    (key : Text) (amount : Rat) :
    (addBalanceDelta balances key amount).getD other 0 =
      balances.getD other 0 + if key = other then amount else 0 := by
  unfold addBalanceDelta
  by_cases empty : key.length = 0
  · rw [if_pos empty, List.length_eq_zero_iff.mp empty, if_neg (Ne.symm present), add_zero]
  · rw [if_neg empty, getD_credit]

/-- The ledger never writes the empty key. -/
theorem getD_addBalanceDelta_nil (balances : TextMap Rat) (key : Text) (amount : Rat) :
    (addBalanceDelta balances key amount).getD [] 0 = balances.getD [] 0 := by
  unfold addBalanceDelta
  by_cases empty : key.length = 0
  · rw [if_pos empty]
  · rw [if_neg empty, getD_credit, if_neg (fun nil => empty (by rw [nil]; rfl)), add_zero]

theorem getD_applyRecordToBalances_nil (block : Block) (record : Record) (balances : TextMap Rat) :
    (applyRecordToBalances block record balances).getD [] 0 = balances.getD [] 0 := by
  unfold applyRecordToBalances
  split <;> simp only [getD_addBalanceDelta_nil]

/-- Only a carry-forward record changes amounts before the amounts are applied. -/
theorem applyMembership_amounts {snapshotMatches : Record → Bool} {wallet : Text}
    {progress : Progress} {block : Block} {record : Record}
    (other : record.transactionType ≠ .carryForward) :
    let next := applyMembership snapshotMatches wallet progress block record
    next.result.acceptedRecordHashes = progress.result.acceptedRecordHashes ∧
      next.result.acceptedCarryForwardKeys = progress.result.acceptedCarryForwardKeys ∧
      next.result.balances = progress.result.balances ∧
      next.result.nonces = progress.result.nonces ∧
      next.result.issuedSupply = progress.result.issuedSupply := by
  dsimp only
  unfold applyMembership
  split
  · unfold applyJoin
    dsimp only
    split_ifs <;> exact ⟨rfl, rfl, rfl, rfl, rfl⟩
  · split
    · exact ⟨rfl, rfl, rfl, rfl, rfl⟩
    · split
      · exact ⟨rfl, rfl, rfl, rfl, rfl⟩
      · rw [if_neg (by simp [isBasicCarryForwardRecord, other])]
        exact ⟨rfl, rfl, rfl, rfl, rfl⟩

theorem amountsRelated_start (snapshotMatches : Record → Bool) (first latest : Int) :
    AmountsRelated snapshotMatches [] (.start first latest) .initial where
  hashes := rfl
  branchKeys := by
    intro key
    simp [BranchState.initial, selectedKeys, selectedCarryForwards, Std.ExtTreeSet.not_mem_empty]
  ledgerKeys := by
    intro key
    simp [Progress.start, State.start, selectedKeys, selectedCarryForwards,
      Std.ExtTreeSet.not_mem_empty]
  balances := by
    intro key _
    simp [BranchState.balance, BranchState.initial, Progress.start, State.start, openedBy,
      selectedCarryForwards, openers]
  emptyKey := by
    simp [BranchState.balance, BranchState.initial, Progress.start, State.start, lostAmount]
  nonces := ⟨by simp, by simp [Progress.start, State.start], by simp [Progress.start, State.start]⟩

section Step

variable {snapshotMatches : Record → Bool} {wallet : Text} {done : List Entry}
variable {progress : Progress} {state next : BranchState} {block : Block} {record : Record}

theorem not_opens_of_kind {selected : Record → Bool}
    (other : record.transactionType ≠ .carryForward) : ¬Opens selected done record :=
  fun opens => other opens.1

theorem AmountsRelated.marked (related : AmountsRelated snapshotMatches done progress state)
    (record : Record) :
    AmountsRelated snapshotMatches done (progress.markHash record) (acceptHash state record) where
  hashes := by rw [acceptHash, Progress.markHash, related.hashes]
  branchKeys := related.branchKeys
  ledgerKeys := related.ledgerKeys
  balances := related.balances
  emptyKey := related.emptyKey
  nonces := related.nonces

/-- A record that is no carry-forward: both folds change a balance by the same amount. -/
theorem AmountsRelated.moved (related : AmountsRelated snapshotMatches done progress state)
    (other : record.transactionType ≠ .carryForward)
    (hashes : next.acceptedRecordHashes = state.acceptedRecordHashes)
    (keys : next.acceptedCarryForwardKeys = state.acceptedCarryForwardKeys)
    (delta : ∀ key, key ≠ [] → next.balance key - state.balance key =
      (applyRecordToBalances block record progress.result.balances).getD key 0 -
        progress.result.balances.getD key 0)
    (branchEmpty : next.balance [] = state.balance [] +
      if record.transactionType = .transferCurrency ∧ record.recipientPublicKey = [] then
        record.amount else 0) :
    AmountsRelated snapshotMatches (done ++ [(block, record)])
      (applyRecord snapshotMatches wallet progress block record) next := by
  obtain ⟨sameHashes, sameKeys, sameBalances, sameNonces, -⟩ :=
    @applyMembership_amounts snapshotMatches wallet progress block record other
  have idle : ∀ selected key, openedBy selected key (done ++ [(block, record)]) =
      openedBy selected key done := by
    intro selected key
    rw [openedBy_snoc, if_neg (fun opens => not_opens_of_kind other opens.1), add_zero]
  have idleKeys : ∀ selected key, key ∈ selectedKeys selected (done ++ [(block, record)]) ↔
      key ∈ selectedKeys selected done := by
    intro selected key
    rw [selectedKeys_snoc]
    exact or_iff_left (fun opens => not_opens_of_kind other opens.1)
  refine ⟨?_, ?_, ?_, ?_, ⟨?_, ?_⟩, ?_⟩
  · rw [hashes, related.hashes]
    exact sameHashes.symm
  · intro key
    rw [keys, related.branchKeys, idleKeys]
  · intro key
    rw [idleKeys, ← related.ledgerKeys]
    change key ∈ (applyMembership _ _ _ _ _).result.acceptedCarryForwardKeys ↔ _
    rw [sameKeys]
  · intro key present
    have old := related.balances key present
    have change := delta key present
    rw [idle, idle, applyRecord, applyAmounts]
    dsimp only
    rw [sameBalances]
    linarith
  · rw [applyRecord, applyAmounts]
    dsimp only
    rw [sameBalances, getD_applyRecordToBalances_nil]
    exact related.emptyKey.1
  · rw [branchEmpty, related.emptyKey.2, lostAmount, lostAmount, List.map_append, List.sum_append]
    simp
  · rw [applyRecord, applyAmounts]
    dsimp only
    rw [sameNonces]
    by_cases transfers : record.transactionType = .transferCurrency
    · rw [if_pos transfers]
      exact related.nonces.transfer transfers
    · rw [if_neg transfers]
      exact related.nonces.other transfers

theorem carryForwardKey_ne_nil (period : 0 ≤ parseCarryForwardValueLong record.value "period") :
    carryForwardKey record ≠ [] ↔ record.recipientPublicKey ≠ [] := by
  rw [carryForwardKey]
  by_cases empty : record.recipientPublicKey = []
  · simp [empty]
  · simp [empty, not_lt.mpr period]

theorem isBasicCarryForwardRecord_of_key (kind : record.transactionType = .carryForward)
    (sender : record.senderPublicKey ≠ [])
    (wellFormed : 0 ≤ record.amount ∧
      0 ≤ parseCarryForwardValueLong record.value "checkpoint" ∧
      0 ≤ parseCarryForwardValueLong record.value "period" ∧
      parseCarryForwardValueLong record.value "checkpoint" < block.number)
    (keyed : carryForwardKey record ≠ []) :
    isBasicCarryForwardRecord record block.number = true := by
  obtain ⟨amount, checkpoint, period, below⟩ := wellFormed
  have recipient := (carryForwardKey_ne_nil period).mp keyed
  simp [isBasicCarryForwardRecord, kind, sender, recipient, not_lt.mpr checkpoint,
    not_lt.mpr period, not_le.mpr below, amount]

/-- The ledger rewards exactly the records that open their key among the matching ones. -/
theorem applyMembership_reward (wallet : Text) (related : AmountsRelated snapshotMatches done progress state)
    (kind : record.transactionType = .carryForward)
    (basic : carryForwardKey record ≠ [] → isBasicCarryForwardRecord record block.number = true) :
    applyMembership snapshotMatches wallet progress block record =
      if Opens snapshotMatches done record then applyCarryForward progress record else progress := by
  rw [applyMembership_carryForward kind]
  by_cases opens : Opens snapshotMatches done record
  · rw [if_pos opens, if_pos (by simp [basic opens.2.1, opens.2.2.1])]
  · rw [if_neg opens]
    split
    · rename_i checked
      rw [Bool.and_eq_true] at checked
      rw [applyCarryForward, if_neg]
      rintro ⟨keyed, unknown⟩
      exact opens ⟨kind, List.ne_nil_of_length_pos keyed, checked.2,
        fun old => unknown ((related.ledgerKeys _).mpr old)⟩
    · rfl

theorem applyCarryForward_of_opens (related : AmountsRelated snapshotMatches done progress state)
    (opens : Opens snapshotMatches done record) :
    applyCarryForward progress record =
      { progress with
        result := { progress.result with
          acceptedCarryForwardKeys :=
            progress.result.acceptedCarryForwardKeys.insert (carryForwardKey record)
          balances :=
            addBalanceDelta progress.result.balances record.senderPublicKey carryForwardReward
          issuedSupply := progress.result.issuedSupply + carryForwardReward } } := by
  rw [applyCarryForward, if_pos]
  exact ⟨List.length_pos_of_ne_nil opens.2.1,
    fun known => opens.2.2.2 ((related.ledgerKeys _).mp known)⟩

/-- A carry-forward record: each fold pays its own reward. -/
theorem AmountsRelated.carried (related : AmountsRelated snapshotMatches done progress state)
    (kind : record.transactionType = .carryForward) (sender : record.senderPublicKey ≠ [])
    (basic : carryForwardKey record ≠ [] → isBasicCarryForwardRecord record block.number = true)
    (hashes : next.acceptedRecordHashes = state.acceptedRecordHashes)
    (keys : ∀ key, key ∈ next.acceptedCarryForwardKeys ↔
      key ∈ state.acceptedCarryForwardKeys ∨
        Opens anyRecord done record ∧ carryForwardKey record = key)
    (paid : ∀ key, next.balance key = state.balance key +
      if Opens anyRecord done record ∧ record.senderPublicKey = key then carryForwardReward else 0) :
    AmountsRelated snapshotMatches (done ++ [(block, record)])
      (applyRecord snapshotMatches wallet progress block record) next := by
  have notTransfer : record.transactionType ≠ .transferCurrency := by simp [kind]
  have still : ∀ balances, applyRecordToBalances block record balances = balances := by
    intro balances
    simp [applyRecordToBalances, kind]
  have reward := applyMembership_reward wallet related kind basic
  have ledgerPaid : ∀ key, key ≠ [] →
      (applyMembership snapshotMatches wallet progress block record).result.balances.getD key 0 =
        progress.result.balances.getD key 0 +
          if Opens snapshotMatches done record ∧ record.senderPublicKey = key then
            carryForwardReward else 0 := by
    intro key present
    rw [reward]
    by_cases opens : Opens snapshotMatches done record
    · rw [if_pos opens, applyCarryForward_of_opens related opens]
      dsimp only
      rw [getD_addBalanceDelta present]
      simp [opens]
    · rw [if_neg opens, if_neg (fun both => opens both.1), add_zero]
  have untouched :
      (applyMembership snapshotMatches wallet progress block record).result.acceptedRecordHashes =
          progress.result.acceptedRecordHashes ∧
        (applyMembership snapshotMatches wallet progress block record).result.nonces =
          progress.result.nonces ∧
        (applyMembership snapshotMatches wallet progress block record).result.balances.getD [] 0 =
          progress.result.balances.getD [] 0 := by
    rw [reward]
    by_cases opens : Opens snapshotMatches done record
    · rw [if_pos opens, applyCarryForward_of_opens related opens]
      refine ⟨rfl, rfl, ?_⟩
      dsimp only
      rw [getD_addBalanceDelta_nil]
    · rw [if_neg opens]
      exact ⟨rfl, rfl, rfl⟩
  rw [applyRecord, applyAmounts, still, if_neg notTransfer]
  refine ⟨?_, ?_, ?_, ?_, ⟨?_, ?_⟩, ?_⟩
  · rw [hashes, related.hashes]
    exact untouched.1.symm
  · intro key
    rw [keys, related.branchKeys, selectedKeys_snoc]
  · intro key
    dsimp only
    rw [selectedKeys_snoc, ← related.ledgerKeys, reward]
    by_cases opens : Opens snapshotMatches done record
    · rw [if_pos opens, applyCarryForward_of_opens related opens]
      dsimp only
      rw [Std.ExtTreeSet.mem_insert, Std.LawfulEqCmp.compare_eq_iff_eq, or_comm]
      simp [opens]
    · rw [if_neg opens]
      simp [opens]
  · intro key present
    have old := related.balances key present
    dsimp only
    rw [paid, ledgerPaid key present, openedBy_snoc, openedBy_snoc]
    push_cast
    split_ifs <;> linarith
  · dsimp only
    rw [untouched.2.2]
    exact related.emptyKey.1
  · rw [paid, if_neg (fun both => sender both.2), add_zero, related.emptyKey.2, lostAmount,
      lostAmount, List.map_append, List.sum_append]
    simp [notTransfer]
  · dsimp only
    rw [untouched.2.1]
    exact related.nonces.other notTransfer

end Step

/-! ### Along an accepted chain -/

theorem amountsRelated_step (creators : ∀ block ∈ chain, block.creatorKey ≠ [])
    (snapshotMatches : Record → Bool) (wallet : Text) (first latest : Int) :
    PreservedByRecords env chain (fun done state => AmountsRelated snapshotMatches done
      (walkEntries snapshotMatches wallet (.start first latest) done) state) := by
  intro before block after earlier record later state seen next place split related connected
  have creator : block.creatorKey ≠ [] := creators block (by rw [place]; simp)
  rw [walkEntries_snoc]
  generalize walkEntries snapshotMatches wallet (.start first latest)
    (history before block earlier) = progress at related ⊢
  generalize history before block earlier = done at related ⊢
  obtain ⟨-, hashed, unseen, signed, applied⟩ := connected_of_ok connected
  rw [recordRound_of_new _ _ hashed (related.hashes ▸ unseen)]
  have marked := related.marked record
  generalize progress.markHash record = progress at marked ⊢
  generalize acceptHash state record = state at marked applied
  cases applied with
  | issue kind lower upper fromCreator toCreator =>
      have amount : issueAmount record = record.amount := by
        rw [issueAmount, if_neg (by rw [not_or, not_lt, not_lt]; exact ⟨upper, lower⟩)]
      refine marked.moved (by simp [kind]) rfl rfl ?_ ?_
      · intro key present
        simp only [BranchState.balance, applyRecordToBalances, kind, getD_credit,
          getD_addBalanceDelta present, amount]
        ring
      · simp [BranchState.balance, toCreator, creator, kind]
  | transfer kind positive feeLower sequenced funded =>
      have sender := (signed (by simp [recordRequiresSenderSignature, kind])).1
      refine marked.moved (by simp [kind]) rfl rfl ?_ ?_
      · intro key present
        simp only [BranchState.balance, applyRecordToBalances, kind, getD_applyTransfer,
          getD_addBalanceDelta present, neg_add, ← sub_eq_add_neg]
        ring
      · simp [BranchState.balance, getD_applyTransfer, kind, sender, creator]
  | vote kind feeLower funded =>
      have sender := (signed (by simp [recordRequiresSenderSignature, kind])).1
      refine marked.moved (by simp [kind]) rfl rfl ?_ ?_
      · intro key present
        simp only [BranchState.balance, applyRecordToBalances, kind, getD_applyVote,
          getD_addBalanceDelta present]
        ring
      · simp [BranchState.balance, getD_applyVote, kind, sender, creator]
  | join kind | joinNamed kind | rename kind | heartBeat kind | strayHeartBeat kind =>
      refine marked.moved (by simp [kind]) rfl rfl ?_ ?_
      · intro key _
        simp [BranchState.balance, applyRecordToBalances, kind]
      · simp [BranchState.balance, kind]
  | carryForward kind wellFormed keyed opens =>
      have sender := (signed (by simp [recordRequiresSenderSignature, kind])).1
      have opening : Opens anyRecord done record :=
        ⟨kind, keyed, rfl, fun known => opens ((marked.branchKeys _).mpr known)⟩
      refine marked.carried kind sender (isBasicCarryForwardRecord_of_key kind sender wellFormed) rfl
        ?_ ?_
      · intro key
        rw [Std.ExtTreeSet.mem_insert, Std.LawfulEqCmp.compare_eq_iff_eq, or_comm]
        simp [opening]
      · intro key
        simp [BranchState.balance, opening]
  | carryForwardAgain kind wellFormed idle =>
      have sender := (signed (by simp [recordRequiresSenderSignature, kind])).1
      have notOpening : ¬Opens anyRecord done record := by
        rintro ⟨-, keyed, -, unknown⟩
        rcases idle with empty | known
        · exact keyed empty
        · exact unknown ((marked.branchKeys _).mp known)
      refine marked.carried kind sender (isBasicCarryForwardRecord_of_key kind sender wellFormed) rfl
        ?_ ?_
      · intro key
        simp [notOpening]
      · intro key
        simp [notOpening]

theorem amountsRelated_of_connected {state : BranchState}
    (connected : connectChain env chain = .ok state) (snapshotMatches : Record → Bool)
    (wallet : Text) (first latest : Int) :
    AmountsRelated snapshotMatches (chainEntries chain)
      (walkEntries snapshotMatches wallet (.start first latest) (chainEntries chain)) state :=
  holds_after_blocks (amountsRelated_start snapshotMatches first latest)
    (amountsRelated_step (creators_of_connected connected) snapshotMatches wallet first latest)
    (fun _ _ _ held =>
      ⟨held.hashes, held.branchKeys, held.ledgerKeys, held.balances, held.emptyKey, held.nonces⟩)
    (List.append_nil chain).symm connected

/-! ### Exactly when the two agree -/

/-- No transfer pays the empty key. -/
def NoLostTransfers (chain : List Block) : Prop :=
  ∀ entry ∈ chainEntries chain, entry.2.transactionType = .transferCurrency →
    entry.2.recipientPublicKey ≠ []

/-- A sender opens as many carry-forward keys with all the records as with those
whose amount matches the checkpoint. -/
def RewardsAligned (env : Env) (db : LevelDb) (chain : List Block) (sender : Text) : Prop :=
  openedBy anyRecord sender (chainEntries chain) =
    openedBy (carryForwardSnapshotMatches env db) sender (chainEntries chain)

/-- The transfers of a sender in blocks without a Merkle root have no larger
nonce than it reaches in the blocks with one. -/
def LegacyNoncesCovered (chain : List Block) (sender : Text) : Prop :=
  ∀ entry ∈ chainEntries chain, entry.2.transactionType = .transferCurrency →
    entry.2.senderPublicKey = sender → entry.1.recordsMerkleRoot = [] →
    entry.2.nonce ≤ (sequencedNonces sender (chainEntries chain)).length

def AmountsAligned (env : Env) (db : LevelDb) (chain : List Block) : Prop :=
  NoLostTransfers chain ∧ (∀ sender, sender ≠ [] → RewardsAligned env db chain sender) ∧
    ∀ sender, LegacyNoncesCovered chain sender

/-- The balance and the nonce of every key, a missing entry counting as zero. -/
def AmountsAgree (ledger : State) (state : BranchState) : Prop :=
  ∀ key, ledger.balances.getD key 0 = state.balance key ∧
    ledger.nonces.getD key 0 = state.nonce key

theorem finish_amounts (progress : Progress) (wallet : Text) (now : Int) :
    (∀ key, (finish progress wallet now).balances.getD key 0 =
        progress.result.balances.getD key 0) ∧
      (finish progress wallet now).nonces = progress.result.nonces := by
  have heartbeat : (finishHeartbeat (finishMembers progress now) now).balances =
        progress.result.balances ∧
      (finishHeartbeat (finishMembers progress now) now).nonces = progress.result.nonces := by
    unfold finishHeartbeat
    dsimp only
    split_ifs <;> exact ⟨rfl, rfl⟩
  unfold finish finishTotals
  dsimp only
  split
  · refine ⟨?_, heartbeat.2⟩
    intro key
    dsimp only
    rw [getD_credit, heartbeat.1]
    simp
  · refine ⟨?_, heartbeat.2⟩
    intro key
    dsimp only
    rw [heartbeat.1]

def TransfersPositive (done : List Entry) (_ : BranchState) : Prop :=
  ∀ entry ∈ done, entry.2.transactionType = .transferCurrency → 0 < entry.2.amount

theorem transfersPositive_step (chain : List Block) :
    PreservedByRecords env chain TransfersPositive := by
  intro before block after earlier record later state seen next _ _ held connected entry member kind
  rcases List.mem_append.mp member with old | last
  · exact held entry old kind
  · rw [List.mem_singleton.mp last] at kind ⊢
    cases (connected_of_ok connected).applied with
    | transfer _ positive => exact positive
    | issue other | vote other | join other | joinNamed other | rename other | heartBeat other
    | strayHeartBeat other | carryForward other | carryForwardAgain other =>
        rw [kind] at other
        cases other

/-- Nothing is credited to the empty key exactly when no transfer pays it. -/
theorem lostAmount_eq_zero_iff {state : BranchState}
    (connected : connectChain env chain = .ok state) :
    lostAmount (chainEntries chain) = 0 ↔ NoLostTransfers chain := by
  have positive : TransfersPositive (chainEntries chain) state :=
    holds_after_blocks (by simp [TransfersPositive]) (transfersPositive_step chain)
      (fun _ _ _ held => held) (List.append_nil chain).symm connected
  constructor
  · intro zero entry member kind lost
    have bound := List.single_le_sum
      (l := (chainEntries chain).map (fun entry =>
        if entry.2.transactionType = .transferCurrency ∧ entry.2.recipientPublicKey = [] then
          entry.2.amount else 0))
      (by
        intro term found
        obtain ⟨other, inChain, rfl⟩ := List.mem_map.mp found
        split
        · rename_i transfers
          exact (positive other inChain transfers.1).le
        · exact le_rfl)
      _ (List.mem_map_of_mem member)
    rw [if_pos ⟨kind, lost⟩] at bound
    exact absurd (positive entry member kind) (not_lt.mpr (zero ▸ bound))
  · intro kept
    refine List.sum_eq_zero ?_
    intro term found
    obtain ⟨other, inChain, rfl⟩ := List.mem_map.mp found
    rw [if_neg]
    exact fun lost => kept other inChain lost.1 lost.2

/-- The nonces of a sender agree exactly when the legacy blocks do not raise it. -/
theorem nonce_agrees_iff {nonces : TextMap Int} {state : BranchState}
    (raised : NoncesRaised (chainEntries chain) nonces)
    (counted : NoncesCount (chainEntries chain) state) (key : Text) :
    nonces.getD key 0 = state.nonce key ↔ LegacyNoncesCovered chain key := by
  obtain ⟨count, value, listed⟩ := counted key
  have length : state.nonce key = (sequencedNonces key (chainEntries chain)).length := by
    rw [value, listed, firstNonces, List.length_map, List.length_range]
  constructor
  · rintro agree entry member kind rfl _
    rw [← length, ← agree]
    exact raised.raised entry member kind
  · intro covered
    refine le_antisymm ?_ ?_
    · rcases raised.reached key with zero | ⟨entry, member, kind, sender, nonce⟩
      · rw [zero, value]
        exact Int.natCast_nonneg count
      · rw [← nonce]
        by_cases rooted : 0 < entry.1.recordsMerkleRoot.length
        · have listedNonce : entry.2.nonce ∈ sequencedNonces key (chainEntries chain) := by
            refine List.mem_map.mpr ⟨entry, List.mem_filter.mpr ⟨member, ?_⟩, rfl⟩
            simp [isSequencedTransfer, kind, sender, rooted]
          rw [listed, firstNonces] at listedNonce
          obtain ⟨index, below, same⟩ := List.mem_map.mp listedNonce
          have bound := List.mem_range.mp below
          rw [← same, value]
          omega
        · rw [length]
          exact covered entry member kind sender (by simpa using rooted)
    · rw [value]
      cases count with
      | zero => exact raised.nonnegative key
      | succ count =>
          have last : ((count : Int) + 1) ∈ sequencedNonces key (chainEntries chain) := by
            rw [listed, firstNonces_succ]
            simp
          obtain ⟨entry, found, nonce⟩ := List.mem_map.mp last
          obtain ⟨member, sequenced⟩ := List.mem_filter.mp found
          have transfers : entry.2.transactionType = .transferCurrency ∧
              entry.2.senderPublicKey = key := by
            simp only [isSequencedTransfer, Bool.and_eq_true, decide_eq_true_eq] at sequenced
            exact sequenced.1
          have bound := raised.raised entry member transfers.1
          rw [transfers.2] at bound
          push_cast
          omega

/-- The balance of a key agrees exactly when its rewards do. -/
theorem AmountsRelated.balance_agrees_iff {progress : Progress} {state : BranchState}
    (related : AmountsRelated (carryForwardSnapshotMatches env db) (chainEntries chain) progress
      state) {key : Text} (present : key ≠ []) :
    progress.result.balances.getD key 0 = state.balance key ↔ RewardsAligned env db chain key := by
  have relation := related.balances key present
  rw [carryForwardReward, one_mul, one_mul] at relation
  constructor
  · intro agree
    rw [agree, add_right_inj] at relation
    exact_mod_cast relation.symm
  · intro aligned
    rw [aligned] at relation
    linarith

theorem amounts_agree_iff {state : BranchState} (connected : connectChain env chain = .ok state)
    (wallet : Text) (stop now : Int) :
    AmountsAgree (finish (walkedProgress env db wallet stop chain) wallet now) state ↔
      AmountsAligned env db chain := by
  have related : AmountsRelated (carryForwardSnapshotMatches env db) (chainEntries chain)
      (walkedProgress env db wallet stop chain) state :=
    amountsRelated_of_connected connected _ wallet _ _
  obtain ⟨balances, nonces⟩ := finish_amounts (walkedProgress env db wallet stop chain) wallet now
  unfold AmountsAgree AmountsAligned
  simp only [balances, nonces, forall_and,
    nonce_agrees_iff related.nonces (noncesCount_of_connected connected)]
  rw [← lostAmount_eq_zero_iff connected, ← and_assoc]
  refine and_congr_left (fun _ => ?_)
  constructor
  · intro agree
    refine ⟨?_, fun sender present => (related.balance_agrees_iff present).mp (agree sender)⟩
    rw [← related.emptyKey.2, ← agree [], related.emptyKey.1]
  · rintro ⟨nothingLost, aligned⟩ key
    by_cases empty : key = []
    · rw [empty, related.emptyKey.1, related.emptyKey.2, nothingLost]
    · exact (related.balance_agrees_iff empty).mpr (aligned key empty)

theorem build_amounts_eq_branch_amounts_iff (accepted : Accepts env chain)
    (stored : StoredAs env db chain) (queries : List Query) (now : Int) (wallet : Text) :
    ∃ state, connectChain env chain = .ok state ∧
      (AmountsAgree (build env db (cacheAfter env db queries) now wallet (-1)).1 state ↔
        AmountsAligned env db chain) := by
  obtain ⟨-, state, connected⟩ := accepts_iff.mp accepted
  refine ⟨state, connected, ?_⟩
  rw [build_of_stored stored accepted,
    computeState_of_stored stored accepted now wallet (.inl (by omega))]
  exact amounts_agree_iff connected wallet (-1) now

/-! ### A recorded amount that does not match -/

theorem openedBy_of_unselected {selected : Record → Bool} {entries : List Entry}
    (unselected : ∀ entry ∈ entries, entry.2.transactionType = .carryForward →
      selected entry.2 = false) (sender : Text) : openedBy selected sender entries = 0 := by
  have none : selectedCarryForwards selected entries = [] := by
    refine List.filter_eq_nil_iff.mpr ?_
    intro record member
    obtain ⟨entry, inHistory, rfl⟩ := List.mem_map.mp member
    intro picked
    simp only [Bool.and_eq_true, decide_eq_true_eq] at picked
    rw [unselected entry inHistory picked.1.1] at picked
    exact absurd picked.2 (by decide)
  rw [openedBy, none]
  rfl

/-- A carry-forward record of one coin for an account that had none. -/
def strayStore : LevelDb :=
  canonicalStore Sample.env Sample.genesis [Sample.strayBlock]

theorem accepts_strayBlock : Accepts Sample.env [Sample.genesis, Sample.strayBlock] :=
  Sample.accepts_child 5 rfl

theorem storedAs_strayStore :
    StoredAs Sample.env strayStore [Sample.genesis, Sample.strayBlock] :=
  Sample.storedAs (List.mem_iff_getElem?.mpr ⟨9, rfl⟩) accepts_strayBlock (by decide)

theorem strayCarry_mismatch :
    carryForwardSnapshotMatches Sample.env strayStore Sample.strayCarry = false := by
  have checkpoint : parseCarryForwardValueLong Sample.strayCarry.value "checkpoint" = 100 := by
    decide +kernel
  have first : getFirstBlockId strayStore = 100 := storedAs_strayStore.first _ rfl
  have visited : [Sample.genesis, Sample.strayBlock].takeWhile
      (fun block => !decide (100 < block.number)) = [Sample.genesis] := by
    decide +kernel
  unfold carryForwardSnapshotMatches
  dsimp only
  rw [checkpoint, if_neg (by decide),
    balancesThroughBlock_of_stored storedAs_strayStore accepts_strayBlock first.le, visited]
  decide +kernel

theorem stray_carry_amounts_differ :
    Accepts Sample.env [Sample.genesis, Sample.strayBlock] ∧
      BuilderShaped [Sample.genesis, Sample.strayBlock] ∧
      StoredAs Sample.env strayStore [Sample.genesis, Sample.strayBlock] ∧
      ∀ state, connectChain Sample.env [Sample.genesis, Sample.strayBlock] = .ok state →
        ¬ AmountsAgree (build Sample.env strayStore ∅ 0 [] (-1)).1 state := by
  refine ⟨accepts_strayBlock, sample_builderShaped _, storedAs_strayStore, ?_⟩
  intro state connected agree
  have built := build_of_stored storedAs_strayStore accepts_strayBlock [] 0 [] (-1)
  rw [cacheAfter_nil,
    computeState_of_stored storedAs_strayStore accepts_strayBlock 0 [] (.inl (by decide))] at built
  rw [built] at agree
  obtain ⟨-, rewards, -⟩ := (amounts_agree_iff connected [] (-1) 0).mp agree
  have aligned := rewards Sample.sender (by decide)
  have onlyStray : ∀ entry ∈ chainEntries [Sample.genesis, Sample.strayBlock],
      entry.2.transactionType = .carryForward → entry.2 = Sample.strayCarry := by
    decide +kernel
  have opened : openedBy anyRecord Sample.sender
      (chainEntries [Sample.genesis, Sample.strayBlock]) = 1 := by
    decide +kernel
  rw [RewardsAligned, opened, openedBy_of_unselected] at aligned
  · exact absurd aligned (by decide)
  · intro entry member kind
    rw [onlyStray entry member kind]
    exact strayCarry_mismatch

theorem build_amounts_of_strayStore :
    ∃ state, connectChain Sample.env [Sample.genesis, Sample.strayBlock] = .ok state ∧
      (AmountsAgree (build Sample.env strayStore ∅ 0 [] (-1)).1 state ↔
        AmountsAligned Sample.env strayStore [Sample.genesis, Sample.strayBlock]) := by
  rw [← cacheAfter_nil]
  exact build_amounts_eq_branch_amounts_iff accepts_strayBlock storedAs_strayStore [] 0 []

end Safire.LedgerState
