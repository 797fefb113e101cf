/-
What accepted chains mint.

A reward record pays its creator at most one coin, but a block may carry any number
of them. A carry-forward record pays one coin for each new pair of a recipient and
a period, and the period is a number in the text of the record: the credits of a
recipient are the different periods that its records name.
-/

import Safire.LedgerSupply

namespace Safire

open ChainValidator LedgerState Loop

variable {env : Env} {db : LevelDb} {chain : List Block}

/-! ### Block rewards -/

/-- The amounts of the reward records of a block, in order. -/
def rewardAmounts (block : Block) : List Rat :=
  (block.records.filter (fun record => record.transactionType = .issueCurrency)).map Record.amount

/-- The rewards of a block that pay something. -/
def payingRewards (block : Block) : List Rat :=
  (rewardAmounts block).filter (fun amount => 0 < amount)

theorem issuedAmount_block (block : Block) :
    issuedAmount (block.records.map (fun record => (block, record))) =
      (rewardAmounts block).sum := by
  rw [issuedAmount, List.map_map, rewardAmounts]
  induction block.records with
  | nil => rfl
  | cons record rest ih =>
      by_cases issues : record.transactionType = .issueCurrency
      · rw [List.map_cons, List.sum_cons, ih, List.filter_cons_of_pos (by simpa using issues)]
        simp [issues]
      · rw [List.map_cons, List.sum_cons, ih, List.filter_cons_of_neg (by simpa using issues)]
        simp [issues]

theorem issuedAmount_cons (block : Block) (rest : List Block) :
    issuedAmount (chainEntries (block :: rest)) =
      (rewardAmounts block).sum + issuedAmount (chainEntries rest) := by
  rw [← issuedAmount_block]
  simp [chainEntries, issuedAmount]

/-- Every reward of a connected chain is worth between nothing and one coin. -/
theorem rewardAmounts_within {state : BranchState}
    (connected : connectChain env chain = .ok state) {block : Block} (member : block ∈ chain)
    {amount : Rat} (found : amount ∈ rewardAmounts block) : 0 ≤ amount ∧ amount ≤ 1 := by
  obtain ⟨record, picked, rfl⟩ := List.mem_map.mp found
  obtain ⟨inBlock, issues⟩ := List.mem_filter.mp picked
  obtain ⟨_, _, _, accepted⟩ := entry_connected connected
    (mem_chainEntries.mpr ⟨member, inBlock⟩ : (block, record) ∈ chainEntries chain)
  have kind : record.transactionType = .issueCurrency := by simpa using issues
  cases accepted.applied with
  | issue _ lower upper => exact ⟨lower, upper⟩
  | transfer other | vote other | join other | joinNamed other | rename other | heartBeat other
  | strayHeartBeat other | carryForward other | carryForwardAgain other =>
      rw [kind] at other
      cases other

/-- Rewards of nothing add nothing. -/
theorem sum_payingRewards {block : Block} (lower : ∀ amount ∈ rewardAmounts block, 0 ≤ amount) :
    (payingRewards block).sum = (rewardAmounts block).sum := by
  rw [payingRewards]
  generalize rewardAmounts block = amounts at lower
  induction amounts with
  | nil => rfl
  | cons amount rest ih =>
      obtain ⟨nonneg, others⟩ := List.forall_mem_cons.mp lower
      by_cases pays : 0 < amount
      · rw [List.filter_cons_of_pos (by simpa using pays), List.sum_cons, List.sum_cons, ih others]
      · have nothing : amount = 0 := le_antisymm (not_lt.mp pays) nonneg
        rw [List.filter_cons_of_neg (by simpa using pays), List.sum_cons, ih others, nothing,
          zero_add]

/-- A single paying reward is at most one coin. -/
theorem blockIssue_le_one {block : Block}
    (within : ∀ amount ∈ rewardAmounts block, 0 ≤ amount ∧ amount ≤ 1)
    (single : (payingRewards block).length ≤ 1) : (rewardAmounts block).sum ≤ 1 := by
  rw [← sum_payingRewards fun amount found => (within amount found).1]
  match paying : payingRewards block with
  | [] => norm_num
  | [amount] =>
      have found : amount ∈ payingRewards block := by rw [paying]; exact List.mem_singleton.mpr rfl
      rw [List.sum_singleton]
      exact (within amount (List.mem_filter.mp found).1).2
  | first :: second :: rest =>
      rw [paying, List.length_cons, List.length_cons] at single
      omega

/-- Beside a full reward a second paying one leads beyond one coin. -/
theorem one_le_blockIssue {block : Block}
    (within : ∀ amount ∈ rewardAmounts block, 0 ≤ amount ∧ amount ≤ 1)
    (full : 1 ∈ rewardAmounts block) :
    1 ≤ (rewardAmounts block).sum ∧
      (¬ (payingRewards block).length ≤ 1 → 1 < (rewardAmounts block).sum) := by
  have paid : (1 : Rat) ∈ payingRewards block :=
    List.mem_filter.mpr ⟨full, by simp⟩
  have split : 1 + ((payingRewards block).erase 1).sum = (rewardAmounts block).sum := by
    rw [← sum_payingRewards fun amount found => (within amount found).1]
    exact List.sum_erase paid
  have positive : ∀ amount ∈ (payingRewards block).erase 1, 0 < amount := by
    intro amount found
    exact of_decide_eq_true (List.mem_filter.mp (List.mem_of_mem_erase found)).2
  constructor
  · have rest : 0 ≤ ((payingRewards block).erase 1).sum :=
      List.sum_nonneg fun amount found => (positive amount found).le
    linarith
  · intro several
    have left : (payingRewards block).erase 1 ≠ [] := by
      apply List.ne_nil_of_length_pos
      rw [List.length_erase_of_mem paid]
      omega
    have rest : 0 < ((payingRewards block).erase 1).sum := List.sum_pos _ positive left
    linarith

/-- The bound of a chain from the bound of each block. -/
theorem issuedAmount_le_of_single
    (within : ∀ block ∈ chain, ∀ amount ∈ rewardAmounts block, 0 ≤ amount ∧ amount ≤ 1)
    (single : ∀ block ∈ chain, (payingRewards block).length ≤ 1) :
    issuedAmount (chainEntries chain) ≤ chain.length := by
  induction chain with
  | nil => exact le_rfl
  | cons block rest ih =>
      obtain ⟨ownWithin, othersWithin⟩ := List.forall_mem_cons.mp within
      obtain ⟨ownSingle, othersSingle⟩ := List.forall_mem_cons.mp single
      have own := blockIssue_le_one ownWithin ownSingle
      have others := ih othersWithin othersSingle
      rw [issuedAmount_cons, List.length_cons]
      push_cast
      linarith

/-- Blocks with a full reward issue one coin each at least. -/
theorem length_le_issuedAmount
    (within : ∀ block ∈ chain, ∀ amount ∈ rewardAmounts block, 0 ≤ amount ∧ amount ≤ 1)
    (full : ∀ block ∈ chain, 1 ∈ rewardAmounts block) :
    chain.length ≤ issuedAmount (chainEntries chain) := by
  induction chain with
  | nil => exact le_rfl
  | cons block rest ih =>
      obtain ⟨ownWithin, othersWithin⟩ := List.forall_mem_cons.mp within
      obtain ⟨ownFull, othersFull⟩ := List.forall_mem_cons.mp full
      have own := (one_le_blockIssue ownWithin ownFull).1
      have others := ih othersWithin othersFull
      rw [issuedAmount_cons, List.length_cons]
      push_cast
      linarith

theorem single_of_issuedAmount_le
    (within : ∀ block ∈ chain, ∀ amount ∈ rewardAmounts block, 0 ≤ amount ∧ amount ≤ 1)
    (full : ∀ block ∈ chain, 1 ∈ rewardAmounts block)
    (bounded : issuedAmount (chainEntries chain) ≤ chain.length) :
    ∀ block ∈ chain, (payingRewards block).length ≤ 1 := by
  induction chain with
  | nil => exact fun _ member => absurd member List.not_mem_nil
  | cons block rest ih =>
      obtain ⟨ownWithin, othersWithin⟩ := List.forall_mem_cons.mp within
      obtain ⟨ownFull, othersFull⟩ := List.forall_mem_cons.mp full
      have own := one_le_blockIssue ownWithin ownFull
      have others := length_le_issuedAmount othersWithin othersFull
      rw [issuedAmount_cons, List.length_cons] at bounded
      push_cast at bounded
      refine List.forall_mem_cons.mpr ⟨?_, ih othersWithin othersFull (by linarith [own.1])⟩
      by_contra several
      linarith [own.2 several]

/-- A chain issues at most one coin for each block where no block carries a second
paying reward; where each block carries the full reward of its builder, only there. -/
theorem issued_le_length (accepted : Accepts env chain) :
    ((∀ block ∈ chain, (payingRewards block).length ≤ 1) →
        issuedAmount (chainEntries chain) ≤ chain.length) ∧
      ((∀ block ∈ chain, 1 ∈ rewardAmounts block) →
        (issuedAmount (chainEntries chain) ≤ chain.length ↔
          ∀ block ∈ chain, (payingRewards block).length ≤ 1)) := by
  obtain ⟨-, state, connected⟩ := accepts_iff.mp accepted
  have within : ∀ block ∈ chain, ∀ amount ∈ rewardAmounts block, 0 ≤ amount ∧ amount ≤ 1 :=
    fun _ member _ found => rewardAmounts_within connected member found
  have bounded := issuedAmount_le_of_single within
  exact ⟨bounded, fun full => ⟨single_of_issuedAmount_le within full, bounded⟩⟩

/-- Two rewards in one block, and the one of the genesis block. -/
theorem second_reward_exceeds_length :
    Accepts Sample.env [Sample.genesis, Sample.rewardBlock] ∧
      ¬ issuedAmount (chainEntries [Sample.genesis, Sample.rewardBlock]) ≤
        ([Sample.genesis, Sample.rewardBlock].length : Rat) := by
  refine ⟨Sample.accepts_child 6 rfl, ?_⟩
  have issued : issuedAmount (chainEntries [Sample.genesis, Sample.rewardBlock]) = 3 := by
    decide +kernel
  rw [issued]
  norm_num

/-- The bound on a chain with one reward, and the test of a chain of full rewards. -/
theorem issued_le_length_of_samples :
    issuedAmount (chainEntries [Sample.genesis, Sample.validSpend]) ≤
        ([Sample.genesis, Sample.validSpend].length : Rat) ∧
      (issuedAmount (chainEntries [Sample.genesis, Sample.rewardBlock]) ≤
          ([Sample.genesis, Sample.rewardBlock].length : Rat) ↔
        ∀ block ∈ [Sample.genesis, Sample.rewardBlock], (payingRewards block).length ≤ 1) :=
  ⟨(issued_le_length Sample.accepts_validSpend).1 (by decide),
    (issued_le_length (Sample.accepts_child 6 rfl)).2 (by decide)⟩

/-! ### Carry-forward credits -/

section Credits

variable (recipient : Text)

/-- One when the carry-forward rule pays the reward for a record with the recipient. -/
def branchCredit (progress : BranchState × TextSet) (record : Record) : Nat :=
  if record.transactionType = .carryForward ∧ 0 < (carryForwardKey record).length ∧
      carryForwardKey record ∉ progress.1.acceptedCarryForwardKeys ∧
      record.recipientPublicKey = recipient then 1 else 0

def blockCredits (env : Env) (progress : List Block × BranchState) (block : Block) : Nat :=
  tally (recordStep env block progress.1.isEmpty) (branchCredit recipient) (progress.2, ∅)
    block.records

/-- The rewards that `validateConnectedChain` pays for records with the recipient. -/
def branchCredits (env : Env) (chain : List Block) : Nat :=
  tally (blockStep env) (blockCredits recipient env) ([], .initial) chain

/-- One when the walk of the ledger pays the reward for a record with the recipient. -/
def ledgerCredit (snapshotMatches : Record → Bool) (progress : Progress) (entry : Entry) : Nat :=
  if ¬(0 < entry.2.hash.length ∧ entry.2.hash ∈ progress.result.acceptedRecordHashes) ∧
      (isBasicCarryForwardRecord entry.2 entry.1.number && snapshotMatches entry.2) = true ∧
      0 < (carryForwardKey entry.2).length ∧
      carryForwardKey entry.2 ∉ progress.result.acceptedCarryForwardKeys ∧
      entry.2.recipientPublicKey = recipient then 1 else 0

def walkRound (snapshotMatches : Record → Bool) (wallet : Text) (progress : Progress)
    (entry : Entry) : Except String Progress :=
  .ok (recordRound snapshotMatches wallet entry.1 progress entry.2)

/-- The rewards that `build` pays for records with the recipient. -/
def ledgerCredits (env : Env) (db : LevelDb) (wallet : Text) (stop : Int) : Nat :=
  tally (walkRound (LedgerState.carryForwardSnapshotMatches env db) wallet)
    (ledgerCredit recipient (LedgerState.carryForwardSnapshotMatches env db))
    (.start (getFirstBlockId db) (buildLatestBlockId db stop))
    (chainEntries (visitedBlocks env db stop))

end Credits

/-! ### Named periods -/

def periodOf (record : Record) : Int :=
  parseCarryForwardValueLong record.value "period"

/-- The periods that the selected carry-forward records name for a recipient. -/
def namedPeriods (selected : Record → Bool) (recipient : Text) (entries : List Entry) : Finset Int :=
  (((selectedCarryForwards selected entries).filter
    (fun record => record.recipientPublicKey = recipient)).map periodOf).toFinset

theorem mem_namedPeriods {selected : Record → Bool} {recipient : Text} {entries : List Entry}
    {period : Int} :
    period ∈ namedPeriods selected recipient entries ↔
      ∃ record ∈ selectedCarryForwards selected entries,
        record.recipientPublicKey = recipient ∧ periodOf record = period := by
  simp [namedPeriods, and_assoc]

theorem carryForwardKey_eq {record : Record} (keyed : carryForwardKey record ≠ []) :
    carryForwardKey record = record.recipientPublicKey ++ [':'] ++ Text.ofLong (periodOf record) := by
  unfold carryForwardKey at keyed ⊢
  dsimp only at keyed ⊢
  split at keyed
  · exact absurd rfl keyed
  · rename_i present
    rw [if_neg present]
    rfl

/-- A key shows its recipient and its period. -/
theorem carryForwardKey_injective {left right : Record} (leftKeyed : carryForwardKey left ≠ [])
    (same : carryForwardKey left = carryForwardKey right) :
    left.recipientPublicKey = right.recipientPublicKey ∧ periodOf left = periodOf right := by
  have rightKeyed : carryForwardKey right ≠ [] := same ▸ leftKeyed
  rw [carryForwardKey_eq leftKeyed, carryForwardKey_eq rightKeyed] at same
  exact Text.append_ofLong_inj (by decide) (by decide) same

theorem carryForwardKey_congr {left right : Record}
    (recipients : left.recipientPublicKey = right.recipientPublicKey)
    (periods : periodOf left = periodOf right) : carryForwardKey left = carryForwardKey right := by
  unfold carryForwardKey
  unfold periodOf at periods
  rw [recipients, periods]

/-- A record opens its key exactly when it names a new period of its recipient. -/
theorem card_namedPeriods_snoc (selected : Record → Bool) (recipient : Text) (entries : List Entry)
    (entry : Entry) :
    (namedPeriods selected recipient (entries ++ [entry])).card =
      (namedPeriods selected recipient entries).card +
        if Opens selected entries entry.2 ∧ entry.2.recipientPublicKey = recipient then 1 else 0 := by
  by_cases picked : (entry.2.transactionType = .carryForward ∧ carryForwardKey entry.2 ≠ [] ∧
      selected entry.2 = true) ∧ entry.2.recipientPublicKey = recipient
  · obtain ⟨chosen, paid⟩ := picked
    have extended : namedPeriods selected recipient (entries ++ [entry]) =
        insert (periodOf entry.2) (namedPeriods selected recipient entries) := by
      ext period
      rw [Finset.mem_insert, mem_namedPeriods, mem_namedPeriods, selectedCarryForwards_snoc,
        if_pos chosen]
      simp only [List.mem_append, List.mem_singleton]
      constructor
      · rintro ⟨record, old | rfl, facts⟩
        · exact .inr ⟨record, old, facts⟩
        · exact .inl facts.2.symm
      · rintro (rfl | ⟨record, old, facts⟩)
        · exact ⟨entry.2, .inr rfl, paid, rfl⟩
        · exact ⟨record, .inl old, facts⟩
    have known : periodOf entry.2 ∈ namedPeriods selected recipient entries ↔
        carryForwardKey entry.2 ∈ selectedKeys selected entries := by
      rw [mem_namedPeriods, selectedKeys, List.mem_map]
      constructor
      · rintro ⟨record, old, sameRecipient, samePeriod⟩
        exact ⟨record, old, carryForwardKey_congr (sameRecipient.trans paid.symm) samePeriod⟩
      · rintro ⟨record, old, same⟩
        obtain ⟨recipients, periods⟩ := carryForwardKey_injective chosen.2.1 same.symm
        exact ⟨record, old, recipients.symm.trans paid, periods.symm⟩
    rw [extended]
    by_cases old : carryForwardKey entry.2 ∈ selectedKeys selected entries
    · rw [Finset.insert_eq_of_mem (known.mpr old), if_neg (fun opens => opens.1.2.2.2 old), add_zero]
    · rw [Finset.card_insert_of_notMem (fun listed => old (known.mp listed)),
        if_pos ⟨⟨chosen.1, chosen.2.1, chosen.2.2, old⟩, paid⟩]
  · have unchanged : namedPeriods selected recipient (entries ++ [entry]) =
        namedPeriods selected recipient entries := by
      ext period
      rw [mem_namedPeriods, mem_namedPeriods, selectedCarryForwards_snoc]
      constructor
      · rintro ⟨record, listed, paid, facts⟩
        rcases List.mem_append.mp listed with old | new
        · exact ⟨record, old, paid, facts⟩
        · split at new
          · rename_i chosen
            rw [List.mem_singleton.mp new] at paid
            exact absurd ⟨chosen, paid⟩ picked
          · cases new
      · rintro ⟨record, old, facts⟩
        exact ⟨record, List.mem_append_left _ old, facts⟩
    rw [unchanged, if_neg, add_zero]
    exact fun opens => picked ⟨⟨opens.1.1, opens.1.2.1, opens.1.2.2.1⟩, opens.2⟩

/-! ### Credits are named periods -/

/-- The keys that the branch has accepted are those of the records. -/
def KeysAccepted (done : List Entry) (state : BranchState) : Prop :=
  ∀ key, key ∈ state.acceptedCarryForwardKeys ↔ key ∈ selectedKeys anyRecord done

theorem keysAccepted_initial : KeysAccepted [] .initial := by
  intro key
  simp [BranchState.initial, selectedKeys, selectedCarryForwards, Std.ExtTreeSet.not_mem_empty]

theorem KeysAccepted.opens_iff {done : List Entry} {state : BranchState}
    (accepted : KeysAccepted done state) (record : Record) :
    Opens anyRecord done record ↔
      record.transactionType = .carryForward ∧ 0 < (carryForwardKey record).length ∧
        carryForwardKey record ∉ state.acceptedCarryForwardKeys := by
  rw [Opens, accepted, List.length_pos_iff]
  simp [anyRecord]

/-- A record adds its key exactly when it opens it. -/
theorem KeysAccepted.after_record {done : List Entry} {state next : BranchState}
    (accepted : KeysAccepted done state) {block : Block} {isGenesis : Bool} {seen : TextSet}
    {record : Record} (connected : connectRecord env block isGenesis state seen record = .ok next) :
    KeysAccepted (done ++ [(block, record)]) next := by
  intro key
  rw [selectedKeys_snoc, ← accepted key]
  have idle : ¬Opens anyRecord done record → (key ∈ state.acceptedCarryForwardKeys ↔
      key ∈ state.acceptedCarryForwardKeys ∨
        Opens anyRecord done record ∧ carryForwardKey record = key) := by
    intro closed
    exact (or_iff_left (fun opens => closed opens.1)).symm
  cases (connected_of_ok connected).applied with
  | carryForward kind wellFormed keyed opens =>
      have opening : Opens anyRecord done record :=
        (accepted.opens_iff record).mpr ⟨kind, List.length_pos_of_ne_nil keyed, opens⟩
      rw [Std.ExtTreeSet.mem_insert, Std.LawfulEqCmp.compare_eq_iff_eq, or_comm]
      simp [opening, acceptHash]
  | carryForwardAgain kind wellFormed closed =>
      refine idle fun opens => ?_
      rcases closed with empty | known
      · exact opens.2.1 empty
      · exact opens.2.2.2 ((accepted _).mp known)
  | issue kind | transfer kind | vote kind | join kind | joinNamed kind | rename kind
  | heartBeat kind | strayHeartBeat kind =>
      exact idle (not_opens_of_kind (by simp [kind]))

theorem keysAccepted_after_records {before : List Block} {block : Block} {state next : BranchState}
    {records : List Record} (accepted : KeysAccepted (chainEntries before) state)
    (connected : connectRecords env block before.isEmpty state records = .ok next) :
    KeysAccepted (history before block records) next := by
  obtain ⟨seen, run⟩ := connectRecords_ok_iff.mp connected
  refine run_invariant (fun applied (progress : BranchState × TextSet) =>
    KeysAccepted (history before block applied) progress.1) ?_ records ?_ _ run
  · simpa [history] using accepted
  · intro applied record rest progress stepped _ held step
    rw [history_snoc]
    exact held.after_record (recordStep_ok_iff.mp step).1

/-- The credits of a block are the periods that its records add. -/
theorem blockCredits_eq (recipient : Text) {before : List Block} {block : Block}
    {state next : BranchState} (accepted : KeysAccepted (chainEntries before) state)
    (connected : connectRecords env block before.isEmpty state block.records = .ok next) :
    (namedPeriods anyRecord recipient (history before block block.records)).card =
      (namedPeriods anyRecord recipient (chainEntries before)).card +
        blockCredits recipient env (before, state) block := by
  obtain ⟨seen, run⟩ := connectRecords_ok_iff.mp connected
  have counted := tally_of_run
    (fun applied (progress : BranchState × TextSet) =>
      KeysAccepted (history before block applied) progress.1)
    (fun applied => (namedPeriods anyRecord recipient (history before block applied)).card)
    (branchCredit recipient) (state, ∅) (by simpa [history] using accepted) block.records ?_ run
  · rw [counted, history, List.map_nil, List.append_nil]
    rfl
  · intro applied record rest progress stepped _ held step
    rw [history_snoc]
    refine ⟨held.after_record (recordStep_ok_iff.mp step).1, ?_⟩
    simp only [card_namedPeriods_snoc, held.opens_iff, branchCredit, and_assoc]

theorem branchCredits_eq (recipient : Text) {state : BranchState}
    (connected : connectChain env chain = .ok state) :
    branchCredits recipient env chain =
      (namedPeriods anyRecord recipient (chainEntries chain)).card := by
  have counted := tally_of_run
    (fun done (progress : List Block × BranchState) =>
      progress.1 = done ∧ KeysAccepted (chainEntries done) progress.2)
    (fun done => (namedPeriods anyRecord recipient (chainEntries done)).card)
    (blockCredits recipient env) ([], .initial) ⟨rfl, keysAccepted_initial⟩ chain ?_
    (connectChain_ok_iff.mp connected)
  · rw [counted]
    exact (Nat.zero_add _).symm
  · rintro done block rest ⟨before, reached⟩ next _ ⟨rfl, held⟩ stepped
    obtain ⟨connectedBlock, blocks⟩ := blockStep_ok_iff.mp stepped
    obtain ⟨-, applied, records, pushed⟩ := connectBlock_ok_iff.mp connectedBlock
    have whole : chainEntries (before ++ [block]) = history before block block.records :=
      chainEntries_snoc before block
    refine ⟨⟨blocks, ?_⟩, ?_⟩
    · rw [whole, pushed]
      exact fun key => keysAccepted_after_records held records key
    · rw [whole]
      exact blockCredits_eq recipient held records

/-- The walk of the ledger as a loop that never fails. -/
theorem walkRound_run (snapshotMatches : Record → Bool) (wallet : Text) (start : Progress)
    (entries : List Entry) :
    entries.foldlM (walkRound snapshotMatches wallet) start =
      .ok (walkEntries snapshotMatches wallet start entries) := by
  induction entries generalizing start with
  | nil => rfl
  | cons entry rest ih =>
      rw [List.foldlM_cons, walkRound, walkEntries, List.foldl_cons]
      exact ih _

/-- Along an accepted chain the ledger pays for the periods that the matching records name. -/
theorem ledgerTally_eq (recipient : Text) {state : BranchState}
    (connected : connectChain env chain = .ok state) (snapshotMatches : Record → Bool)
    (wallet : Text) (first latest : Int) :
    tally (walkRound snapshotMatches wallet) (ledgerCredit recipient snapshotMatches)
        (.start first latest) (chainEntries chain) =
      (namedPeriods snapshotMatches recipient (chainEntries chain)).card := by
  have preserved : PreservedByRecords env chain (fun done state =>
      AmountsRelated snapshotMatches done
          (walkEntries snapshotMatches wallet (.start first latest) done) state ∧
        tally (walkRound snapshotMatches wallet) (ledgerCredit recipient snapshotMatches)
            (.start first latest) done =
          (namedPeriods snapshotMatches recipient done).card) := by
    intro before block after earlier record later reached seen next place split held stepped
    refine ⟨amountsRelated_step (creators_of_connected connected) snapshotMatches wallet first
      latest before block after earlier record later reached seen next place split held.1 stepped,
      ?_⟩
    rw [tally_snoc (walkRound_run _ _ _ _), held.2, card_namedPeriods_snoc]
    congr 1
    obtain ⟨related, -⟩ := held
    generalize walkEntries snapshotMatches wallet (.start first latest)
      (history before block earlier) = progress at related ⊢
    generalize history before block earlier = done at related ⊢
    obtain ⟨-, hashed, unseen, signed, applied⟩ := connected_of_ok stepped
    have fresh : ¬(0 < record.hash.length ∧
        record.hash ∈ progress.result.acceptedRecordHashes) := fun again =>
      unseen (related.hashes ▸ again.2)
    have basic : record.transactionType = .carryForward → carryForwardKey record ≠ [] →
        isBasicCarryForwardRecord record block.number = true := by
      intro kind keyed
      have sender := (signed (by simp [recordRequiresSenderSignature, kind])).1
      cases applied with
      | carryForward _ wellFormed | carryForwardAgain _ wellFormed =>
          exact isBasicCarryForwardRecord_of_key kind sender wellFormed keyed
      | issue other | transfer other | vote other | join other | joinNamed other | rename other
      | heartBeat other | strayHeartBeat other =>
          rw [kind] at other
          cases other
    have kindOf : isBasicCarryForwardRecord record block.number = true →
        record.transactionType = .carryForward := by
      intro checked
      by_contra other
      simp [isBasicCarryForwardRecord, other] at checked
    have opening : Opens snapshotMatches done record ↔
        (isBasicCarryForwardRecord record block.number && snapshotMatches record) = true ∧
          0 < (carryForwardKey record).length ∧
          carryForwardKey record ∉ progress.result.acceptedCarryForwardKeys := by
      rw [Opens, related.ledgerKeys, List.length_pos_iff, Bool.and_eq_true]
      constructor
      · rintro ⟨kind, keyed, picked, unknown⟩
        exact ⟨⟨basic kind keyed, picked⟩, keyed, unknown⟩
      · rintro ⟨⟨checked, picked⟩, keyed, unknown⟩
        exact ⟨kindOf checked, keyed, picked, unknown⟩
    simp only [ledgerCredit, fresh, not_false_eq_true, true_and, opening, and_assoc]
  have initially : AmountsRelated snapshotMatches []
        (walkEntries snapshotMatches wallet (.start first latest) []) .initial ∧
      tally (walkRound snapshotMatches wallet) (ledgerCredit recipient snapshotMatches)
          (.start first latest) [] = (namedPeriods snapshotMatches recipient []).card :=
    ⟨amountsRelated_start snapshotMatches first latest, rfl⟩
  exact (holds_after_blocks initially preserved
    (fun _ _ _ held => ⟨⟨held.1.hashes, held.1.branchKeys, held.1.ledgerKeys, held.1.balances,
      held.1.emptyKey, held.1.nonces⟩, held.2⟩)
    (List.append_nil chain).symm connected).2

theorem ledgerCredits_eq (recipient : Text) (accepted : Accepts env chain)
    (stored : StoredAs env db chain) (wallet : Text) (stop : Int) :
    ledgerCredits recipient env db wallet stop =
      (namedPeriods (LedgerState.carryForwardSnapshotMatches env db) recipient
        (chainEntries (blocksUpTo stop chain))).card := by
  obtain ⟨present, state, connected⟩ := accepts_iff.mp accepted
  obtain ⟨reached, below⟩ := connected_blocksUpTo connected stop
  rw [ledgerCredits, stored.visitedBlocks_eq (ascending_of_accepts accepted) present stop]
  exact ledgerTally_eq recipient below _ wallet _ _

/-! ### The bound -/

/-- One credit, and one for each period that passed since the genesis block. -/
def creditBound (genesis tip : Block) : Int :=
  1 + (tip.number - genesis.number) / carryForwardPeriodBlocks

/-- The records of `queueCarryForwardIfDue`: the period is that of a checkpoint on
the chain, which is a whole period old. -/
def OnSchedule (genesis : Block) (entry : Entry) : Prop :=
  let checkpoint := parseCarryForwardValueLong entry.2.value "checkpoint"
  periodOf entry.2 = checkpoint / carryForwardPeriodBlocks ∧ genesis.number ≤ checkpoint ∧
    checkpoint + carryForwardPeriodBlocks < entry.1.number

theorem namedPeriods_mono (selected : Record → Bool) (recipient : Text) {fewer entries : List Entry}
    (inside : fewer ⊆ entries) :
    namedPeriods selected recipient fewer ⊆ namedPeriods anyRecord recipient entries := by
  intro period named
  obtain ⟨record, picked, facts⟩ := mem_namedPeriods.mp named
  refine mem_namedPeriods.mpr ⟨record, ?_, facts⟩
  obtain ⟨listed, chosen⟩ := List.mem_filter.mp picked
  obtain ⟨entry, member, rfl⟩ := List.mem_map.mp listed
  refine List.mem_filter.mpr ⟨List.mem_map_of_mem (inside member), ?_⟩
  rw [Bool.and_eq_true] at chosen ⊢
  exact ⟨chosen.1, rfl⟩

theorem ledgerCredits_le (recipient : Text) (accepted : Accepts env chain)
    (stored : StoredAs env db chain) (wallet : Text) (stop : Int) :
    ledgerCredits recipient env db wallet stop ≤
      (namedPeriods anyRecord recipient (chainEntries chain)).card := by
  rw [ledgerCredits_eq recipient accepted stored]
  refine Finset.card_le_card (namedPeriods_mono _ recipient fun entry member => ?_)
  obtain ⟨inPart, inBlock⟩ := mem_chainEntries.mp member
  exact mem_chainEntries.mpr ⟨(List.takeWhile_sublist _).subset inPart, inBlock⟩

/-- Periods on schedule lie between that of the genesis block and that of the tip. -/
theorem card_of_onSchedule {genesis tip : Block} {recipient : Text} (ascending : Ascending chain)
    (head : chain.head? = some genesis) (last : chain.getLast? = some tip)
    (scheduled : ∀ entry ∈ chainEntries chain, entry.2.transactionType = .carryForward →
      entry.2.recipientPublicKey = recipient → OnSchedule genesis entry) :
    ((namedPeriods anyRecord recipient (chainEntries chain)).card : Int) ≤
      creditBound genesis tip := by
  have within : namedPeriods anyRecord recipient (chainEntries chain) ⊆
      Finset.Icc (genesis.number / carryForwardPeriodBlocks)
        ((tip.number - 1) / carryForwardPeriodBlocks - 1) := by
    intro period named
    obtain ⟨record, picked, paid, same⟩ := mem_namedPeriods.mp named
    obtain ⟨listed, chosen⟩ := List.mem_filter.mp picked
    obtain ⟨entry, member, rfl⟩ := List.mem_map.mp listed
    rw [Bool.and_eq_true, decide_eq_true_eq] at chosen
    obtain ⟨ofCheckpoint, above, aged⟩ := scheduled entry member chosen.1.1 paid
    have below := ascending.le_last last (mem_chainEntries.mp member).1
    rw [Finset.mem_Icc, ← same, ofCheckpoint]
    unfold carryForwardPeriodBlocks at aged ⊢
    omega
  have order : genesis.number ≤ tip.number :=
    ascending.le_last last (List.mem_of_head? head)
  have counted := Finset.card_le_card within
  rw [Int.card_Icc] at counted
  unfold creditBound carryForwardPeriodBlocks at *
  omega

/-- The credits of a recipient are bounded, if and only if its records name no more
periods than have passed; so they are where the records keep the schedule. -/
theorem carry_credits_bounded_iff (accepted : Accepts env chain) (stored : StoredAs env db chain)
    {genesis tip : Block} (head : chain.head? = some genesis) (last : chain.getLast? = some tip)
    (recipient : Text) :
    (((branchCredits recipient env chain : Int) ≤ creditBound genesis tip ∧
        ∀ wallet stop, (ledgerCredits recipient env db wallet stop : Int) ≤
          creditBound genesis tip) ↔
      ((namedPeriods anyRecord recipient (chainEntries chain)).card : Int) ≤
        creditBound genesis tip) ∧
      ((∀ entry ∈ chainEntries chain, entry.2.transactionType = .carryForward →
          entry.2.recipientPublicKey = recipient → OnSchedule genesis entry) →
        ((namedPeriods anyRecord recipient (chainEntries chain)).card : Int) ≤
          creditBound genesis tip) := by
  obtain ⟨-, state, connected⟩ := accepts_iff.mp accepted
  refine ⟨?_, card_of_onSchedule (ascending_of_accepts accepted) head last⟩
  rw [branchCredits_eq recipient connected]
  constructor
  · exact fun bounded => bounded.1
  · intro bounded
    refine ⟨bounded, fun wallet stop => le_trans ?_ bounded⟩
    exact_mod_cast ledgerCredits_le recipient accepted stored wallet stop

/-- Two records for one account and one checkpoint, with different period numbers. -/
def carryStore : LevelDb :=
  canonicalStore Sample.env Sample.genesis [Sample.carryBlock]

theorem accepts_carryBlock : Accepts Sample.env [Sample.genesis, Sample.carryBlock] :=
  Sample.accepts_child 4 rfl

theorem storedAs_carryStore :
    StoredAs Sample.env carryStore [Sample.genesis, Sample.carryBlock] :=
  Sample.storedAs (List.mem_iff_getElem?.mpr ⟨8, rfl⟩) accepts_carryBlock (by decide)

theorem second_period_exceeds_bound :
    Accepts Sample.env [Sample.genesis, Sample.carryBlock] ∧
      StoredAs Sample.env carryStore [Sample.genesis, Sample.carryBlock] ∧
      ¬((branchCredits Sample.sender Sample.env [Sample.genesis, Sample.carryBlock] : Int) ≤
          creditBound Sample.genesis Sample.carryBlock ∧
        ∀ wallet stop, (ledgerCredits Sample.sender Sample.env carryStore wallet stop : Int) ≤
          creditBound Sample.genesis Sample.carryBlock) := by
  refine ⟨accepts_carryBlock, storedAs_carryStore, fun bounded => ?_⟩
  obtain ⟨-, state, connected⟩ := accepts_iff.mp accepts_carryBlock
  have named : (namedPeriods anyRecord Sample.sender
      (chainEntries [Sample.genesis, Sample.carryBlock])).card = 2 := by
    decide +kernel
  have passed : creditBound Sample.genesis Sample.carryBlock = 1 := by decide +kernel
  have credits := bounded.1
  rw [branchCredits_eq Sample.sender connected, named, passed] at credits
  exact absurd credits (by decide)

theorem carry_credits_of_carryStore :
    ((branchCredits Sample.sender Sample.env [Sample.genesis, Sample.carryBlock] : Int) ≤
          creditBound Sample.genesis Sample.carryBlock ∧
        ∀ wallet stop, (ledgerCredits Sample.sender Sample.env carryStore wallet stop : Int) ≤
          creditBound Sample.genesis Sample.carryBlock) ↔
      ((namedPeriods anyRecord Sample.sender
        (chainEntries [Sample.genesis, Sample.carryBlock])).card : Int) ≤
          creditBound Sample.genesis Sample.carryBlock :=
  (carry_credits_bounded_iff accepts_carryBlock storedAs_carryStore rfl rfl Sample.sender).1

end Safire
