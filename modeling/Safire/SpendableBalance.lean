/-
The balance that a wallet may still spend.

A wallet request starts from the confirmed balance and takes off the debits of
the blocks above the confirmed ones and those of the pending records. On an
accepted chain this is never more than the balance at the tip without the
pending debits, since the credits of the newest blocks are left out.
-/

import Safire.LedgerDeltas
import Safire.MempoolReads

namespace Safire.RequestHandler

open ChainValidator LedgerState Mempool Text

variable {env : Env} {db : LevelDb} {chain : List Block} {store : PendingStore} {key : Text}

/-! ### The debits of a wallet -/

def walletConfirmationBlocks : Int := 1

/-- The body of the loops that add up what the records take from a wallet. -/
def negativeRound (publicKey : Text) (delta : Rat) (record : Record) : Rat :=
  if record.transactionType = .transferCurrency ∧ record.senderPublicKey = publicKey then
    if record.recipientPublicKey = publicKey then delta - record.fee
    else delta - (record.amount + record.fee)
  else if record.transactionType = .vote ∧ record.senderPublicKey = publicKey then
    delta - record.fee
  else delta

def pendingWalletNegativeDelta (publicKey : Text) (records : List Record) : Rat :=
  records.foldl (negativeRound publicKey) 0

def recentRound (publicKey : Text) (progress : Rat × TextSet) (record : Record) : Rat × TextSet :=
  if 0 < record.hash.length ∧ record.hash ∈ progress.2 then progress
  else
    (negativeRound publicKey progress.1 record,
      if 0 < record.hash.length then progress.2.insert record.hash else progress.2)

def recentBlock (publicKey : Text) (confirmedStopBlock : Int) (progress : Rat × TextSet)
    (block : Block) : Rat × TextSet :=
  if confirmedStopBlock < block.number then block.records.foldl (recentRound publicKey) progress
  else progress

def recentAcceptedWalletNegativeDelta (env : Env) (db : LevelDb) (publicKey : Text)
    (confirmedStopBlock : Int) : Rat :=
  let firstBlockId := getFirstBlockId db
  let latestBlockId := getLatestBlockId db
  if firstBlockId < 0 ∨ latestBlockId < 0 ∨ publicKey.length = 0 then 0
  else
    ((walk env db (fun _ => false) (fun number => number = latestBlockId) walkGuard
      (getBlock env db firstBlockId)).foldl (recentBlock publicKey confirmedStopBlock) (0, ∅)).1

/-- The spendable balance, with the mempool after the queue was read. A slightly
negative one counts as zero. -/
def spendableConfirmedBalance (env : Env) (cache : Cache) (currentTimeBlock currentBlock : Int)
    (opened : Bool) (store : PendingStore) (publicKey : Text) : Rat × PendingStore :=
  let confirmedStopBlock := confirmedStopBlock env store.db walletConfirmationBlocks
  let confirmedState := (build env store.db cache currentTimeBlock publicKey confirmedStopBlock).1
  let (pendingRecords, after) := peekQueueRecords env currentBlock opened store
  let spendable := confirmedState.walletBalance +
    recentAcceptedWalletNegativeDelta env store.db publicKey confirmedStopBlock +
    pendingWalletNegativeDelta publicKey pendingRecords
  (if spendable < 0 ∧ -balanceTolerance < spendable then 0 else spendable, after)

/-- What a record takes from the wallet of its sender. -/
def walletDebit (publicKey : Text) (record : Record) : Rat :=
  if record.transactionType = .transferCurrency ∧ record.senderPublicKey = publicKey then
    transferDebit record
  else if record.transactionType = .vote ∧ record.senderPublicKey = publicKey then record.fee
  else 0

theorem negativeRound_eq (publicKey : Text) (delta : Rat) (record : Record) :
    negativeRound publicKey delta record = delta - walletDebit publicKey record := by
  unfold negativeRound walletDebit
  by_cases sends : record.transactionType = .transferCurrency ∧ record.senderPublicKey = publicKey
  · rw [if_pos sends, if_pos sends, transferDebit, sends.2]
    by_cases self : record.recipientPublicKey = publicKey
    · rw [if_pos self, if_pos self.symm]
    · rw [if_neg self, if_neg fun same => self same.symm]
  · rw [if_neg sends, if_neg sends]
    split
    · rfl
    · exact (sub_zero delta).symm

theorem foldl_negativeRound (publicKey : Text) (delta : Rat) (records : List Record) :
    records.foldl (negativeRound publicKey) delta =
      delta - (records.map (walletDebit publicKey)).sum := by
  induction records generalizing delta with
  | nil => exact (sub_zero delta).symm
  | cons record rest ih =>
      rw [List.foldl_cons, ih, negativeRound_eq, List.map_cons, List.sum_cons]
      ring

theorem pendingWalletNegativeDelta_eq (publicKey : Text) (records : List Record) :
    pendingWalletNegativeDelta publicKey records =
      -(records.map (walletDebit publicKey)).sum := by
  rw [pendingWalletNegativeDelta, foldl_negativeRound, zero_sub]

/-! ### Balances of an accepted chain -/

/-- The blocks that the ledger processes up to a stop. -/
def ledgerBlocks (stop : Int) (chain : List Block) : List Block :=
  (blocksAtMost stop chain).take walkGuard

/-- The balance of a wallet after some blocks. The ledger keeps none for the empty key. -/
def keyBalance (env : Env) (db : LevelDb) (key : Text) (blocks : List Block) : Rat :=
  if key = [] then 0
  else
    deltaSum key (chainEntries blocks) + carryForwardReward *
      openedBy (LedgerState.carryForwardSnapshotMatches env db) key (chainEntries blocks)

theorem ledgerBlocks_isPrefix (ascending : Ascending chain) (stop : Int) :
    ledgerBlocks stop chain <+: ledgerBlocks (-1) chain := by
  have whole : blocksAtMost (-1) chain = chain := rfl
  rw [ledgerBlocks, ledgerBlocks, whole, ← blocksUpTo_eq ascending]
  exact (List.takeWhile_prefix _).take walkGuard

theorem connected_ledgerBlocks {state : BranchState} (ascending : Ascending chain)
    (connected : connectChain env chain = .ok state) (stop : Int) :
    ∃ reached, connectChain env (ledgerBlocks stop chain) = .ok reached := by
  have cut : ledgerBlocks stop chain <+: chain :=
    (ledgerBlocks_isPrefix ascending stop).trans (List.take_prefix _ _)
  obtain ⟨rest, split⟩ := cut
  rw [← split] at connected
  exact connectChain_prefix connected

theorem walkEntries_walletBalance (snapshotMatches : Record → Bool) (wallet : Text)
    (start : Progress) (entries : List Entry) :
    (walkEntries snapshotMatches wallet start entries).result.walletBalance =
      start.result.walletBalance := by
  induction entries using List.reverseRecOn with
  | nil => rfl
  | append_singleton entries entry ih =>
      rw [walkEntries_snoc, ← ih]
      generalize walkEntries snapshotMatches wallet start entries = progress
      unfold recordRound
      split
      · rfl
      · dsimp only [applyRecord, applyAmounts]
        unfold applyMembership applyJoin applyCarryForward
        dsimp only
        split_ifs <;> rfl

theorem finish_walletBalance (progress : Progress) (wallet : Text) (now : Int) :
    (finish progress wallet now).walletBalance =
      if 0 < wallet.length then progress.result.balances.getD wallet 0
      else progress.result.walletBalance := by
  have heartbeat : (finishHeartbeat (finishMembers progress now) now).balances =
        progress.result.balances ∧
      (finishHeartbeat (finishMembers progress now) now).walletBalance =
        progress.result.walletBalance := by
    unfold finishHeartbeat
    dsimp only
    split_ifs <;> exact ⟨rfl, rfl⟩
  unfold finish finishTotals
  dsimp only
  split
  · dsimp only
    rw [heartbeat.1]
  · exact heartbeat.2

section Balance

variable {state : BranchState} (ascending : Ascending chain)
variable (connected : connectChain env chain = .ok state)

include ascending connected

theorem walked_balance (wallet : Text) (stop : Int) (key : Text) :
    (walkedProgress env db wallet stop (ledgerBlocks stop chain)).result.balances.getD key 0 =
      keyBalance env db key (ledgerBlocks stop chain) := by
  obtain ⟨reached, part⟩ := connected_ledgerBlocks ascending connected stop
  unfold keyBalance
  by_cases empty : key = []
  · rw [if_pos empty, empty]
    exact (amountsRelated_of_connected part _ wallet (getFirstBlockId db)
      (buildLatestBlockId db stop)).emptyKey.1
  · rw [if_neg empty]
    exact balancesSummed_of_connected part _ wallet (getFirstBlockId db)
      (buildLatestBlockId db stop) key empty

theorem build_balance (canonical : CanonicalChain env db chain) (queries : List Query) (now : Int)
    (wallet : Text) (stop : Int) (key : Text) :
    (build env db (cacheAfter env db queries) now wallet stop).1.balances.getD key 0 =
      keyBalance env db key (ledgerBlocks stop chain) := by
  rw [← walked_balance ascending connected wallet, build_of_canonical canonical]
  exact (finish_amounts _ wallet now).1 key

/-- The wallet balance is the balance of the wallet's key. -/
theorem build_walletBalance (canonical : CanonicalChain env db chain) (queries : List Query)
    (now : Int) (key : Text) (stop : Int) :
    (build env db (cacheAfter env db queries) now key stop).1.walletBalance =
      keyBalance env db key (ledgerBlocks stop chain) := by
  rw [build_of_canonical canonical]
  change (finish (walkedProgress env db key stop (ledgerBlocks stop chain)) key now).walletBalance =
    _
  rw [finish_walletBalance, ← walked_balance ascending connected key stop key]
  by_cases present : 0 < key.length
  · rw [if_pos present]
  · rw [if_neg present, walked_balance ascending connected]
    have empty : key = [] := List.length_eq_zero_iff.mp (Nat.le_zero.mp (not_lt.mp present))
    rw [keyBalance, if_pos empty]
    exact walkEntries_walletBalance _ key _ _

end Balance

/-! ### The debits of the newest blocks -/

def debitSum (key : Text) (records : List Record) : Rat :=
  (records.map (walletDebit key)).sum

theorem walletDebit_nonneg {block : Block} {isGenesis : Bool} {state next : BranchState}
    {record : Record} (connected : Connected env block isGenesis state record next) (key : Text) :
    0 ≤ walletDebit key record := by
  unfold walletDebit
  cases connected.applied with
  | transfer kind positive feeLower =>
      have debit : 0 ≤ transferDebit record := by
        unfold transferDebit
        split
        · exact feeLower
        · exact add_nonneg positive.le feeLower
      simp only [kind]
      split_ifs <;> first | exact debit | simp_all
  | vote kind feeLower =>
      simp only [kind]
      split_ifs <;> first | exact feeLower | simp_all
  | issue kind | join kind | joinNamed kind | rename kind | heartBeat kind | strayHeartBeat kind
  | carryForward kind | carryForwardAgain kind => simp [kind]

/-- A record takes no more from a wallet than its debit. -/
theorem neg_walletDebit_le {block : Block} {isGenesis : Bool} {state next : BranchState}
    {record : Record} (connected : Connected env block isGenesis state record next) (key : Text) :
    -walletDebit key record ≤ amountDelta block record key := by
  unfold walletDebit amountDelta
  cases connected.applied with
  | transfer kind positive feeLower =>
      have paid : (0 : Rat) ≤ if block.creatorKey = key then record.fee else 0 := by
        split
        · exact feeLower
        · exact le_refl 0
      simp only [kind, true_and, transferDebit]
      by_cases sends : record.senderPublicKey = key
      · rw [if_pos sends, if_pos sends, sends]
        by_cases self : record.recipientPublicKey = key
        · rw [if_pos self, if_pos self.symm]
          linarith
        · rw [if_neg self, if_neg fun same => self same.symm]
          linarith
      · rw [if_neg sends, if_neg sends]
        simp only [reduceCtorEq, false_and, if_false]
        split <;> linarith
  | vote kind feeLower =>
      have paid : (0 : Rat) ≤ if block.creatorKey = key then record.fee else 0 := by
        split
        · exact feeLower
        · exact le_refl 0
      simp only [kind, true_and, reduceCtorEq, false_and, if_false]
      split <;> linarith
  | issue kind lower upper =>
      have amount : 0 ≤ issueAmount record := by
        unfold issueAmount
        split
        · exact zero_le_one
        · exact lower
      simp only [kind, reduceCtorEq, false_and, if_false, neg_zero]
      split
      · exact amount
      · exact le_refl 0
  | join kind | joinNamed kind | rename kind | heartBeat kind | strayHeartBeat kind
  | carryForward kind | carryForwardAgain kind => simp [kind]

theorem openedBy_append_le (selected : Record → Bool) (key : Text) (earlier later : List Entry) :
    openedBy selected key earlier ≤ openedBy selected key (earlier ++ later) := by
  induction later using List.reverseRecOn with
  | nil => rw [List.append_nil]
  | append_singleton later entry ih =>
      rw [← List.append_assoc, openedBy_snoc]
      exact ih.trans (Nat.le_add_right _ _)

theorem chainEntries_records (blocks : List Block) :
    (chainEntries blocks).map Prod.snd = blocks.flatMap Block.records := by
  rw [chainEntries, List.map_flatMap]
  congr 1
  funext block
  rw [List.map_map]
  exact List.map_id _

/-- The newest blocks of an accepted chain take no more from a wallet than its debits. -/
theorem keyBalance_append {older newer : List Block} {state : BranchState}
    (connected : connectChain env (older ++ newer) = .ok state) (present : key ≠ []) :
    keyBalance env db key older - debitSum key (newer.flatMap Block.records) ≤
      keyBalance env db key (older ++ newer) := by
  have entries : chainEntries (older ++ newer) = chainEntries older ++ chainEntries newer :=
    List.flatMap_append
  have opened : (openedBy (LedgerState.carryForwardSnapshotMatches env db) key
      (chainEntries older) : Rat) ≤ openedBy (LedgerState.carryForwardSnapshotMatches env db) key
        (chainEntries older ++ chainEntries newer) :=
    Nat.cast_le.mpr (openedBy_append_le _ key _ _)
  have moved : ∀ later : List Entry, (∀ entry ∈ later, entry ∈ chainEntries (older ++ newer)) →
      -debitSum key (later.map Prod.snd) ≤ deltaSum key later := by
    intro later listed
    induction later with
    | nil => simp [debitSum, deltaSum]
    | cons entry rest ih =>
        obtain ⟨isGenesis, earlier, next, own⟩ :=
          entry_connected connected (listed entry List.mem_cons_self)
        have first := neg_walletDebit_le own key
        have others := ih fun other member => listed other (List.mem_cons_of_mem _ member)
        unfold debitSum deltaSum at others ⊢
        rw [List.map_cons, List.map_cons, List.map_cons, List.sum_cons, List.sum_cons]
        linarith
  have change := moved (chainEntries newer) fun entry member => by
    rw [entries]
    exact List.mem_append_right _ member
  rw [chainEntries_records] at change
  rw [keyBalance, keyBalance, if_neg present, if_neg present, entries, deltaSum_append]
  unfold carryForwardReward
  linarith

/-- Where no hash repeats, the loop adds up every debit. -/
theorem foldl_recentRound (records : List Record) (start : Rat × TextSet)
    (distinct : (records.map Record.hash).Nodup)
    (fresh : ∀ record ∈ records, record.hash ∉ start.2) :
    (records.foldl (recentRound key) start).1 = start.1 - debitSum key records := by
  induction records generalizing start with
  | nil => exact (sub_zero _).symm
  | cons record rest ih =>
      rw [List.map_cons, List.nodup_cons] at distinct
      have own := fresh record List.mem_cons_self
      rw [List.foldl_cons, recentRound, if_neg fun known => own known.2, ih _ distinct.2]
      · rw [negativeRound_eq, debitSum, debitSum, List.map_cons, List.sum_cons]
        ring
      · intro other member known
        have old := fresh other (List.mem_cons_of_mem _ member)
        dsimp only at known
        split at known
        · rw [Std.ExtTreeSet.mem_insert, Std.LawfulEqCmp.compare_eq_iff_eq] at known
          cases known with
          | inl same => exact distinct.1 (List.mem_map.mpr ⟨other, member, same.symm⟩)
          | inr kept => exact old kept
        · exact old known

theorem foldl_recentBlock (stop : Int) (blocks : List Block) (start : Rat × TextSet) :
    blocks.foldl (recentBlock key stop) start =
      ((blocks.filter (fun block => decide (stop < block.number))).flatMap Block.records).foldl
        (recentRound key) start := by
  induction blocks generalizing start with
  | nil => rfl
  | cons block rest ih =>
      rw [List.foldl_cons, ih, recentBlock]
      by_cases recent : stop < block.number
      · rw [if_pos recent, List.filter_cons_of_pos (by simpa using recent), List.flatMap_cons,
          List.foldl_append]
      · rw [if_neg recent, List.filter_cons_of_neg (by simpa using recent)]

theorem walk_of_canonical (canonical : CanonicalChain env db chain) :
    walk env db (fun _ => false) (fun number => decide (number = getLatestBlockId db)) walkGuard
        (getBlock env db (getFirstBlockId db)) = ledgerBlocks (-1) chain := by
  have visited := visitedBlocks_of_canonical canonical (-1)
  have unset : ¬ (0 : Int) < -1 := by decide
  unfold visitedBlocks buildLatestBlockId at visited
  simp only [unset, false_and, decide_false, if_false] at visited
  exact visited

/-- The recent debits of an accepted chain are those of the blocks above the stop. -/
theorem recentAccepted_eq (canonical : CanonicalChain env db chain) {state : BranchState}
    (connected : connectChain env chain = .ok state) (stop : Int) (present : key ≠ []) :
    recentAcceptedWalletNegativeDelta env db key stop = -debitSum key
      (((ledgerBlocks (-1) chain).filter
        (fun block => decide (stop < block.number))).flatMap Block.records) := by
  obtain ⟨first, latest⟩ := canonical.ends_positive
  obtain ⟨reached, part⟩ := connected_ledgerBlocks canonical.ascending connected (-1)
  have nonempty : key.length ≠ 0 := fun empty => present (List.length_eq_zero_iff.mp empty)
  rw [recentAcceptedWalletNegativeDelta, if_neg (by omega), walk_of_canonical canonical,
    foldl_recentBlock, foldl_recentRound, zero_sub]
  · have distinct := distinct_of_connected part
    have hashes : recordHashes (chainEntries (ledgerBlocks (-1) chain)) =
        ((ledgerBlocks (-1) chain).flatMap Block.records).map Record.hash := by
      rw [← chainEntries_records, List.map_map]
      rfl
    rw [hashes] at distinct
    apply List.Nodup.sublist _ distinct
    exact (List.filter_sublist.flatMap Block.records).map Record.hash
  · intro record _ known
    exact absurd known Std.ExtTreeSet.not_mem_empty

/-- The blocks that a stop cuts off are above it. -/
theorem mem_cut (ascending : Ascending chain) {stop : Int} {newer : List Block}
    (split : ledgerBlocks stop chain ++ newer = ledgerBlocks (-1) chain) {block : Block}
    (member : block ∈ newer) : stop < block.number := by
  have cut : ledgerBlocks stop chain =
      (ledgerBlocks (-1) chain).takeWhile (fun block => !decide (0 < stop ∧ stop < block.number)) := by
    rw [ledgerBlocks, ← blocksUpTo_eq ascending, blocksUpTo, List.take_takeWhile]
    rfl
  have rest : newer = (ledgerBlocks (-1) chain).dropWhile
      (fun block => !decide (0 < stop ∧ stop < block.number)) := by
    have same : ledgerBlocks stop chain ++ newer = ledgerBlocks stop chain ++
        (ledgerBlocks (-1) chain).dropWhile
          (fun block => !decide (0 < stop ∧ stop < block.number)) := by
      rw [split, cut]
      exact List.takeWhile_append_dropWhile.symm
    exact List.append_cancel_left same
  have sorted : newer.Pairwise (fun earlier later => earlier.number < later.number) := by
    have whole := ascending.sorted.sublist (List.take_sublist walkGuard chain)
    change (ledgerBlocks (-1) chain).Pairwise _ at whole
    rw [← split] at whole
    exact (List.pairwise_append.mp whole).2.1
  cases newer with
  | nil => cases member
  | cons first later =>
      have head := List.head?_dropWhile_not
        (fun block : Block => !decide (0 < stop ∧ stop < block.number)) (ledgerBlocks (-1) chain)
      rw [← rest] at head
      simp only [List.head?_cons, Bool.not_eq_eq_eq_not, Bool.not_false, decide_eq_true_eq] at head
      cases List.mem_cons.mp member with
      | inl same =>
          rw [same]
          exact head.2
      | inr after => exact head.2.trans ((List.pairwise_cons.mp sorted).1 block after)

/-- The confirmed balance without the recent debits is at most the balance at the tip. -/
theorem confirmed_le (canonical : CanonicalChain env db chain) {state : BranchState}
    (connected : connectChain env chain = .ok state) (stop : Int) (key : Text) :
    keyBalance env db key (ledgerBlocks stop chain) +
        recentAcceptedWalletNegativeDelta env db key stop ≤
      keyBalance env db key (ledgerBlocks (-1) chain) := by
  by_cases present : key = []
  · rw [keyBalance, keyBalance, if_pos present, if_pos present, recentAcceptedWalletNegativeDelta,
      if_pos (.inr (.inr (List.length_eq_zero_iff.mpr present))), add_zero]
  · obtain ⟨newer, split⟩ := ledgerBlocks_isPrefix canonical.ascending stop
    obtain ⟨reached, part⟩ := connected_ledgerBlocks canonical.ascending connected (-1)
    rw [← split] at part
    have grown := @keyBalance_append env db key _ _ _ part present
    have counted : debitSum key (newer.flatMap Block.records) ≤ debitSum key
        (((ledgerBlocks (-1) chain).filter
          (fun block => decide (stop < block.number))).flatMap Block.records) := by
      have kept : newer.Sublist
          ((ledgerBlocks (-1) chain).filter (fun block => decide (stop < block.number))) := by
        rw [← split, List.filter_append]
        apply List.Sublist.trans _ (List.sublist_append_right _ _)
        rw [List.filter_eq_self.mpr]
        intro block member
        exact decide_eq_true (mem_cut canonical.ascending split member)
      apply ((kept.flatMap Block.records).map (walletDebit key)).sum_le_sum
      intro amount listed
      obtain ⟨record, member, rfl⟩ := List.mem_map.mp listed
      obtain ⟨block, inFilter, inBlock⟩ := List.mem_flatMap.mp member
      have entry : (block, record) ∈ chainEntries (ledgerBlocks stop chain ++ newer) := by
        rw [split]
        exact mem_chainEntries.mpr ⟨(List.mem_filter.mp inFilter).1, inBlock⟩
      obtain ⟨isGenesis, earlier, next, own⟩ := entry_connected part entry
      exact walletDebit_nonneg own key
    rw [recentAccepted_eq canonical connected stop present, ← split] at *
    linarith

/-- The spendable balance is zero, or the balance at the tip covers it together
with the debits of the pending records. -/
theorem spendable_le (canonical : CanonicalChain env store.db chain) {state : BranchState}
    (connected : connectChain env chain = .ok state) (queries : List Query)
    (currentTimeBlock currentBlock : Int) (opened : Bool) (key : Text) :
    (spendableConfirmedBalance env (cacheAfter env store.db queries) currentTimeBlock currentBlock
        opened store key).1 = 0 ∨
      (spendableConfirmedBalance env (cacheAfter env store.db queries) currentTimeBlock
          currentBlock opened store key).1 +
          debitSum key (peekQueueRecords env currentBlock opened store).1 ≤
        keyBalance env store.db key (ledgerBlocks (-1) chain) := by
  have confirmed := confirmed_le canonical connected
    (confirmedStopBlock env store.db walletConfirmationBlocks) key
  rw [spendableConfirmedBalance]
  dsimp only
  rw [build_walletBalance canonical.ascending connected canonical, pendingWalletNegativeDelta_eq]
  split
  · exact .inl rfl
  · right
    unfold debitSum
    linarith

end Safire.RequestHandler
