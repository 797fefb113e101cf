/-
`wallet_history_json`: the history items of a wallet key, and when their net
amounts add up to the balance of the ledger.

The items are modelled up to their printing as JSON.
-/

import Safire.LedgerDeltas
import Safire.Issuance

namespace Safire.RequestHandler

open ChainValidator LedgerState Text

/-! ### The items -/

structure WalletHistoryRecord where
  direction : String
  blockNumber : Int
  recordIndex : Nat
  record : Record
  fromKey : Text
  toKey : Text
  netAmount : Rat

def walletHistoryLimit : Nat := 500

/-- The oldest item leaves a full history. -/
def addWalletHistoryRecord (history : List WalletHistoryRecord) (item : WalletHistoryRecord) :
    List WalletHistoryRecord :=
  let pushed := history ++ [item]
  if walletHistoryLimit < pushed.length then pushed.drop 1 else pushed

def rewardItems (publicKey : Text) (block : Block) (index : Nat) (record : Record) :
    List WalletHistoryRecord :=
  if record.transactionType = .issueCurrency ∧ record.recipientPublicKey = publicKey then
    [⟨"REWARD", block.number, index, record, record.senderPublicKey, record.recipientPublicKey,
      record.amount⟩]
  else []

def transferItems (publicKey : Text) (block : Block) (index : Nat) (record : Record) :
    List WalletHistoryRecord :=
  if record.transactionType = .transferCurrency then
    if record.senderPublicKey = publicKey ∧ record.recipientPublicKey = publicKey then
      [⟨"SELF", block.number, index, record, publicKey, publicKey, 0⟩]
    else if record.senderPublicKey = publicKey then
      [⟨"SENT", block.number, index, record, record.senderPublicKey, record.recipientPublicKey,
        -(record.amount + record.fee)⟩]
    else if record.recipientPublicKey = publicKey then
      [⟨"RECEIVED", block.number, index, record, record.senderPublicKey,
        record.recipientPublicKey, record.amount⟩]
    else []
  else []

def feeItems (publicKey : Text) (block : Block) (index : Nat) (record : Record) :
    List WalletHistoryRecord :=
  if (record.transactionType = .transferCurrency ∨ record.transactionType = .vote) ∧
      block.creatorKey = publicKey ∧ 0 < record.fee then
    [⟨"FEE", block.number, index, record, record.senderPublicKey, block.creatorKey, record.fee⟩]
  else []

def carryForwardItems (publicKey : Text) (block : Block) (index : Nat) (record : Record) :
    List WalletHistoryRecord :=
  if record.transactionType = .carryForward ∧ record.senderPublicKey = publicKey then
    [⟨"CARRY_FORWARD", block.number, index, record, record.senderPublicKey,
      record.recipientPublicKey, record.amount + carryForwardReward⟩]
  else []

/-- What one record adds to the history, in the order of the source. -/
def historyItems (publicKey : Text) (block : Block) (index : Nat) (record : Record) :
    List WalletHistoryRecord :=
  rewardItems publicKey block index record ++ transferItems publicKey block index record ++
    feeItems publicKey block index record ++ carryForwardItems publicKey block index record

/-! ### The walk -/

/-- One round of the record loop: a hash that was met before is skipped. -/
def historyRound (publicKey : Text) (block : Block)
    (progress : List WalletHistoryRecord × TextSet) (indexed : Record × Nat) :
    List WalletHistoryRecord × TextSet :=
  let record := indexed.1
  if 0 < record.hash.length ∧ record.hash ∈ progress.2 then progress
  else
    ((historyItems publicKey block indexed.2 record).foldl addWalletHistoryRecord progress.1,
      if 0 < record.hash.length then progress.2.insert record.hash else progress.2)

def historyBlock (publicKey : Text) (progress : List WalletHistoryRecord × TextSet)
    (block : Block) : List WalletHistoryRecord × TextSet :=
  block.records.zipIdx.foldl (historyRound publicKey block) progress

def walletHistory (env : Env) (db : LevelDb) (publicKey : Text) : List WalletHistoryRecord :=
  let firstBlockId := getFirstBlockId db
  let latestBlockId := getLatestBlockId db
  if firstBlockId < 0 ∨ latestBlockId < 0 then []
  else
    let visited := walk env db (fun _ => false) (fun number => number = latestBlockId) walkGuard
      (getBlock env db firstBlockId)
    (visited.foldl (historyBlock publicKey) ([], ∅)).1

/-- All items of a chain, however many. -/
def chainHistory (publicKey : Text) (chain : List Block) : List WalletHistoryRecord :=
  chain.flatMap (fun block => block.records.zipIdx.flatMap
    (fun indexed => historyItems publicKey block indexed.2 indexed.1))

def netSum (history : List WalletHistoryRecord) : Rat :=
  (history.map WalletHistoryRecord.netAmount).sum

variable {env : Env} {db : LevelDb} {chain : List Block} {publicKey : Text}

theorem foldl_addWalletHistoryRecord (items : List WalletHistoryRecord) :
    ∀ history : List WalletHistoryRecord, history.length + items.length ≤ walletHistoryLimit →
      items.foldl addWalletHistoryRecord history = history ++ items := by
  induction items with
  | nil => exact fun history _ => (List.append_nil history).symm
  | cons item items ih =>
      intro history fits
      rw [List.length_cons] at fits
      have kept : addWalletHistoryRecord history item = history ++ [item] := by
        unfold addWalletHistoryRecord
        dsimp only
        rw [List.length_append, List.length_singleton, if_neg (by omega)]
      rw [List.foldl_cons, kept, ih _ (by rw [List.length_append, List.length_singleton]; omega),
        List.append_assoc, List.singleton_append]

/-! ### The whole history of a chain -/

/-- The records of a chain with their blocks and places. -/
def indexedEntries (chain : List Block) : List (Block × Record × Nat) :=
  chain.flatMap (fun block => block.records.zipIdx.map (fun indexed => (block, indexed)))

theorem indexedEntries_map (chain : List Block) :
    (indexedEntries chain).map (fun entry => (entry.1, entry.2.1)) = chainEntries chain := by
  rw [indexedEntries, chainEntries, List.map_flatMap]
  congr 1
  funext block
  rw [List.map_map]
  nth_rewrite 2 [← List.zipIdx_map_fst 0 block.records]
  rw [List.map_map]
  rfl

theorem chainHistory_eq (publicKey : Text) (chain : List Block) :
    chainHistory publicKey chain = (indexedEntries chain).flatMap
      (fun entry => historyItems publicKey entry.1 entry.2.2 entry.2.1) := by
  rw [chainHistory, indexedEntries, List.flatMap_assoc]
  congr 1
  funext block
  rw [List.flatMap_map]

theorem foldl_historyBlock (publicKey : Text) (blocks : List Block)
    (start : List WalletHistoryRecord × TextSet) :
    blocks.foldl (historyBlock publicKey) start = (indexedEntries blocks).foldl
      (fun progress entry => historyRound publicKey entry.1 progress entry.2) start := by
  rw [indexedEntries, List.foldl_flatMap]
  congr 1
  funext progress block
  rw [historyBlock, List.foldl_map]

/-- Where no hash repeats and the items fit, the walk lists all of them. -/
theorem foldl_historyRound (entries : List (Block × Record × Nat))
    (distinct : (entries.map (fun entry => entry.2.1.hash)).Nodup)
    (fits : (entries.flatMap
      (fun entry => historyItems publicKey entry.1 entry.2.2 entry.2.1)).length ≤
        walletHistoryLimit) :
    (entries.foldl (fun progress entry => historyRound publicKey entry.1 progress entry.2)
        ([], ∅)).1 =
      entries.flatMap (fun entry => historyItems publicKey entry.1 entry.2.2 entry.2.1) ∧
    ∀ hash ∈ (entries.foldl (fun progress entry => historyRound publicKey entry.1 progress entry.2)
        (([], ∅) : List WalletHistoryRecord × TextSet)).2,
      hash ∈ entries.map (fun entry => entry.2.1.hash) := by
  induction entries using List.reverseRecOn with
  | nil =>
      constructor
      · rfl
      · intro hash none
        exact absurd none Std.ExtTreeSet.not_mem_empty
  | append_singleton entries entry ih =>
      rw [List.map_append, List.map_singleton, List.nodup_append] at distinct
      obtain ⟨earlier, -, apart⟩ := distinct
      rw [List.flatMap_append, List.flatMap_singleton, List.length_append] at fits
      obtain ⟨listed, seen⟩ := ih earlier (by omega)
      rw [List.foldl_append, List.foldl_cons, List.foldl_nil, List.flatMap_append,
        List.flatMap_singleton, List.map_append, List.map_singleton, ← listed]
      rw [← listed] at fits
      generalize entries.foldl (fun progress entry => historyRound publicKey entry.1 progress entry.2)
        (([], ∅) : List WalletHistoryRecord × TextSet) = progress at seen fits
      have new : ¬ (0 < entry.2.1.hash.length ∧ entry.2.1.hash ∈ progress.2) := by
        intro again
        exact apart _ (seen _ again.2) _ (List.mem_singleton_self _) rfl
      rw [historyRound, if_neg new]
      constructor
      · exact foldl_addWalletHistoryRecord _ _ fits
      · intro hash member
        dsimp only at member
        split at member
        · rw [Std.ExtTreeSet.mem_insert, Std.LawfulEqCmp.compare_eq_iff_eq] at member
          cases member with
          | inl same => simp [same]
          | inr old => exact List.mem_append_left _ (seen hash old)
        · exact List.mem_append_left _ (seen hash member)

theorem walletHistory_eq_chainHistory (stored : StoredAs env db chain)
    (accepted : Accepts env chain)
    (few : (chainHistory publicKey chain).length ≤ walletHistoryLimit) :
    walletHistory env db publicKey = chainHistory publicKey chain := by
  obtain ⟨present, state, connected⟩ := accepts_iff.mp accepted
  have ascending := ascending_of_accepts accepted
  obtain ⟨first, latest⟩ := ends_of_stored stored accepted
  have visited : walk env db (fun _ => false) (fun number => number = getLatestBlockId db)
      walkGuard (getBlock env db (getFirstBlockId db)) = chain := by
    rw [stored.walk_eq ascending present]
    · exact List.takeWhile_eq_self_iff.mpr fun _ _ => rfl
    · intro tip last
      rw [stored.latest tip last]
      simp
    · intro before parent child after place isLast
      have below := stored.below_latest ascending place
      rw [decide_eq_true_eq] at isLast
      omega
  have hashes : (indexedEntries chain).map (fun entry => entry.2.1.hash) =
      recordHashes (chainEntries chain) := by
    rw [← indexedEntries_map, recordHashes, List.map_map]
    rfl
  rw [chainHistory_eq] at few ⊢
  rw [walletHistory]
  dsimp only
  rw [if_neg (by omega), visited, foldl_historyBlock]
  exact (foldl_historyRound (indexedEntries chain) (hashes ▸ distinct_of_connected connected)
    few).1

/-! ### What one record adds -/

/-- The fees that the ledger charges and the history does not list. -/
def unlistedFee (publicKey : Text) (record : Record) : Rat :=
  if record.senderPublicKey = publicKey ∧
      (record.transactionType = .transferCurrency ∧ record.recipientPublicKey = publicKey ∨
        record.transactionType = .vote) then record.fee
  else 0

/-- The snapshot amounts that the history lists as income. -/
def listedSnapshot (publicKey : Text) (record : Record) : Rat :=
  if record.senderPublicKey = publicKey ∧ record.transactionType = .carryForward then record.amount
  else 0

def carriedBy (publicKey : Text) (entries : List Entry) : Nat :=
  entries.countP (fun entry =>
    entry.2.senderPublicKey = publicKey ∧ entry.2.transactionType = .carryForward)

theorem netSum_append (left right : List WalletHistoryRecord) :
    netSum (left ++ right) = netSum left + netSum right := by
  rw [netSum, netSum, netSum, List.map_append, List.sum_append]

theorem netSum_feeItems (block : Block) (index : Nat) {record : Record} (feeLower : 0 ≤ record.fee)
    (charged : record.transactionType = .transferCurrency ∨ record.transactionType = .vote) :
    netSum (feeItems publicKey block index record) =
      if block.creatorKey = publicKey then record.fee else 0 := by
  unfold feeItems
  by_cases creator : block.creatorKey = publicKey
  · rw [if_pos creator]
    by_cases free : 0 < record.fee
    · rw [if_pos ⟨charged, creator, free⟩]
      simp [netSum]
    · rw [if_neg (fun listed => free listed.2.2), le_antisymm (not_lt.mp free) feeLower]
      rfl
  · rw [if_neg (fun listed => creator listed.2.1), if_neg creator]
    rfl

/-- The items of an accepted record add up to what it moves, with the fees and
snapshots on which the history differs. -/
theorem netSum_historyItems {block : Block} {isGenesis : Bool} {state next : BranchState}
    {record : Record} (connected : Connected env block isGenesis state record next) (index : Nat) :
    netSum (historyItems publicKey block index record) =
      amountDelta block record publicKey + unlistedFee publicKey record +
        listedSnapshot publicKey record +
        carryForwardReward * carriedBy publicKey [(block, record)] := by
  unfold historyItems
  rw [netSum_append, netSum_append, netSum_append]
  cases connected.applied with
  | issue kind lower upper =>
      have amount : issueAmount record = record.amount := by
        rw [issueAmount, if_neg (by rw [not_or, not_lt, not_lt]; exact ⟨upper, lower⟩)]
      by_cases received : record.recipientPublicKey = publicKey
      · simp [rewardItems, transferItems, feeItems, carryForwardItems, netSum, amountDelta,
          unlistedFee, listedSnapshot, carriedBy, kind, amount, received]
      · simp [rewardItems, transferItems, feeItems, carryForwardItems, netSum, amountDelta,
          unlistedFee, listedSnapshot, carriedBy, kind, received]
  | transfer kind positive feeLower =>
      rw [netSum_feeItems block index feeLower (.inl kind)]
      by_cases sent : record.senderPublicKey = publicKey
      · by_cases received : record.recipientPublicKey = publicKey
        · simp [rewardItems, transferItems, carryForwardItems, netSum, amountDelta, unlistedFee,
            listedSnapshot, carriedBy, kind, sent, received]
          ring
        · simp [rewardItems, transferItems, carryForwardItems, netSum, amountDelta, unlistedFee,
            listedSnapshot, carriedBy, kind, sent, received]
          ring
      · by_cases received : record.recipientPublicKey = publicKey
        · simp [rewardItems, transferItems, carryForwardItems, netSum, amountDelta, unlistedFee,
            listedSnapshot, carriedBy, kind, sent, received]
        · simp [rewardItems, transferItems, carryForwardItems, netSum, amountDelta, unlistedFee,
            listedSnapshot, carriedBy, kind, sent, received]
  | vote kind feeLower =>
      rw [netSum_feeItems block index feeLower (.inr kind)]
      by_cases sent : record.senderPublicKey = publicKey
      · simp [rewardItems, transferItems, carryForwardItems, netSum, amountDelta, unlistedFee,
          listedSnapshot, carriedBy, kind, sent]
      · simp [rewardItems, transferItems, carryForwardItems, netSum, amountDelta, unlistedFee,
          listedSnapshot, carriedBy, kind, sent]
  | join kind | joinNamed kind | rename kind | heartBeat kind | strayHeartBeat kind =>
      simp [rewardItems, transferItems, feeItems, carryForwardItems, netSum, amountDelta,
        unlistedFee, listedSnapshot, carriedBy, kind]
  | carryForward kind | carryForwardAgain kind =>
      by_cases sent : record.senderPublicKey = publicKey
      · simp [rewardItems, transferItems, feeItems, carryForwardItems, netSum, amountDelta,
          unlistedFee, listedSnapshot, carriedBy, kind, sent]
      · simp [rewardItems, transferItems, feeItems, carryForwardItems, netSum, amountDelta,
          unlistedFee, listedSnapshot, carriedBy, kind, sent]

/-- The difference between the history and the amounts of the ledger. -/
def overstated (publicKey : Text) (entries : List Entry) : Rat :=
  (entries.map (fun entry => unlistedFee publicKey entry.2 + listedSnapshot publicKey entry.2)).sum

theorem netSum_indexed (entries : List (Block × Record × Nat))
    (connected : ∀ entry ∈ entries, ∃ isGenesis state next,
      Connected env entry.1 isGenesis state entry.2.1 next) :
    netSum (entries.flatMap
        (fun entry => historyItems publicKey entry.1 entry.2.2 entry.2.1)) =
      deltaSum publicKey (entries.map (fun entry => (entry.1, entry.2.1))) +
        overstated publicKey (entries.map (fun entry => (entry.1, entry.2.1))) +
        carryForwardReward *
          carriedBy publicKey (entries.map (fun entry => (entry.1, entry.2.1))) := by
  induction entries with
  | nil => simp [netSum, deltaSum, overstated, carriedBy]
  | cons entry entries ih =>
      obtain ⟨isGenesis, state, next, own⟩ := connected entry List.mem_cons_self
      have rest := ih fun other member => connected other (List.mem_cons_of_mem _ member)
      have split : carriedBy publicKey ((entry.1, entry.2.1) ::
          entries.map (fun entry => (entry.1, entry.2.1))) =
          carriedBy publicKey [(entry.1, entry.2.1)] +
            carriedBy publicKey (entries.map (fun entry => (entry.1, entry.2.1))) := by
        rw [carriedBy, carriedBy, carriedBy, ← List.countP_append]
        rfl
      rw [List.flatMap_cons, netSum_append, netSum_historyItems own, rest, List.map_cons, split,
        deltaSum, deltaSum, overstated, overstated, List.map_cons, List.map_cons, List.sum_cons,
        List.sum_cons]
      push_cast
      ring

theorem netSum_chainHistory {state : BranchState} (connected : connectChain env chain = .ok state) :
    netSum (chainHistory publicKey chain) =
      deltaSum publicKey (chainEntries chain) + overstated publicKey (chainEntries chain) +
        carryForwardReward * carriedBy publicKey (chainEntries chain) := by
  rw [chainHistory_eq, ← indexedEntries_map chain]
  apply @netSum_indexed env
  intro entry member
  have listed : (entry.1, entry.2.1) ∈ chainEntries chain := by
    rw [← indexedEntries_map chain]
    exact List.mem_map_of_mem member
  exact entry_connected connected listed

/-! ### When the history adds up -/

/-- The ledger credits no more carry-forward records of a sender than there are. -/
theorem openedBy_le_carriedBy (snapshotMatches : Record → Bool) (entries : List Entry) :
    openedBy snapshotMatches publicKey entries ≤ carriedBy publicKey entries := by
  induction entries using List.reverseRecOn with
  | nil => exact le_rfl
  | append_singleton entries entry ih =>
      rw [openedBy_snoc, carriedBy, List.countP_append]
      by_cases credited : Opens snapshotMatches entries entry.2 ∧
          entry.2.senderPublicKey = publicKey
      · have counted : [entry].countP (fun entry => decide
            (entry.2.senderPublicKey = publicKey ∧ entry.2.transactionType = .carryForward)) = 1 := by
          simp [credited.2, credited.1.1]
        rw [if_pos credited, counted]
        exact Nat.add_le_add_right ih 1
      · rw [if_neg credited]
        exact ih.trans (Nat.le_add_right _ _)

/-- The wallet pays no fee to itself or for a vote, its carry-forward records have
amount zero and are all credited, and the empty key receives nothing. -/
structure HistoryComplete (env : Env) (db : LevelDb) (publicKey : Text) (chain : List Block) :
    Prop where
  named : publicKey = [] → NoLostTransfers chain
  fees : ∀ entry ∈ chainEntries chain, unlistedFee publicKey entry.2 = 0
  snapshots : ∀ entry ∈ chainEntries chain, listedSnapshot publicKey entry.2 = 0
  credited : openedBy (LedgerState.carryForwardSnapshotMatches env db) publicKey (chainEntries chain) =
    carriedBy publicKey (chainEntries chain)

theorem unlisted_nonneg {block : Block} {isGenesis : Bool} {state next : BranchState}
    {record : Record} (connected : Connected env block isGenesis state record next) :
    0 ≤ unlistedFee publicKey record ∧ 0 ≤ listedSnapshot publicKey record := by
  unfold unlistedFee listedSnapshot
  cases connected.applied with
  | issue kind | join kind | joinNamed kind | rename kind | heartBeat kind | strayHeartBeat kind =>
      simp [kind]
  | transfer kind positive feeLower =>
      simp only [kind]
      constructor
      · split
        · exact feeLower
        · exact le_rfl
      · simp
  | vote kind feeLower =>
      simp only [kind]
      constructor
      · split
        · exact feeLower
        · exact le_rfl
      · simp
  | carryForward kind wellFormed | carryForwardAgain kind wellFormed =>
      simp only [kind]
      constructor
      · simp
      · split
        · exact wellFormed.1
        · exact le_rfl

theorem overstated_nonneg {state : BranchState} (connected : connectChain env chain = .ok state) :
    ∀ amount ∈ (chainEntries chain).map
        (fun entry => unlistedFee publicKey entry.2 + listedSnapshot publicKey entry.2),
      0 ≤ amount := by
  intro amount member
  obtain ⟨entry, listed, rfl⟩ := List.mem_map.mp member
  obtain ⟨_, _, _, own⟩ := entry_connected connected listed
  obtain ⟨fee, snapshot⟩ := @unlisted_nonneg env publicKey _ _ _ _ _ own
  exact add_nonneg fee snapshot

theorem overstated_eq_zero_iff {state : BranchState}
    (connected : connectChain env chain = .ok state) :
    overstated publicKey (chainEntries chain) = 0 ↔
      (∀ entry ∈ chainEntries chain, unlistedFee publicKey entry.2 = 0) ∧
        ∀ entry ∈ chainEntries chain, listedSnapshot publicKey entry.2 = 0 := by
  rw [overstated, sum_eq_zero_iff_of_nonneg (overstated_nonneg connected)]
  constructor
  · intro zero
    have both : ∀ entry ∈ chainEntries chain,
        unlistedFee publicKey entry.2 = 0 ∧ listedSnapshot publicKey entry.2 = 0 := by
      intro entry listed
      obtain ⟨_, _, _, own⟩ := entry_connected connected listed
      obtain ⟨fee, snapshot⟩ := @unlisted_nonneg env publicKey _ _ _ _ _ own
      have total := zero _ (List.mem_map_of_mem listed)
      constructor
      · linarith
      · linarith
    exact ⟨fun entry listed => (both entry listed).1, fun entry listed => (both entry listed).2⟩
  · intro zero amount member
    obtain ⟨entry, listed, rfl⟩ := List.mem_map.mp member
    rw [zero.1 entry listed, zero.2 entry listed, add_zero]

/-- The empty key sends nothing and creates no block; it only receives. -/
theorem history_of_empty_key {state : BranchState} (connected : connectChain env chain = .ok state) :
    deltaSum [] (chainEntries chain) = lostAmount (chainEntries chain) ∧
      (∀ entry ∈ chainEntries chain, unlistedFee [] entry.2 = 0) ∧
      (∀ entry ∈ chainEntries chain, listedSnapshot [] entry.2 = 0) ∧
      carriedBy [] (chainEntries chain) = 0 := by
  have signed : ∀ entry ∈ chainEntries chain, entry.2.senderPublicKey ≠ [] := by
    intro entry listed
    obtain ⟨_, _, _, own⟩ := entry_connected connected listed
    exact signed_of_connected own
  constructor
  · rw [deltaSum, lostAmount]
    congr 1
    apply List.map_congr_left
    intro entry listed
    have sender := signed entry listed
    have creator : entry.1.creatorKey ≠ [] :=
      creators_of_connected connected _ (mem_chainEntries.mp listed).1
    obtain ⟨_, _, _, own⟩ := entry_connected connected listed
    cases own.applied with
    | issue kind _ _ _ toCreator => simp [amountDelta, kind, toCreator, creator]
    | transfer kind | vote kind | join kind | joinNamed kind | rename kind | heartBeat kind
    | strayHeartBeat kind | carryForward kind | carryForwardAgain kind =>
        simp [amountDelta, kind, sender, creator]
  constructor
  · intro entry listed
    exact if_neg fun own => signed entry listed own.1
  constructor
  · intro entry listed
    exact if_neg fun own => signed entry listed own.1
  · apply List.countP_eq_zero.mpr
    intro entry listed
    simp [signed entry listed]

/-- The net amounts of the history are the balance of the ledger, if and only if
the history is complete. -/
theorem history_adds_up_iff (accepted : Accepts env chain) (stored : StoredAs env db chain)
    (few : (chainHistory publicKey chain).length ≤ walletHistoryLimit) (queries : List Query)
    (now : Int) (wallet : Text) :
    netSum (walletHistory env db publicKey) =
        (build env db (cacheAfter env db queries) now wallet (-1)).1.balances.getD publicKey 0 ↔
      HistoryComplete env db publicKey chain := by
  obtain ⟨-, state, connected⟩ := accepts_iff.mp accepted
  have history : netSum (walletHistory env db publicKey) = _ :=
    (congrArg netSum (walletHistory_eq_chainHistory stored accepted few)).trans
      (netSum_chainHistory connected)
  have finished := (finish_amounts (walkedProgress env db wallet (-1) chain) wallet now).1
    publicKey
  have ledger : (build env db (cacheAfter env db queries) now wallet (-1)).1.balances.getD
      publicKey 0 = (walkedProgress env db wallet (-1) chain).result.balances.getD publicKey 0 := by
    rw [build_of_stored stored accepted, computeState_of_stored stored accepted now wallet
      (.inl (by decide))]
    exact finished
  rw [history, ledger]
  by_cases empty : publicKey = []
  · subst empty
    obtain ⟨lost, fees, snapshots, carried⟩ := history_of_empty_key connected
    have related := amountsRelated_of_connected connected
      (LedgerState.carryForwardSnapshotMatches env db) wallet (getFirstBlockId db)
      (buildLatestBlockId db (-1))
    have opened : openedBy (LedgerState.carryForwardSnapshotMatches env db) []
        (chainEntries chain) = 0 :=
      Nat.le_zero.mp (carried ▸ openedBy_le_carriedBy _ _)
    have nothing : (walkedProgress env db wallet (-1) chain).result.balances.getD [] 0 = 0 :=
      related.emptyKey.1
    rw [nothing, lost, (overstated_eq_zero_iff connected).mpr ⟨fees, snapshots⟩, carried,
      Nat.cast_zero, mul_zero, add_zero, add_zero, lostAmount_eq_zero_iff connected]
    constructor
    · intro kept
      exact ⟨fun _ => kept, fees, snapshots, opened.trans carried.symm⟩
    · intro complete
      exact complete.named rfl
  · have summed := balancesSummed_of_connected connected
      (LedgerState.carryForwardSnapshotMatches env db) wallet (getFirstBlockId db)
      (buildLatestBlockId db (-1)) publicKey empty
    have balance : (walkedProgress env db wallet (-1) chain).result.balances.getD publicKey 0 = _ :=
      summed
    have nonneg : 0 ≤ overstated publicKey (chainEntries chain) :=
      List.sum_nonneg (overstated_nonneg connected)
    have fewer : (openedBy (LedgerState.carryForwardSnapshotMatches env db) publicKey
        (chainEntries chain) : Rat) ≤ carriedBy publicKey (chainEntries chain) :=
      Nat.cast_le.mpr (openedBy_le_carriedBy _ _)
    rw [balance, carryForwardReward]
    constructor
    · intro same
      have zero : overstated publicKey (chainEntries chain) = 0 := by linarith
      obtain ⟨fees, snapshots⟩ := (overstated_eq_zero_iff connected).mp zero
      have credited : (openedBy (LedgerState.carryForwardSnapshotMatches env db) publicKey
          (chainEntries chain) : Rat) = carriedBy publicKey (chainEntries chain) := by linarith
      exact ⟨fun none => absurd none empty, fees, snapshots, Nat.cast_injective credited⟩
    · intro complete
      rw [(overstated_eq_zero_iff connected).mpr ⟨complete.fees, complete.snapshots⟩,
        complete.credited]
      ring

theorem carry_history_short :
    (chainHistory Sample.sender [Sample.genesis, Sample.carryBlock]).length ≤
      walletHistoryLimit := by
  decide

/-- A carry-forward record of one coin is listed with its snapshot and its reward. -/
theorem carry_history_differs :
    Accepts Sample.env [Sample.genesis, Sample.carryBlock] ∧
      StoredAs Sample.env carryStore [Sample.genesis, Sample.carryBlock] ∧
      (chainHistory Sample.sender [Sample.genesis, Sample.carryBlock]).length ≤
        walletHistoryLimit ∧
      netSum (walletHistory Sample.env carryStore Sample.sender) ≠
        (build Sample.env carryStore ∅ 0 [] (-1)).1.balances.getD Sample.sender 0 := by
  refine ⟨accepts_carryBlock, storedAs_carryStore, carry_history_short, fun same => ?_⟩
  have complete : HistoryComplete Sample.env carryStore Sample.sender
      [Sample.genesis, Sample.carryBlock] := by
    apply (history_adds_up_iff accepts_carryBlock storedAs_carryStore carry_history_short [] 0
      []).mp
    rw [cacheAfter_nil]
    exact same
  have listed : (Sample.carryBlock, Sample.carryFirst) ∈
      chainEntries [Sample.genesis, Sample.carryBlock] := by
    apply mem_chainEntries.mpr
    constructor
    · simp
    · exact List.mem_iff_getElem?.mpr ⟨0, rfl⟩
  have zero := complete.snapshots _ listed
  rw [listedSnapshot, if_pos ⟨rfl, rfl⟩] at zero
  exact one_ne_zero zero

theorem history_of_carryStore :
    netSum (walletHistory Sample.env carryStore Sample.sender) =
        (build Sample.env carryStore (cacheAfter Sample.env carryStore []) 0 []
          (-1)).1.balances.getD Sample.sender 0 ↔
      HistoryComplete Sample.env carryStore Sample.sender [Sample.genesis, Sample.carryBlock] :=
  history_adds_up_iff accepts_carryBlock storedAs_carryStore carry_history_short [] 0 []

end Safire.RequestHandler
