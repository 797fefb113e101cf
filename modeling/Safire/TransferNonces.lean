/-
The nonce that a wallet chooses for its next transfer.

The wallet takes one more than the largest nonce that the ledger or a pending
transfer of the account shows. The builder needs an unbroken sequence in the
order of the queue. Nobody checks the signature of a pending record, so the two
meet only where the queue holds the numbers in between.
-/

import Safire.BlockAssembly
import Safire.CarryForward
import Safire.LedgerCoverage
import Safire.Library.Sequence
import Safire.SubmittedRecords

namespace Safire.TransferNonces

open BlockBuilder ChainValidator LedgerState Mempool Text

variable {env : Env} {db : LevelDb} {chain : List Block} {store : PendingStore} {key : Text}

/-! ### The choice -/

/-- A transfer that names the account as its sender. -/
def TransferBy (key : Text) (record : Record) : Prop :=
  record.transactionType = .transferCurrency ∧ record.senderPublicKey = key

instance (key : Text) (record : Record) : Decidable (TransferBy key record) :=
  inferInstanceAs (Decidable (_ ∧ _))

def largestNonce (publicKey : Text) (nonce : Int) (records : List Record) : Int :=
  records.foldl
    (fun nonce record =>
      if TransferBy publicKey record ∧ nonce < record.nonce then record.nonce else nonce) nonce

/-- The nonce that is chosen, with the mempool after the queue was read. -/
def nextTransferNonce (env : Env) (cache : Cache) (currentTimeBlock currentBlock : Int)
    (opened : Bool) (store : PendingStore) (publicKey : Text) : Int × PendingStore :=
  let ledgerState := (build env store.db cache currentTimeBlock [] (-1)).1
  let (records, after) := peekQueueRecords env currentBlock opened store
  (largestNonce publicKey (ledgerState.nonces.getD publicKey 0) records + 1, after)

theorem largestNonce_cons (nonce : Int) (record : Record) (rest : List Record) :
    largestNonce key nonce (record :: rest) = largestNonce key
      (if TransferBy key record ∧ nonce < record.nonce then record.nonce else nonce) rest := rfl

theorem le_largestNonce (nonce : Int) (records : List Record) :
    nonce ≤ largestNonce key nonce records := by
  induction records generalizing nonce with
  | nil => exact le_refl nonce
  | cons record rest ih =>
      rw [largestNonce_cons]
      split
      · rename_i raised
        exact raised.2.le.trans (ih record.nonce)
      · exact ih nonce

/-- The largest nonce stays below a bound exactly when all of them do. -/
theorem largestNonce_lt_iff {nonce bound : Int} {records : List Record} :
    largestNonce key nonce records < bound ↔
      nonce < bound ∧ ∀ record ∈ records, TransferBy key record → record.nonce < bound := by
  induction records generalizing nonce with
  | nil =>
      change nonce < bound ↔ _
      simp
  | cons record rest ih =>
      rw [largestNonce_cons, ih, List.forall_mem_cons]
      by_cases raised : TransferBy key record ∧ nonce < record.nonce
      · rw [if_pos raised]
        constructor
        · intro below
          exact ⟨raised.2.trans below.1, fun _ => below.1, below.2⟩
        · intro below
          exact ⟨below.2.1 raised.1, below.2.2⟩
      · rw [if_neg raised]
        constructor
        · intro below
          refine ⟨below.1, fun own => ?_, below.2⟩
          exact (not_lt.mp fun above => raised ⟨own, above⟩).trans_lt below.1
        · intro below
          exact ⟨below.1, below.2.2⟩

/-! ### The nonces of the ledger -/

def nonceRound (progress : TextMap Int × TextSet) (record : Record) : TextMap Int × TextSet :=
  if 0 < record.hash.length ∧ record.hash ∈ progress.2 then progress
  else
    (if record.transactionType = .transferCurrency then raiseNonce progress.1 record
      else progress.1,
      if 0 < record.hash.length then progress.2.insert record.hash else progress.2)

/-- The part of the ledger's fold that its nonces depend on. -/
def foldNonces (blocks : List Block) : TextMap Int :=
  ((chainEntries blocks).foldl (fun progress entry => nonceRound progress entry.2) (∅, ∅)).1

section Walk

variable (snapshotMatches : Record → Bool) (wallet : Text)

theorem applyMembership_nonces (progress : Progress) (block : Block) (record : Record) :
    (applyMembership snapshotMatches wallet progress block record).result.nonces =
        progress.result.nonces ∧
      (applyMembership snapshotMatches wallet progress block record).result.acceptedRecordHashes =
        progress.result.acceptedRecordHashes := by
  unfold applyMembership
  split_ifs
  · unfold applyJoin
    dsimp only
    split_ifs <;> exact ⟨rfl, rfl⟩
  · exact ⟨rfl, rfl⟩
  · exact ⟨rfl, rfl⟩
  · unfold applyCarryForward
    dsimp only
    split_ifs <;> exact ⟨rfl, rfl⟩
  · exact ⟨rfl, rfl⟩

theorem recordRound_nonces (block : Block) (progress : Progress) (record : Record) :
    ((recordRound snapshotMatches wallet block progress record).result.nonces,
        (recordRound snapshotMatches wallet block progress record).result.acceptedRecordHashes) =
      nonceRound (progress.result.nonces, progress.result.acceptedRecordHashes) record := by
  unfold recordRound nonceRound
  by_cases known : 0 < record.hash.length ∧ record.hash ∈ progress.result.acceptedRecordHashes
  · rw [if_pos known, if_pos known]
  · rw [if_neg known, if_neg known]
    dsimp only [applyRecord, applyAmounts]
    obtain ⟨nonces, hashes⟩ := applyMembership_nonces snapshotMatches wallet
      { progress with
        result := { progress.result with
          acceptedRecordHashes :=
            if 0 < record.hash.length then
              progress.result.acceptedRecordHashes.insert record.hash
            else progress.result.acceptedRecordHashes } } block record
    rw [nonces, hashes]

theorem walkEntries_nonces (start : Progress) (entries : List Entry) :
    ((walkEntries snapshotMatches wallet start entries).result.nonces,
        (walkEntries snapshotMatches wallet start entries).result.acceptedRecordHashes) =
      entries.foldl (fun progress entry => nonceRound progress entry.2)
        (start.result.nonces, start.result.acceptedRecordHashes) := by
  induction entries generalizing start with
  | nil => rfl
  | cons entry rest ih =>
      rw [List.foldl_cons, ← recordRound_nonces snapshotMatches wallet entry.1]
      exact ih _

end Walk

theorem build_nonces (canonical : CanonicalChain env db chain) (queries : List Query)
    (now : Int) (wallet : Text) (stop : Int) :
    (build env db (cacheAfter env db queries) now wallet stop).1.nonces =
      foldNonces ((blocksAtMost stop chain).take walkGuard) := by
  rw [build_of_canonical canonical]
  change (finish (walkedProgress env db wallet stop _) wallet now).nonces = _
  rw [(finish_amounts _ wallet now).2]
  exact congrArg Prod.fst (walkEntries_nonces _ wallet _ _)

theorem foldNonces_nonneg {state : BranchState} (connected : connectChain env chain = .ok state)
    (key : Text) : 0 ≤ (foldNonces chain).getD key 0 := by
  have bound := (amountsRelated_of_connected connected (fun _ => false) [] 0 0).nonces.nonnegative key
  have same := congrArg Prod.fst
    (walkEntries_nonces (fun _ => false) [] (.start 0 0) (chainEntries chain))
  dsimp only at same
  rw [same] at bound
  exact bound

/-- A ledger that stops at the tip covers the blocks of one that does not stop. -/
theorem blocksAtMost_latest (canonical : CanonicalChain env db chain) :
    blocksAtMost (getLatestBlockId db) chain = chain := by
  have last := List.getLast?_eq_some_getLast canonical.present
  rw [List.getLast?_eq_getElem?] at last
  rw [canonical.latest _ (List.getLast?_eq_some_getLast canonical.present),
    blocksAtMost_of_place canonical.ascending last]
  exact List.take_of_length_le (by omega)

/-- The wallet and the builder read the same nonces. -/
theorem start_nonces {built : PendingStore} (canonical : CanonicalChain env store.db chain)
    (same : SameChain store.db built.db) (queries queries' : List Query) (now now' : Int) :
    (build env built.db (cacheAfter env built.db queries') now' []
        (getLatestBlockId built.db)).1.nonces =
      (build env store.db (cacheAfter env store.db queries) now [] (-1)).1.nonces := by
  have moved := CarryForward.CanonicalChain.sameChain canonical same
  rw [build_nonces canonical, build_nonces moved, blocksAtMost_latest moved]
  rfl

/-! ### The builder's pass -/

/-- The pass reaches the transfer with the expected nonce equal to its own. -/
def ReachedInTurn (start : Assembly) (before : List Record) (record : Record) : Prop :=
  (includeQueue start before).pending.nonces.getD record.senderPublicKey 0 + 1 = record.nonce

/-- The positive nonces that the transfers of an account claim, in order. -/
def claimedNonces (key : Text) (records : List Record) : List Int :=
  (records.filter (fun record => decide (TransferBy key record ∧ 0 < record.nonce))).map
    Record.nonce

/-- The claimed nonces of the transfers that the account can pay for when they are reached. -/
def affordedNonces (key : Text) : PendingState → List Record → List Int
  | _, [] => []
  | pending, record :: rest =>
      (if (TransferBy key record ∧ 0 < record.nonce) ∧ Affords pending record then [record.nonce]
        else []) ++ affordedNonces key (includePendingTransfer record pending).2 rest

theorem claimedNonces_cons (record : Record) (rest : List Record) :
    claimedNonces key (record :: rest) =
      (if TransferBy key record ∧ 0 < record.nonce then [record.nonce] else []) ++
        claimedNonces key rest := by
  unfold claimedNonces
  by_cases claims : TransferBy key record ∧ 0 < record.nonce
  · rw [if_pos claims, List.filter_cons, if_pos (decide_eq_true claims)]
    rfl
  · rw [if_neg claims, List.filter_cons, if_neg (by simpa using claims)]
    rfl

theorem includeRound_nonce (assembly : Assembly) (record : Record) :
    (includeRound assembly record).pending.nonces.getD key 0 =
      Sequence.advance (assembly.pending.nonces.getD key 0)
        (if (TransferBy key record ∧ 0 < record.nonce) ∧ Affords assembly.pending record then
          [record.nonce] else []) := by
  rw [includeRound_accounts]
  by_cases taken : Taken assembly.pending record
  · obtain ⟨transfers, positive, follows, affords⟩ := taken
    rw [if_pos ⟨transfers, positive, follows, affords⟩, PendingState.take_nonce]
    by_cases own : record.senderPublicKey = key
    · rw [if_pos own, if_pos ⟨⟨⟨transfers, own⟩, positive⟩, affords⟩]
      change record.nonce = Sequence.follow _ record.nonce
      rw [← own, Sequence.follow, if_pos follows]
    · rw [if_neg own, if_neg fun claims => own claims.1.1.2]
      rfl
  · rw [if_neg taken]
    split
    · rename_i claims
      obtain ⟨⟨⟨transfers, own⟩, positive⟩, affords⟩ := claims
      change _ = Sequence.follow _ record.nonce
      rw [Sequence.follow, if_neg]
      intro follows
      rw [← own] at follows
      exact taken ⟨transfers, positive, follows, affords⟩
    · rfl

/-- The pass counts up along the nonces that the account affords. -/
theorem includeQueue_nonce (assembly : Assembly) (records : List Record) :
    (includeQueue assembly records).pending.nonces.getD key 0 =
      Sequence.advance (assembly.pending.nonces.getD key 0)
        (affordedNonces key assembly.pending records) := by
  induction records generalizing assembly with
  | nil => rfl
  | cons record rest ih =>
      rw [includeQueue_cons, ih, affordedNonces, Sequence.advance_append, ← includeRound_nonce,
        includeRound_pending]

/-- The most that a record in the queue can take from the account. An amount may be negative. -/
def outflow (key : Text) (record : Record) : Rat :=
  if record.transactionType ≠ .transferCurrency then 0
  else if record.senderPublicKey = key then max 0 (transferDebit record)
  else if record.recipientPublicKey = key then max 0 (-record.amount)
  else 0

/-- The account can pay for everything that the records can take from it. -/
def Sufficient (key : Text) (pending : PendingState) (records : List Record) : Prop :=
  (records.map (outflow key)).sum ≤ pending.balances.getD key 0 + balanceTolerance

theorem outflow_nonneg (key : Text) (record : Record) : 0 ≤ outflow key record := by
  unfold outflow
  split_ifs
  · exact le_refl 0
  · exact le_max_left 0 _
  · exact le_max_left 0 _
  · exact le_refl 0

theorem outflow_sum_nonneg (key : Text) (records : List Record) :
    0 ≤ (records.map (outflow key)).sum := by
  apply List.sum_nonneg
  intro amount listed
  obtain ⟨record, -, rfl⟩ := List.mem_map.mp listed
  exact outflow_nonneg key record

theorem affords_of_sufficient {pending : PendingState} {record : Record} {rest : List Record}
    (sufficient : Sufficient key pending (record :: rest)) (own : TransferBy key record) :
    Affords pending record := by
  have later := outflow_sum_nonneg key rest
  unfold Sufficient at sufficient
  rw [List.map_cons, List.sum_cons] at sufficient
  have debit : transferDebit record ≤ outflow key record := by
    rw [outflow, if_neg (not_not_intro own.1), if_pos own.2]
    exact le_max_right 0 _
  unfold Affords
  rw [own.2]
  linarith

/-- A record takes no more than its outflow. -/
theorem includePendingTransfer_balance (key : Text) (pending : PendingState) (record : Record) :
    pending.balances.getD key 0 - outflow key record ≤
      (includePendingTransfer record pending).2.balances.getD key 0 := by
  rw [includePendingTransfer_eq]
  by_cases taken : Taken pending record
  · rw [if_pos taken, PendingState.take_balance, outflow, if_neg (not_not_intro taken.1)]
    by_cases pays : record.senderPublicKey = key
    · rw [if_pos pays, if_pos pays]
      by_cases self : record.recipientPublicKey = key
      · have loop : record.senderPublicKey = record.recipientPublicKey := pays.trans self.symm
        have fee := le_max_right 0 record.fee
        rw [transferDebit, if_pos self, if_pos loop]
        linarith
      · have apart : record.senderPublicKey ≠ record.recipientPublicKey := by
          intro same
          exact self (same.symm.trans pays)
        have debit := le_max_right 0 (record.amount + record.fee)
        rw [transferDebit, if_neg self, if_neg apart]
        linarith
    · rw [if_neg pays, if_neg pays]
      by_cases receives : record.recipientPublicKey = key
      · have loss := le_max_right 0 (-record.amount)
        rw [if_pos receives, if_pos receives]
        linarith
      · rw [if_neg receives, if_neg receives]
        linarith
  · have amount := outflow_nonneg key record
    rw [if_neg taken]
    linarith

/-- Where the balance suffices, every claimed nonce is affordable. -/
theorem affordedNonces_of_sufficient {pending : PendingState} {records : List Record}
    (sufficient : Sufficient key pending records) :
    affordedNonces key pending records = claimedNonces key records := by
  induction records generalizing pending with
  | nil => rfl
  | cons record rest ih =>
      have later : Sufficient key (includePendingTransfer record pending).2 rest := by
        have moved := includePendingTransfer_balance key pending record
        unfold Sufficient at sufficient ⊢
        rw [List.map_cons, List.sum_cons] at sufficient
        linarith
      rw [affordedNonces, claimedNonces_cons, ih later]
      congr 1
      by_cases claims : TransferBy key record ∧ 0 < record.nonce
      · rw [if_pos claims, if_pos ⟨claims, affords_of_sufficient sufficient claims.1⟩]
      · rw [if_neg claims, if_neg fun both => claims both.1]

/-! ### Reaching the chosen nonce -/

theorem sameChain_apply (store : PendingStore) (submission : Submission) :
    SameChain store.db (submission.apply env store).db := by
  cases submission with
  | api currentBlock opened recordJson =>
      change SameChain store.db (submitRecord env currentBlock opened store recordJson).2.db
      unfold submitRecord
      dsimp only
      split
      · exact SameChain.refl _
      · exact sameChain_addToQueue _ _ _ _
  | queue currentBlock opened record => exact sameChain_addToQueue _ _ _ _

theorem sameChain_runSubmissions (start : PendingStore) (submissions : List Submission) :
    SameChain start.db (runSubmissions env start submissions).db := by
  induction submissions generalizing start with
  | nil => exact SameChain.refl _
  | cons submission rest ih => exact (sameChain_apply start submission).trans (ih _)

/-- Neither the choice nor what is submitted after it touches the chain. -/
theorem sameChain_choice (env : Env) (cache : Cache) (now currentBlock : Int) (opened : Bool)
    (store : PendingStore) (key : Text) (submissions : List Submission) :
    SameChain store.db (runSubmissions env
      (nextTransferNonce env cache now currentBlock opened store key).2 submissions).db :=
  (sameChain_peekQueueRecords env currentBlock opened store).trans
    (sameChain_runSubmissions _ submissions)

/-- The nonce that a wallet chooses fits where every nonce shown is below the
largest one. The builder reaches the transfer in its turn exactly when the
transfers of the account before it claim the numbers in between, in order and as
far as the account can pay, and none claims the chosen number after them. -/
theorem chosen_nonce_usable_iff (env : Env) (store : PendingStore) (chain : List Block)
    (canonical : CanonicalChain env store.db chain) (queries : List Query)
    (now currentBlock : Int) (opened : Bool) (key : Text) :
    let cache := cacheAfter env store.db queries
    let ledgerNonce := (build env store.db cache now [] (-1)).1.nonces.getD key 0
    let choice := nextTransferNonce env cache now currentBlock opened store key
    (choice.1 ≤ longMax ↔ ledgerNonce < longMax ∧
        ∀ pending ∈ (peekQueueRecords env currentBlock opened store).1,
          TransferBy key pending → pending.nonce < longMax) ∧
      ∀ (submissions : List Submission) (buildQueries : List Query) (buildTime buildBlock : Int)
        (buildOpened : Bool) (publicKey : Text) (reward record : Record)
        (before after : List Record),
        let built := runSubmissions env choice.2 submissions
        let start := Assembly.start (build env built.db (cacheAfter env built.db buildQueries)
          buildTime [] (getLatestBlockId built.db)).1 publicKey reward
        (parseQueueRecords env buildBlock buildOpened built).1 = before ++ record :: after →
        TransferBy key record → record.nonce = choice.1 →
        (ReachedInTurn start before record ↔
            Sequence.Reaches ledgerNonce choice.1 (affordedNonces key start.pending before)) ∧
          (Sufficient key start.pending before →
            (ReachedInTurn start before record ↔
              Sequence.Reaches ledgerNonce choice.1 (claimedNonces key before))) := by
  intro cache ledgerNonce choice
  have chosen : choice.1 = largestNonce key ledgerNonce
      (peekQueueRecords env currentBlock opened store).1 + 1 := rfl
  have above : ledgerNonce < choice.1 := by
    rw [chosen]
    exact Int.lt_add_one_of_le (le_largestNonce _ _)
  constructor
  · rw [chosen, Int.add_one_le_iff]
    exact largestNonce_lt_iff
  · intro submissions buildQueries buildTime buildBlock buildOpened publicKey reward record before
      after built start queued own carried
    have same := sameChain_choice env cache now currentBlock opened store key submissions
    have nonce : start.pending.nonces.getD key 0 = ledgerNonce := by
      rw [Assembly.start_nonces, start_nonces canonical same queries buildQueries now buildTime]
    have reached : ReachedInTurn start before record ↔
        Sequence.Reaches ledgerNonce choice.1 (affordedNonces key start.pending before) := by
      rw [← Sequence.advance_eq_iff above, ReachedInTurn, own.2, includeQueue_nonce, nonce, carried]
    constructor
    · exact reached
    · intro sufficient
      rw [reached, affordedNonces_of_sufficient sufficient]

end Safire.TransferNonces

namespace Safire.Sample

open BlockBuilder ChainValidator LedgerState Mempool Text TransferNonces

/-- An unsigned record that names the sender and leaves a gap below its nonce. -/
def gapSpend : Record :=
  { forgedSpend with nonce := 7, hash := [] }

/-- The transfer of the sender with the nonce that is chosen after it. -/
def lateSpend : Record :=
  record .transferCurrency "2" 8 (1 / 2) sender recipient ""
    (hexText 64 0xba26060303e3a394de6cf37c09d63607d9526387b575a62822262d9ed20b2a44)
    0x92a2847cf905c6fc6e7b0052c95d2cce9fed51d5ad35bb395b3e5774f473052aa0d351697e34ab355405ee9e740de75eae7838f850f7fb5d6f60bead9c6171f0

/-- A second transfer of the sender. -/
def nextSpend : Record :=
  { lateSpend with nonce := 2 }

/-- An unsigned record with the largest nonce that can be read. -/
def lastSpend : Record :=
  { forgedSpend with nonce := longMax, hash := [] }

/-- The chain of the genesis block with an empty mempool. -/
def genesisNode : PendingStore :=
  ⟨canonicalStore env genesis [], []⟩

theorem canonical_genesisNode : CanonicalChain env genesisNode.db [genesis] := by
  unfold genesisNode
  dsimp only
  exact storedAs_genesis.canonical (ascending_of_accepts accepts_genesis) (List.cons_ne_nil _ _)

/-- The ledger of the genesis block has no transfer of the sender. -/
theorem genesis_nonce {store : PendingStore} (canonical : CanonicalChain env store.db [genesis]) :
    (build env store.db (cacheAfter env store.db []) 101 [] (-1)).1.nonces.getD sender 0 = 0 := by
  rw [build_nonces canonical]
  decide +kernel

/-- The mempool after one record is submitted. -/
def genesisNodeWith (record : Record) : PendingStore :=
  runSubmissions env genesisNode [.queue 101 true record]

/-- The queues that follow an unsigned record, and the one with two transfers. -/
theorem sample_queues :
    (peekQueueRecords env 101 true (genesisNodeWith spend)).1 = [spend] ∧
      (parseQueueRecords env 101 true (runSubmissions env
        (peekQueueRecords env 101 true (genesisNodeWith spend)).2
          [.queue 101 true nextSpend])).1 = [spend, nextSpend] ∧
      (peekQueueRecords env 101 true (genesisNodeWith lastSpend)).1 = [lastSpend] ∧
      (peekQueueRecords env 101 true (genesisNodeWith gapSpend)).1 = [gapSpend] ∧
      (parseQueueRecords env 101 true (runSubmissions env
        (peekQueueRecords env 101 true (genesisNodeWith gapSpend)).2
          [.queue 101 true lateSpend])).1 = [gapSpend, lateSpend] := by
  refine ⟨?_, ?_, ?_, ?_, ?_⟩ <;> decide +kernel

theorem canonical_genesisNodeWith (record : Record) :
    CanonicalChain env (genesisNodeWith record).db [genesis] :=
  CarryForward.CanonicalChain.sameChain canonical_genesisNode
    (sameChain_runSubmissions genesisNode _)

theorem nextTransferNonce_of_peeked {store : PendingStore} {pending : List Record}
    (canonical : CanonicalChain env store.db [genesis])
    (peeked : (peekQueueRecords env 101 true store).1 = pending) :
    (nextTransferNonce env (cacheAfter env store.db []) 101 101 true store sender).1 =
      largestNonce sender 0 pending + 1 := by
  rw [nextTransferNonce]
  dsimp only
  rw [peeked, genesis_nonce canonical]

/-- The account of the sender has at least the coin of the genesis block. -/
theorem genesis_balance {store : PendingStore}
    (canonical : CanonicalChain env store.db [genesis]) :
    1 ≤ (build env store.db (cacheAfter env store.db []) 101 []
      (getLatestBlockId store.db)).1.balances.getD sender 0 := by
  obtain ⟨-, state, connected⟩ := accepts_iff.mp accepts_genesis
  have alone : [genesis].take walkGuard = [genesis] := List.take_of_length_le (by decide)
  rw [build_of_canonical canonical, blocksAtMost_latest canonical, alone]
  change 1 ≤ (finish (walkedProgress env store.db [] (getLatestBlockId store.db) [genesis]) []
    101).balances.getD sender 0
  have summed := balancesSummed_of_connected connected
    (LedgerState.carryForwardSnapshotMatches env store.db) [] (getFirstBlockId store.db)
    (buildLatestBlockId store.db (getLatestBlockId store.db)) sender (by decide)
  have coins : deltaSum sender (chainEntries [genesis]) = 1 := by decide +kernel
  rw [(finish_amounts _ [] 101).1, walkedProgress, summed, coins]
  have rewards : (0 : Rat) ≤ openedBy (LedgerState.carryForwardSnapshotMatches env store.db) sender
      (chainEntries [genesis]) := Nat.cast_nonneg _
  rw [carryForwardReward]
  linarith

/-- The second transfer of the sender behind the first one. -/
theorem chosen_nonce_of_nextSpend :
    let store := genesisNodeWith spend
    let choice := nextTransferNonce env (cacheAfter env store.db []) 101 101 true store sender
    let built := runSubmissions env choice.2 [.queue 101 true nextSpend]
    choice.1 = 2 ∧ choice.1 ≤ longMax ∧
      ReachedInTurn (Assembly.start (build env built.db (cacheAfter env built.db []) 101 []
        (getLatestBlockId built.db)).1 sender firstReward) [spend] nextSpend := by
  obtain ⟨peeked, queued, -⟩ := sample_queues
  have known := canonical_genesisNodeWith spend
  obtain ⟨fits, usable⟩ := chosen_nonce_usable_iff env (genesisNodeWith spend) [genesis] known
    [] 101 101 true sender
  have chosen := nextTransferNonce_of_peeked known peeked
  have second : largestNonce sender 0 [spend] + 1 = 2 := by decide +kernel
  rw [second] at chosen
  refine ⟨chosen, fits.mpr ?_, ?_⟩
  · rw [genesis_nonce known, peeked]
    refine ⟨by decide, fun pending listed _ => ?_⟩
    rw [List.mem_singleton.mp listed]
    decide
  · refine ((usable [.queue 101 true nextSpend] [] 101 101 true sender firstReward nextSpend [spend]
      [] queued ⟨rfl, rfl⟩ chosen.symm).2 ?_).mpr ?_
    · have moved := CarryForward.CanonicalChain.sameChain known
        (sameChain_choice env (cacheAfter env (genesisNodeWith spend).db []) 101 101 true
          (genesisNodeWith spend) sender [.queue 101 true nextSpend])
      have coins := genesis_balance moved
      have outflows : ([spend].map (outflow sender)).sum = 1 / 2 := by decide +kernel
      have tolerance : 0 ≤ balanceTolerance := by decide +kernel
      have reward : firstReward.amount = 1 := rfl
      rw [Sufficient, outflows, Assembly.start]
      dsimp only
      rw [getD_credit, if_pos rfl, reward]
      linarith
    · rw [chosen, genesis_nonce known, Sequence.Reaches]
      decide +kernel

/-- An unsigned record makes the next transfer unusable, or its nonce too large. -/
theorem unusable_nonces :
    (let store := genesisNodeWith gapSpend
      let choice := nextTransferNonce env (cacheAfter env store.db []) 101 101 true store sender
      let built := runSubmissions env choice.2 [.queue 101 true lateSpend]
      CanonicalChain env store.db [genesis] ∧ lateSpend.nonce = choice.1 ∧
        TransferBy sender lateSpend ∧
        (parseQueueRecords env 101 true built).1 = [gapSpend, lateSpend] ∧
        ∀ publicKey reward, ¬ ReachedInTurn (Assembly.start (build env built.db
          (cacheAfter env built.db []) 101 [] (getLatestBlockId built.db)).1 publicKey reward)
          [gapSpend] lateSpend) ∧
      let store := genesisNodeWith lastSpend
      CanonicalChain env store.db [genesis] ∧
        longMax <
          (nextTransferNonce env (cacheAfter env store.db []) 101 101 true store sender).1 := by
  obtain ⟨-, -, last, gap, late⟩ := sample_queues
  have known := canonical_genesisNodeWith gapSpend
  constructor
  · have chosen := nextTransferNonce_of_peeked known gap
    refine ⟨known, chosen.symm, ⟨rfl, rfl⟩, late, fun publicKey reward reached => ?_⟩
    have same := sameChain_choice env (cacheAfter env (genesisNodeWith gapSpend).db []) 101 101 true
      (genesisNodeWith gapSpend) sender [.queue 101 true lateSpend]
    have own : lateSpend.senderPublicKey = sender := rfl
    have carried : lateSpend.nonce = 8 := rfl
    rw [ReachedInTurn, includeQueue_nonce, own, carried, Assembly.start_nonces,
      start_nonces known same [] [] 101 101, genesis_nonce known, affordedNonces, affordedNonces,
      List.append_nil] at reached
    split at reached
    · exact absurd reached (by decide)
    · exact absurd reached (by decide)
  · refine ⟨canonical_genesisNodeWith lastSpend, ?_⟩
    rw [nextTransferNonce_of_peeked (canonical_genesisNodeWith lastSpend) last]
    decide

end Safire.Sample
