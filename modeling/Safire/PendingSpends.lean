/-
The pending transfers of one account.

The transfers that an account queues in turn carry consecutive nonces, and their
debits stay within its balance. Reading the queue keeps this, queueing one more
transfer that the balance covers keeps it, and a builder that starts from the
balance takes every one of them.
-/

import Safire.QueueOrder
import Safire.TransferNonces

namespace Safire.TransferNonces

open BlockBuilder ChainValidator LedgerState Mempool Text

variable {env : Env} {db : LevelDb} {store : PendingStore} {key : Text} {record : Record}

/-! ### The transfers of an account -/

/-- The transfers of the account among some records. -/
def transfersBy (key : Text) (records : List Record) : List Record :=
  records.filter (fun record => decide (TransferBy key record))

/-- A transfer of the account that the readers keep. -/
def ownedBy (env : Env) (db : LevelDb) (key : Text) (record : Record) : Bool :=
  decide (TransferBy key record) && keeps env 0 db record

/-- The pending transfers of the account, in the order of the queue. -/
def pendingTransfers (env : Env) (db : LevelDb) (key : Text) : List Record :=
  (storedRecords env db).filter (ownedBy env db key)

/-- A record of somebody else that takes nothing from the account, or a vote of
the account that credits it nothing. -/
structure Harmless (key : Text) (record : Record) : Prop where
  received : record.transactionType = .transferCurrency → record.senderPublicKey ≠ key →
    record.recipientPublicKey = key → 0 ≤ record.amount
  voted : record.transactionType = .vote → record.senderPublicKey = key → 0 ≤ record.fee

/-- The mempool shows the account's transfers as the account queued them. -/
structure Spends (env : Env) (key : Text) (balance : Rat) (nonce : Int) (store : PendingStore) :
    Prop where
  sequenced : ∀ entry ∈ selectedKeys (ownedBy env store.db key) env store.db,
    ∃ sequence hash, entry = recordKey sequence hash ∧ 0 ≤ sequence ∧
      sequence < nextSequence store.db
  file : ∀ pending ∈ legacyQueueRecords env 0 store.queueDat, ¬ TransferBy key pending
  others : ∀ pending, PendingRecord env store pending → Harmless key pending
  apart : ∀ own ∈ pendingTransfers env store.db key, ∀ pending, PendingRecord env store pending →
    ownedBy env store.db key pending = false → pending.hash ≠ own.hash
  distinct : ((pendingTransfers env store.db key).map Record.hash).Nodup
  debits : ∀ own ∈ pendingTransfers env store.db key, 0 ≤ transferDebit own
  covered : ((pendingTransfers env store.db key).map transferDebit).sum ≤ balance
  nonces : (pendingTransfers env store.db key).map Record.nonce =
    Sequence.run nonce (pendingTransfers env store.db key).length

theorem transfersBy_cons (record : Record) (rest : List Record) :
    transfersBy key (record :: rest) =
      if TransferBy key record then record :: transfersBy key rest else transfersBy key rest := by
  rw [transfersBy, List.filter_cons]
  simp only [decide_eq_true_eq]
  rfl

theorem transfersBy_append (first second : List Record) :
    transfersBy key (first ++ second) = transfersBy key first ++ transfersBy key second :=
  List.filter_append first second

theorem mem_transfersBy {records : List Record} :
    record ∈ transfersBy key records ↔ record ∈ records ∧ TransferBy key record := by
  rw [transfersBy, List.mem_filter, decide_eq_true_iff]

/-- Only a heartbeat expires, so a transfer is usable at any time or never. -/
theorem usable_transfer (transfers : record.transactionType = .transferCurrency)
    (currentBlock : Int) : pendingRecordLooksUsable env currentBlock record =
      pendingRecordLooksUsable env 0 record := by
  unfold pendingRecordLooksUsable isExpiredHeartbeatRecord
  simp [transfers]

theorem keeps_transfer (transfers : record.transactionType = .transferCurrency)
    (currentBlock : Int) : keeps env currentBlock db record = keeps env 0 db record := by
  rw [keeps, keeps, usable_transfer transfers]

theorem ownedBy_iff : ownedBy env db key record = true ↔
    TransferBy key record ∧ keeps env 0 db record = true := by
  rw [ownedBy, Bool.and_eq_true, decide_eq_true_iff]

theorem ownedBy_sameChain {after : LevelDb} (same : SameChain db after) :
    ownedBy env after key = ownedBy env db key := by
  funext record
  rw [ownedBy, ownedBy, same.keeps]

theorem mem_pendingTransfers : record ∈ pendingTransfers env db key ↔
    Stored env db record ∧ ownedBy env db key record = true := by
  rw [pendingTransfers, List.mem_filter, mem_storedRecords]

/-! ### The queue -/

/-- What a reader returns of the account is what the database keeps of it. -/
theorem ownedBy_of_read {currentBlock : Int}
    (file : ∀ pending ∈ legacyQueueRecords env 0 store.queueDat, ¬ TransferBy key pending)
    (member : record ∈ (readPending env currentBlock true store).1) :
    decide (TransferBy key record) = ownedBy env store.db key record := by
  by_cases own : TransferBy key record
  · cases mem_readPending.mp member with
    | inl stored =>
        rw [keeps_transfer own.1] at stored
        rw [decide_eq_true own, ownedBy_iff.mpr ⟨own, stored.2.2⟩]
    | inr legacy =>
        obtain ⟨line, usable⟩ := mem_legacyQueueRecords.mp legacy
        rw [usable_transfer own.1] at usable
        exact absurd own (file record (mem_legacyQueueRecords.mpr ⟨line, usable⟩))
  · rw [decide_eq_false own, ownedBy, decide_eq_false own, Bool.false_and]

theorem Spends.queue {balance : Rat} {nonce : Int} (spends : Spends env key balance nonce store)
    (currentBlock : Int) :
    transfersBy key (peekQueueRecords env currentBlock true store).1 =
      pendingTransfers env store.db key := by
  have read : (readPending env currentBlock true store).1.filter (ownedBy env store.db key) =
      pendingTransfers env store.db key := by
    apply filter_readPending
    · intro pending _ own
      rw [ownedBy_iff] at own
      exact (keeps_transfer own.1.1 currentBlock).trans own.2
    · intro line listed
      apply Bool.eq_false_of_not_eq_true
      intro own
      rw [ownedBy_iff] at own
      exact spends.file _ (mem_legacyQueueRecords.mpr ⟨⟨line, listed, rfl⟩, keeps_usable own.2⟩)
        own.1
  have same : ∀ pending ∈ (peekQueueRecords env currentBlock true store).1,
      decide (TransferBy key pending) = ownedBy env store.db key pending :=
    fun pending member => ownedBy_of_read spends.file (mem_of_dedupe member)
  rw [transfersBy, List.filter_congr same, peekQueueRecords_records, filter_dedupe, read]
  · intro own member selected pending listed other
    apply spends.apart own _ pending (pending_of_read listed) other
    rw [← read]
    exact List.mem_filter.mpr ⟨member, selected⟩
  · rw [read]
    exact spends.distinct

/-- Only the account's own transfers count for the nonce that it chooses. -/
theorem largestNonce_transfersBy (nonce : Int) (records : List Record) :
    largestNonce key nonce records = largestNonce key nonce (transfersBy key records) := by
  induction records generalizing nonce with
  | nil => rfl
  | cons record rest ih =>
      rw [transfersBy_cons, largestNonce_cons, ih]
      by_cases own : TransferBy key record
      · rw [if_pos own, largestNonce_cons]
      · rw [if_neg own, if_neg fun raised => own raised.1]

theorem largestNonce_run {nonce : Int} {records : List Record}
    (own : ∀ record ∈ records, TransferBy key record)
    (nonces : records.map Record.nonce = Sequence.run nonce records.length) :
    largestNonce key nonce records = nonce + records.length := by
  induction records generalizing nonce with
  | nil => exact (Int.add_zero nonce).symm
  | cons record rest ih =>
      rw [List.map_cons, List.length_cons, Sequence.run] at nonces
      obtain ⟨head, later⟩ := List.cons.inj nonces
      have raised : nonce < record.nonce := by omega
      rw [largestNonce_cons, if_pos ⟨own record List.mem_cons_self, raised⟩, head,
        ih (fun other member => own other (List.mem_cons_of_mem _ member)) later, List.length_cons]
      omega

/-- The next nonce is the one after those of the pending transfers. -/
theorem Spends.nextNonce {balance : Rat} {nonce : Int} (spends : Spends env key balance nonce store)
    {cache : Cache} {currentTimeBlock : Int}
    (ledger : (build env store.db cache currentTimeBlock [] (-1)).1.nonces.getD key 0 = nonce)
    (currentBlock : Int) :
    (nextTransferNonce env cache currentTimeBlock currentBlock true store key).1 =
      nonce + (pendingTransfers env store.db key).length + 1 := by
  rw [nextTransferNonce]
  dsimp only
  rw [ledger, largestNonce_transfersBy, spends.queue, largestNonce_run _ spends.nonces]
  intro record member
  exact (ownedBy_iff.mp (mem_pendingTransfers.mp member).2).1

/-- A mempool without transfers of the account, and without records that hurt it. -/
theorem spends_of_harmless {balance : Rat} (nonce : Int) (solvent : 0 ≤ balance)
    (foreign : ∀ pending, PendingRecord env store pending →
      Harmless key pending ∧ ¬ TransferBy key pending) :
    Spends env key balance nonce store := by
  have none : pendingTransfers env store.db key = [] := by
    apply List.eq_nil_iff_forall_not_mem.mpr
    intro own member
    rw [mem_pendingTransfers, ownedBy_iff] at member
    exact (foreign own (.inl member.1)).2 member.2.1
  constructor
  · intro entry member
    obtain ⟨isRecord, own, read, selected⟩ := mem_selectedKeys.mp member
    have stored : Stored env store.db own := by
      rw [recordAt, Option.map_eq_some_iff] at read
      obtain ⟨json, present, parsed⟩ := read
      exact ⟨entry, json, isRecord, present, parsed⟩
    rw [ownedBy_iff] at selected
    exact absurd selected.1 (foreign own (.inl stored)).2
  · intro pending member
    exact (foreign pending (.inr (mem_legacyQueueRecords.mp member).1)).2
  · exact fun pending held => (foreign pending held).1
  · rw [none]
    exact fun own member => absurd member List.not_mem_nil
  · rw [none]
    exact List.nodup_nil
  · rw [none]
    exact fun own member => absurd member List.not_mem_nil
  · rw [none]
    exact solvent
  · rw [none]
    rfl

/-! ### What keeps the transfers -/

/-- A reader deletes none of the account's transfers. -/
theorem pendingTransfers_peek (env : Env) (currentBlock : Int) (store : PendingStore)
    (key : Text) :
    let after := (peekQueueRecords env currentBlock true store).2
    selectedKeys (ownedBy env after.db key) env after.db =
        selectedKeys (ownedBy env store.db key) env store.db ∧
      pendingTransfers env after.db key = pendingTransfers env store.db key := by
  have chain := sameChain_peekQueueRecords env currentBlock true store
  obtain ⟨keys, after, cleaned⟩ := peek_cleanup env currentBlock store
  have kept : ∀ entry ∈ keys, entry ∉ selectedKeys (ownedBy env store.db key) env store.db := by
    intro entry listed selected
    obtain ⟨isRecord, found, read, own⟩ := mem_selectedKeys.mp selected
    cases cleaned entry listed with
    | inl index => exact (families_apart isRecord).1 index
    | inr dropped =>
        obtain ⟨-, other, read', unusable⟩ := dropped
        rw [read] at read'
        rw [ownedBy_iff] at own
        rw [← Option.some.inj read', keeps_transfer own.1.1, own.2] at unusable
        cases unusable
  rw [after] at chain ⊢
  dsimp only at chain ⊢
  rw [pendingTransfers, ownedBy_sameChain chain]
  exact filter_storedRecords_deleteAll kept

theorem Spends.peek {balance : Rat} {nonce : Int} (spends : Spends env key balance nonce store)
    (currentBlock : Int) :
    Spends env key balance nonce (peekQueueRecords env currentBlock true store).2 := by
  have chain := sameChain_peekQueueRecords env currentBlock true store
  have owned := @ownedBy_sameChain env store.db key _ chain
  have pending : ∀ other, PendingRecord env (peekQueueRecords env currentBlock true store).2 other →
      PendingRecord env store other := fun other => pending_of_peek
  obtain ⟨selected, transfers⟩ := pendingTransfers_peek env currentBlock store key
  constructor
  · rw [selected, nextSequence_peek]
    exact spends.sequenced
  · exact spends.file
  · exact fun other held => spends.others other (pending other held)
  · rw [transfers, owned]
    exact fun own member other held => spends.apart own member other (pending other held)
  · rw [transfers]
    exact spends.distinct
  · rw [transfers]
    exact spends.debits
  · rw [transfers]
    exact spends.covered
  · rw [transfers]
    exact spends.nonces

/-- The transfer that is queued next has a hash of its own and can be read back. -/
structure Fresh (env : Env) (store : PendingStore) (record : Record) : Prop where
  readsBack : parseRecordJson env (recordJSON env record) = record
  unused : ∀ pending, PendingRecord env store pending → pending.hash ≠ record.hash
  numbered : nextSequence store.db < longMax

theorem Fresh.peek (fresh : Fresh env store record) (currentBlock : Int) :
    Fresh env (peekQueueRecords env currentBlock true store).2 record where
  readsBack := fresh.readsBack
  unused := fun pending held => fresh.unused pending (pending_of_peek held)
  numbered := by
    rw [nextSequence_peek]
    exact fresh.numbered

/-- The transfer that is written comes after those before it. -/
theorem Spends.snoc {balance : Rat} {nonce : Int}
    (spends : Spends env key balance nonce store) (fresh : Fresh env store record)
    (own : ownedBy env store.db key record = true) (debit : 0 ≤ transferDebit record)
    (covered : ((pendingTransfers env store.db key).map transferDebit).sum +
      transferDebit record ≤ balance)
    (follows : record.nonce = nonce + (pendingTransfers env store.db key).length + 1) :
    Spends env key balance nonce
      { store with db := writeQueued env store.db (nextSequence store.db) record } := by
  have chain := sameChain_writeQueued env store.db (nextSequence store.db) record
  have positive := nextSequence_positive store.db
  have below : ∀ entry ∈ selectedKeys (ownedBy env store.db key) env store.db,
      compare entry (recordKey (nextSequence store.db) record.hash) = .lt := by
    intro entry listed
    obtain ⟨sequence, hash, rfl, lower, earlier⟩ := spends.sequenced entry listed
    exact compare_recordKey lower earlier fresh.numbered.le hash record.hash
  obtain ⟨selected, stored⟩ := filter_storedRecords_writeQueued below fresh.readsBack own
  have owned := @ownedBy_sameChain env store.db key _ chain
  have transfers : pendingTransfers env (writeQueued env store.db (nextSequence store.db) record)
      key = pendingTransfers env store.db key ++ [record] := by
    rw [pendingTransfers, owned]
    exact stored
  have pending : ∀ other, PendingRecord env
      { store with db := writeQueued env store.db (nextSequence store.db) record } other →
      PendingRecord env store other ∨ other = record :=
    fun other => pending_of_writeQueued fresh.readsBack
  constructor
  · dsimp only
    rw [owned, selected, nextSequence_writeQueued positive fresh.numbered]
    intro entry member
    cases List.mem_append.mp member with
    | inl old =>
        obtain ⟨sequence, hash, same, lower, earlier⟩ := spends.sequenced entry old
        exact ⟨sequence, hash, same, lower, by omega⟩
    | inr last =>
        exact ⟨nextSequence store.db, record.hash, List.mem_singleton.mp last, by omega, by omega⟩
  · exact spends.file
  · intro other held
    cases pending other held with
    | inl old => exact spends.others other old
    | inr same =>
        rw [ownedBy_iff, ← same] at own
        constructor
        · intro _ foreign
          exact absurd own.1.2 foreign
        · intro votes
          rw [own.1.1] at votes
          cases votes
  · dsimp only
    rw [transfers, owned]
    intro listed member other held foreign
    have old : PendingRecord env store other := by
      cases pending other held with
      | inl old => exact old
      | inr same =>
          rw [same, own] at foreign
          cases foreign
    cases List.mem_append.mp member with
    | inl early => exact spends.apart listed early other old foreign
    | inr last =>
        rw [List.mem_singleton.mp last]
        exact fresh.unused other old
  · dsimp only
    rw [transfers, List.map_append]
    apply List.nodup_append.mpr
    refine ⟨spends.distinct, List.nodup_singleton _, ?_⟩
    intro hash early last listed
    obtain ⟨old, member, rfl⟩ := List.mem_map.mp early
    rw [List.map_singleton, List.mem_singleton] at listed
    rw [listed]
    exact fresh.unused old (.inl (mem_pendingTransfers.mp member).1)
  · dsimp only
    rw [transfers]
    intro listed member
    cases List.mem_append.mp member with
    | inl early => exact spends.debits listed early
    | inr last =>
        rw [List.mem_singleton.mp last]
        exact debit
  · dsimp only
    rw [transfers, List.map_append, List.sum_append, List.map_singleton, List.sum_singleton]
    exact covered
  · dsimp only
    rw [transfers, List.map_append, List.length_append, spends.nonces, List.length_singleton,
      Sequence.run_snoc, List.map_singleton, follows]

/-! ### The builder's pass over the transfers -/

/-- What the records take from the account is what its own transfers take. -/
theorem outflow_sum {records : List Record} (harmless : ∀ record ∈ records, Harmless key record)
    (debits : ∀ record ∈ records, TransferBy key record → 0 ≤ transferDebit record) :
    (records.map (outflow key)).sum = ((transfersBy key records).map transferDebit).sum := by
  induction records with
  | nil => rfl
  | cons record rest ih =>
      have later := ih (fun other member => harmless other (List.mem_cons_of_mem _ member))
        (fun other member => debits other (List.mem_cons_of_mem _ member))
      rw [List.map_cons, List.sum_cons, later]
      by_cases own : TransferBy key record
      · rw [transfersBy_cons, if_pos own, List.map_cons, List.sum_cons, outflow,
          if_neg (not_not_intro own.1), if_pos own.2,
          max_eq_right (debits record List.mem_cons_self own)]
      · rw [transfersBy_cons, if_neg own]
        have none : outflow key record = 0 := by
          unfold outflow
          by_cases transfers : record.transactionType = .transferCurrency
          · have foreign : record.senderPublicKey ≠ key := fun same => own ⟨transfers, same⟩
            rw [if_neg (not_not_intro transfers), if_neg foreign]
            split
            · rename_i received
              have amount :=
                (harmless record List.mem_cons_self).received transfers foreign received
              exact max_eq_left (by linarith)
            · rfl
          · rw [if_pos transfers]
        rw [none, zero_add]

/-- A balance that suffices for all records suffices for the later ones when the
earlier ones are through. -/
theorem sufficient_after {assembly : Assembly} {before rest : List Record}
    (sufficient : Sufficient key assembly.pending (before ++ rest)) :
    Sufficient key (includeQueue assembly before).pending rest := by
  induction before generalizing assembly with
  | nil => exact sufficient
  | cons record later ih =>
      rw [includeQueue_cons]
      apply ih
      have moved := includePendingTransfer_balance key assembly.pending record
      unfold Sufficient at sufficient ⊢
      rw [List.cons_append, List.map_cons, List.sum_cons] at sufficient
      rw [includeRound_pending]
      linarith

/-- Where the account's transfers are numbered from the nonce of the pass and its
balance suffices, the pass takes each of them. -/
theorem taken_of_run {assembly : Assembly} {before after : List Record} {count : Nat}
    (sufficient : Sufficient key assembly.pending (before ++ record :: after))
    (nonnegative : 0 ≤ assembly.pending.nonces.getD key 0)
    (nonces : (transfersBy key (before ++ record :: after)).map Record.nonce =
      Sequence.run (assembly.pending.nonces.getD key 0) count)
    (own : TransferBy key record) : Taken (includeQueue assembly before).pending record := by
  rw [transfersBy_append, transfersBy_cons, if_pos own, List.map_append, List.map_cons] at nonces
  obtain ⟨early, placed⟩ := Sequence.run_split nonces.symm
  have later := Sequence.mem_run (nonces ▸ List.mem_append_right _ List.mem_cons_self :
    record.nonce ∈ Sequence.run (assembly.pending.nonces.getD key 0) count)
  have claimed : claimedNonces key before = (transfersBy key before).map Record.nonce := by
    unfold claimedNonces transfersBy
    congr 1
    apply List.filter_congr
    intro pending member
    by_cases mine : TransferBy key pending
    · have positive : pending.nonce ∈
          Sequence.run (assembly.pending.nonces.getD key 0) count := by
        rw [← nonces]
        exact List.mem_append_left _
          (List.mem_map_of_mem (mem_transfersBy.mpr ⟨member, mine⟩))
      have bound := (Sequence.mem_run positive).1
      rw [decide_eq_true mine, decide_eq_true ⟨mine, by omega⟩]
    · rw [decide_eq_false mine, decide_eq_false fun both => mine both.1]
  have part : Sufficient key assembly.pending before := by
    have rest := outflow_sum_nonneg key (record :: after)
    unfold Sufficient at sufficient ⊢
    rw [List.map_append, List.sum_append] at sufficient
    linarith
  have expected : (includeQueue assembly before).pending.nonces.getD record.senderPublicKey 0 + 1 =
      record.nonce := by
    rw [own.2, includeQueue_nonce, affordedNonces_of_sufficient part, claimed, early,
      Sequence.advance_run, placed]
  exact ⟨own.1, by omega, expected.symm, affords_of_sufficient (sufficient_after sufficient) own⟩

/-- A builder that starts from the account's nonce and at least its balance takes
every pending transfer of the account. -/
theorem Spends.taken {balance : Rat} {nonce : Int} (spends : Spends env key balance nonce store)
    {assembly : Assembly} (currentBlock : Int)
    (funded : balance ≤ assembly.pending.balances.getD key 0)
    (started : assembly.pending.nonces.getD key 0 = nonce) (nonnegative : 0 ≤ nonce)
    {before after : List Record} (own : TransferBy key record)
    (place : (peekQueueRecords env currentBlock true store).1 = before ++ record :: after) :
    Taken (includeQueue assembly before).pending record := by
  have queue := spends.queue currentBlock
  rw [place] at queue
  have harmless : ∀ pending ∈ before ++ record :: after, Harmless key pending := by
    intro pending member
    rw [← place, peekQueueRecords_records] at member
    exact spends.others pending (pending_of_read (mem_of_dedupe member))
  have debits : ∀ pending ∈ before ++ record :: after, TransferBy key pending →
      0 ≤ transferDebit pending := by
    intro pending member mine
    apply spends.debits
    rw [← queue]
    exact mem_transfersBy.mpr ⟨member, mine⟩
  have tolerance : 0 ≤ balanceTolerance := by norm_num [balanceTolerance]
  apply taken_of_run
  · unfold Sufficient
    rw [outflow_sum harmless debits, queue]
    linarith [spends.covered]
  · rw [started]
    exact nonnegative
  · rw [queue, started]
    exact spends.nonces
  · exact own

end Safire.TransferNonces
