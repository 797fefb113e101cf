/-
What the readers of the mempool find.

The record entries that a reader keeps are a set of keys, whatever else the
database holds. The key families of the mempool are apart from each other and
from the keys of the chain, so queueing and clearing leave every chain lookup as
it was.
-/

import Safire.Mempool

namespace Safire

open Text

theorem startsWith_iff {content start : Text} :
    startsWith content start = true ↔ start <+: content :=
  List.isPrefixOf_iff_prefix

namespace Mempool

/-! ### Keys -/

theorem mem_keysWithPrefix {db : LevelDb} {start key : Text} :
    key ∈ keysWithPrefix db start ↔ key ∈ db ∧ start <+: key := by
  rw [keysWithPrefix, List.mem_filter, Std.ExtTreeMap.mem_keys, startsWith_iff]

theorem keysWithPrefix_empty (start : Text) : keysWithPrefix ∅ start = [] := by
  apply List.eq_nil_iff_forall_not_mem.mpr
  intro key listed
  exact absurd (mem_keysWithPrefix.mp listed).1 (by simp)

theorem recordPrefix_recordKey (sequence : Int) (hash : Text) :
    recordPrefix <+: recordKey sequence hash := by
  rw [recordKey, List.append_assoc, List.append_assoc]
  exact List.prefix_append _ _

theorem hashPrefix_hashKey (hash : Text) : hashPrefix <+: hashKey hash :=
  List.prefix_append _ _

theorem hashKey_injective {left right : Text} (same : hashKey left = hashKey right) :
    left = right :=
  List.append_cancel_left same

/-- The families differ in the byte after `mempool:`. -/
def familyByte (key : Text) : Option Char :=
  (key.drop 8).head?

theorem familyByte_record {key : Text} (isRecord : recordPrefix <+: key) :
    familyByte key = some 'r' := by
  obtain ⟨rest, rfl⟩ := isRecord
  rfl

theorem familyByte_hash {key : Text} (isHash : hashPrefix <+: key) : familyByte key = some 'h' := by
  obtain ⟨rest, rfl⟩ := isHash
  rfl

theorem familyByte_sequenceKey : familyByte sequenceKey = some 'n' := rfl

theorem families_apart {key : Text} (isRecord : recordPrefix <+: key) :
    ¬ hashPrefix <+: key ∧ key ≠ sequenceKey := by
  have byte := familyByte_record isRecord
  constructor
  · intro isHash
    rw [familyByte_hash isHash] at byte
    exact absurd byte (by decide)
  · intro same
    rw [same, familyByte_sequenceKey] at byte
    exact absurd byte (by decide)

theorem hashKey_ne_sequenceKey (hash : Text) : hashKey hash ≠ sequenceKey := by
  intro same
  have byte := familyByte_hash (hashPrefix_hashKey hash)
  rw [same, familyByte_sequenceKey] at byte
  exact absurd byte (by decide)

theorem hashKey_ne_record {hash key : Text} (isRecord : recordPrefix <+: key) :
    hashKey hash ≠ key := by
  intro same
  exact (families_apart isRecord).1 (same ▸ hashPrefix_hashKey hash)

/-! ### Deletes -/

theorem deleteAll_cons (db : LevelDb) (key : Text) (keys : List Text) :
    deleteAll db (key :: keys) = deleteAll (db.erase key) keys := rfl

theorem getElem?_deleteAll {db : LevelDb} {keys : List Text} {text : Text} :
    (deleteAll db keys)[text]? = if text ∈ keys then none else db[text]? := by
  induction keys generalizing db with
  | nil => simp [deleteAll]
  | cons key keys ih =>
      rw [deleteAll_cons, ih, Std.ExtTreeMap.getElem?_erase]
      by_cases later : text ∈ keys
      · rw [if_pos later, if_pos (List.mem_cons_of_mem _ later)]
      · rw [if_neg later]
        by_cases same : key = text
        · simp [same]
        · have absent : text ∉ key :: keys := by
            rw [List.mem_cons, not_or]
            exact ⟨Ne.symm same, later⟩
          rw [if_neg absent, if_neg (by simpa using same)]

theorem mem_deleteAll {db : LevelDb} {keys : List Text} {key : Text} :
    key ∈ deleteAll db keys ↔ key ∈ db ∧ key ∉ keys := by
  rw [Std.ExtTreeMap.mem_iff_isSome_getElem?, getElem?_deleteAll,
    Std.ExtTreeMap.mem_iff_isSome_getElem?]
  by_cases deleted : key ∈ keys
  · simp [deleted]
  · simp [deleted]

theorem mem_clearDatabaseMempool {db : LevelDb} {key : Text} :
    key ∈ clearDatabaseMempool db ↔
      key ∈ db ∧ ¬ recordPrefix <+: key ∧ ¬ hashPrefix <+: key := by
  rw [clearDatabaseMempool, mem_deleteAll, List.mem_append, mem_keysWithPrefix, mem_keysWithPrefix]
  tauto

theorem keysWithPrefix_cleared {db : LevelDb} {start : Text}
    (family : start = recordPrefix ∨ start = hashPrefix) :
    keysWithPrefix (clearDatabaseMempool db) start = [] := by
  rw [List.eq_nil_iff_forall_not_mem]
  intro key member
  obtain ⟨present, starts⟩ := mem_keysWithPrefix.mp member
  obtain ⟨-, noRecord, noHash⟩ := mem_clearDatabaseMempool.mp present
  cases family with
  | inl same => exact noRecord (same ▸ starts)
  | inr same => exact noHash (same ▸ starts)

/-! ### Writes -/

section Writes

variable {env : Env} {db : LevelDb} {sequence : Int} {record : Record} {text : Text}

theorem getElem?_insert {key value : Text} :
    (db.insert key value)[text]? = if key = text then some value else db[text]? := by
  rw [Std.ExtTreeMap.getElem?_insert]
  by_cases same : key = text
  · rw [if_pos same, if_pos (by simpa using same)]
  · rw [if_neg same, if_neg (by simpa using same)]

/-- Of the record entries, a queued record changes the one of its key. -/
theorem getElem?_writeQueued_record (isRecord : recordPrefix <+: text) :
    (writeQueued env db sequence record)[text]? =
      if recordKey sequence record.hash = text then some (recordJSON env record) else db[text]? := by
  have counter : sequenceKey ≠ text := fun same => (families_apart isRecord).2 same.symm
  unfold writeQueued
  dsimp only
  rw [getElem?_insert, if_neg counter]
  split
  · rw [getElem?_insert, if_neg (hashKey_ne_record isRecord), getElem?_insert]
  · rw [getElem?_insert]

/-- Of the index entries, a queued record changes the one of its hash. -/
theorem getElem?_writeQueued_hash {hash : Text} :
    (writeQueued env db sequence record)[hashKey hash]? =
      if 0 < record.hash.length ∧ record.hash = hash then
        some (recordKey sequence record.hash) else db[hashKey hash]? := by
  have entry : recordKey sequence record.hash ≠ hashKey hash :=
    (hashKey_ne_record (recordPrefix_recordKey _ _)).symm
  unfold writeQueued
  dsimp only
  rw [getElem?_insert, if_neg (hashKey_ne_sequenceKey hash).symm]
  by_cases hashed : 0 < record.hash.length
  · rw [if_pos hashed, getElem?_insert]
    by_cases same : record.hash = hash
    · rw [if_pos (congrArg hashKey same), if_pos ⟨hashed, same⟩]
    · rw [if_neg fun keys => same (hashKey_injective keys), if_neg fun both => same both.2,
        getElem?_insert, if_neg entry]
  · rw [if_neg hashed, getElem?_insert, if_neg entry, if_neg fun both => hashed both.1]

end Writes

/-! ### Chain lookups -/

/-- Two databases with the same entries outside the mempool. -/
def SameChain (left right : LevelDb) : Prop :=
  ∀ text, ¬ "mempool:".toList <+: text → left[text]? = right[text]?

theorem mempool_of_record {text : Text} (isRecord : recordPrefix <+: text) :
    "mempool:".toList <+: text :=
  List.IsPrefix.trans ⟨"record:".toList, rfl⟩ isRecord

theorem mempool_of_hash {text : Text} (isHash : hashPrefix <+: text) :
    "mempool:".toList <+: text :=
  List.IsPrefix.trans ⟨"hash:".toList, rfl⟩ isHash

theorem mempool_sequenceKey : "mempool:".toList <+: sequenceKey :=
  ⟨"next_sequence".toList, rfl⟩

theorem head_of_mempool {text : Text} (inside : "mempool:".toList <+: text) :
    text.head? = some 'm' := by
  obtain ⟨rest, rfl⟩ := inside
  rfl

theorem outside_text (key : StoreKey) : ¬ "mempool:".toList <+: key.text := by
  intro inside
  have byte := head_of_mempool inside
  cases key <;> cases byte

theorem outside_blockEntry {text : Text} (entry : isBlockEntry text = true) :
    ¬ "mempool:".toList <+: text := by
  intro inside
  obtain ⟨rest, rfl⟩ := inside
  cases entry

section SameChain

variable {env : Env} {left right middle : LevelDb}

theorem SameChain.refl (db : LevelDb) : SameChain db db :=
  fun _ _ => rfl

theorem SameChain.trans (first : SameChain left middle) (second : SameChain middle right) :
    SameChain left right :=
  fun text outside => (first text outside).trans (second text outside)

variable (same : SameChain left right)
include same

theorem SameChain.get (key : StoreKey) : left.get key = right.get key := by
  rw [LevelDb.get_eq_getD, LevelDb.get_eq_getD, same key.text (outside_text key)]

theorem SameChain.getBlockByHash (hash : Text) :
    getBlockByHash env left hash = getBlockByHash env right hash :=
  getBlockByHash_congr (same.get _)

theorem SameChain.getBlock (number : Int) : getBlock env left number = getBlock env right number :=
  getBlock_congr (same.get _) (same.get _) fun _ => same.get _

theorem SameChain.getFirstBlockId : getFirstBlockId left = getFirstBlockId right :=
  getFirstBlockId_congr (same.get _) (same.get _)

theorem SameChain.getLatestBlockId : getLatestBlockId left = getLatestBlockId right :=
  getLatestBlockId_congr (same.get _) (same.get _)

theorem SameChain.getNextBlock (block : Block) :
    getNextBlock env left block = getNextBlock env right block := by
  have gets : left.get = right.get := funext same.get
  have longs : left.getLong = right.getLong := funext fun key => by
    rw [LevelDb.getLong, LevelDb.getLong, gets]
  have hashes : Safire.getBlockByHash env left = Safire.getBlockByHash env right :=
    funext same.getBlockByHash
  have slots : Safire.getBlock env left = Safire.getBlock env right := funext same.getBlock
  have stored : getStoredBlocks env left = getStoredBlocks env right :=
    getStoredBlocks_congr fun text entry => same text (outside_blockEntry entry)
  have linked : linkedNextBlock env left block = linkedNextBlock env right block := by
    unfold linkedNextBlock
    rw [gets, longs, hashes, slots]
  have byHash : getNextBlockByHash env left block = getNextBlockByHash env right block := by
    unfold getNextBlockByHash
    rw [linked, stored]
  have byId : getNextBlockId env left block.number = getNextBlockId env right block.number := by
    unfold getNextBlockId
    rw [gets, longs, hashes, slots]
  unfold Safire.getNextBlock
  rw [byHash, byId, slots]

theorem SameChain.walk {tooFar isLast : Int → Bool} (guard : Nat) (block : Block) :
    walk env left tooFar isLast guard block = walk env right tooFar isLast guard block := by
  induction guard generalizing block with
  | zero => rfl
  | succ guard ih =>
      rw [Safire.walk, Safire.walk, same.getNextBlock]
      dsimp only
      rw [ih]

theorem SameChain.recordExists (hash : Text) :
    recordExistsInAcceptedChain env left hash = recordExistsInAcceptedChain env right hash := by
  simp only [recordExistsInAcceptedChain, same.getFirstBlockId, same.getLatestBlockId,
    same.getBlock, same.walk]

theorem SameChain.keeps (currentBlock : Int) (record : Record) :
    keeps env currentBlock left record = keeps env currentBlock right record := by
  simp only [Mempool.keeps, same.recordExists]

end SameChain

theorem sameChain_writeQueued (env : Env) (db : LevelDb) (sequence : Int) (record : Record) :
    SameChain db (writeQueued env db sequence record) := by
  intro text outside
  have counter : sequenceKey ≠ text := fun same => outside (same ▸ mempool_sequenceKey)
  have entry : recordKey sequence record.hash ≠ text :=
    fun same => outside (same ▸ mempool_of_record (recordPrefix_recordKey _ _))
  have index : hashKey record.hash ≠ text :=
    fun same => outside (same ▸ mempool_of_hash (hashPrefix_hashKey _))
  unfold writeQueued
  dsimp only
  rw [getElem?_insert, if_neg counter]
  split
  · rw [getElem?_insert, if_neg index, getElem?_insert, if_neg entry]
  · rw [getElem?_insert, if_neg entry]

theorem sameChain_deleteAll {db : LevelDb} {keys : List Text}
    (inside : ∀ key ∈ keys, "mempool:".toList <+: key) : SameChain db (deleteAll db keys) := by
  intro text outside
  rw [getElem?_deleteAll, if_neg fun member => outside (inside text member)]

/-! ### Scanning -/

section Scan

variable {env : Env} {currentBlock : Int} {db : LevelDb} {scan : Scan} {key : Text}

theorem mem_scanKey_records {record : Record} :
    record ∈ (scanKey env currentBlock db scan key).records ↔
      record ∈ scan.records ∨ ∃ json, db[key]? = some json ∧
        parseRecordJson env json = record ∧ keeps env currentBlock db record = true := by
  unfold scanKey
  cases found : db[key]? with
  | none => simp
  | some json =>
      dsimp only
      split
      · rename_i kept
        rw [List.mem_append, List.mem_singleton]
        constructor
        · intro member
          cases member with
          | inl old => exact .inl old
          | inr same => exact .inr ⟨json, rfl, same.symm, same ▸ kept⟩
        · intro member
          cases member with
          | inl old => exact .inl old
          | inr stored =>
              obtain ⟨other, same, parsed, -⟩ := stored
              rw [← Option.some.inj same] at parsed
              exact .inr parsed.symm
      · rename_i dropped
        constructor
        · exact .inl
        · intro member
          cases member with
          | inl old => exact old
          | inr stored =>
              obtain ⟨other, same, rfl, kept⟩ := stored
              rw [← Option.some.inj same] at kept
              exact absurd kept dropped

/-- A key to delete is that of a record which the reader does not keep, or an index entry. -/
theorem mem_scanKey_cleanup {other : Text}
    (member : other ∈ (scanKey env currentBlock db scan key).cleanup) :
    other ∈ scan.cleanup ∨ hashPrefix <+: other ∨
      (other = key ∧ ∃ json, db[key]? = some json ∧
        keeps env currentBlock db (parseRecordJson env json) = false) := by
  unfold scanKey at member
  cases found : db[key]? with
  | none =>
      rw [found] at member
      exact .inl member
  | some json =>
      rw [found] at member
      dsimp only at member
      split at member
      · exact .inl member
      · rename_i dropped
        cases List.mem_append.mp member with
        | inl old => exact .inl old
        | inr added =>
            cases List.mem_cons.mp added with
            | inl same => exact .inr (.inr ⟨same, json, rfl, Bool.eq_false_of_not_eq_true dropped⟩)
            | inr index =>
                split at index
                · rw [List.mem_singleton.mp index]
                  exact .inr (.inl (hashPrefix_hashKey _))
                · cases index

theorem mem_foldl_scanKey {keys : List Text} {record : Record} :
    record ∈ (keys.foldl (scanKey env currentBlock db) scan).records ↔
      record ∈ scan.records ∨ ∃ key ∈ keys, ∃ json, db[key]? = some json ∧
        parseRecordJson env json = record ∧ keeps env currentBlock db record = true := by
  induction keys generalizing scan with
  | nil => simp
  | cons key keys ih =>
      rw [List.foldl_cons, ih, mem_scanKey_records, or_assoc, List.exists_mem_cons_iff]

end Scan

/-- A record entry of the database that reads back as a record. -/
def Stored (env : Env) (db : LevelDb) (record : Record) : Prop :=
  ∃ key json, recordPrefix <+: key ∧ db[key]? = some json ∧ parseRecordJson env json = record

/-- The reader finds the stored records that it keeps. -/
theorem mem_databaseMempoolRecords {env : Env} {currentBlock : Int} {db : LevelDb}
    {record : Record} :
    record ∈ (databaseMempoolRecords env currentBlock db).1 ↔
      Stored env db record ∧ keeps env currentBlock db record = true := by
  unfold databaseMempoolRecords
  dsimp only
  rw [mem_foldl_scanKey]
  constructor
  · intro member
    cases member with
    | inl none => cases none
    | inr found =>
        obtain ⟨key, listed, json, value, parsed, kept⟩ := found
        exact ⟨⟨key, json, (mem_keysWithPrefix.mp listed).2, value, parsed⟩, kept⟩
  · intro stored
    obtain ⟨⟨key, json, isRecord, value, parsed⟩, kept⟩ := stored
    have present : key ∈ db := by
      rw [Std.ExtTreeMap.mem_iff_isSome_getElem?, value]
      rfl
    exact .inr ⟨key, mem_keysWithPrefix.mpr ⟨present, isRecord⟩, json, value, parsed, kept⟩

/-- The reader deletes entries of the mempool only. -/
theorem cleanup_in_mempool {env : Env} {currentBlock : Int} {db : LevelDb} {keys : List Text}
    (listed : ∀ key ∈ keys, recordPrefix <+: key) :
    ∀ {scan : Scan}, (∀ other ∈ scan.cleanup, "mempool:".toList <+: other) →
      ∀ other ∈ (keys.foldl (scanKey env currentBlock db) scan).cleanup,
        "mempool:".toList <+: other := by
  induction keys with
  | nil => exact fun inside => inside
  | cons key keys ih =>
      intro scan inside
      rw [List.foldl_cons]
      apply ih fun other later => listed other (List.mem_cons_of_mem _ later)
      intro other member
      rcases mem_scanKey_cleanup member with old | index | own
      · exact inside other old
      · exact mempool_of_hash index
      · rw [own.1]
        exact mempool_of_record (listed key List.mem_cons_self)

theorem sameChain_peekQueueRecords (env : Env) (currentBlock : Int) (opened : Bool)
    (store : PendingStore) :
    SameChain store.db (peekQueueRecords env currentBlock opened store).2.db := by
  cases opened with
  | false => exact SameChain.refl store.db
  | true =>
      apply sameChain_deleteAll
      apply cleanup_in_mempool
      · exact fun key listed => (mem_keysWithPrefix.mp listed).2
      · exact List.forall_mem_nil _

/-! ### Duplicates -/

section Dedupe

variable {records kept : List Record} {record : Record}

local instance recordHash_lawfulBEq : LawfulBEq Text := inferInstance

/-- One round of `dedupePendingRecords`. -/
def dedupeStep (records : List Record) (record : Record) : List Record :=
  if 0 < record.hash.length ∧ record.hash ∈ records.map Record.hash then records
  else records ++ [record]

theorem dedupePendingRecords_eq : dedupePendingRecords records = records.foldl dedupeStep [] := rfl

theorem mem_foldl_dedupeStep (member : record ∈ records.foldl dedupeStep kept) :
    record ∈ kept ∨ record ∈ records := by
  induction records generalizing kept with
  | nil => exact .inl member
  | cons first records ih =>
      cases ih member with
      | inr later => exact .inr (List.mem_cons_of_mem _ later)
      | inl early =>
          unfold dedupeStep at early
          split at early
          · exact .inl early
          · cases List.mem_append.mp early with
            | inl old => exact .inl old
            | inr added => exact .inr (List.mem_singleton.mp added ▸ List.mem_cons_self)

theorem subset_foldl_dedupeStep (member : record ∈ kept) :
    record ∈ records.foldl dedupeStep kept := by
  induction records generalizing kept with
  | nil => exact member
  | cons first records ih =>
      apply ih
      unfold dedupeStep
      split
      · exact member
      · exact List.mem_append_left _ member

/-- A record stays where no other record has its hash. -/
theorem foldl_dedupeStep_of_alone (member : record ∈ records)
    (alone : ∀ other ∈ kept ++ records, 0 < record.hash.length → other.hash = record.hash →
      other = record) : record ∈ records.foldl dedupeStep kept := by
  induction records generalizing kept with
  | nil => cases member
  | cons first records ih =>
      rw [List.foldl_cons]
      by_cases same : first = record
      · apply subset_foldl_dedupeStep
        rw [same, dedupeStep]
        split
        · rename_i duplicate
          obtain ⟨other, listed, hash⟩ := List.mem_map.mp duplicate.2
          rw [← alone other (List.mem_append_left _ listed) duplicate.1 hash]
          exact listed
        · exact List.mem_append_right _ (List.mem_singleton_self _)
      · have later : record ∈ records := (List.mem_cons.mp member).resolve_left (Ne.symm same)
        apply ih later
        intro other listed hashed hash
        apply alone other _ hashed hash
        cases List.mem_append.mp listed with
        | inr late => exact List.mem_append_right _ (List.mem_cons_of_mem _ late)
        | inl early =>
            have kept : other ∈ _ ∨ other ∈ [first] := mem_foldl_dedupeStep early
            cases kept with
            | inl old => exact List.mem_append_left _ old
            | inr added =>
                rw [List.mem_singleton.mp added]
                exact List.mem_append_right _ List.mem_cons_self

theorem mem_of_dedupe (member : record ∈ dedupePendingRecords records) : record ∈ records := by
  rw [dedupePendingRecords_eq] at member
  cases mem_foldl_dedupeStep member with
  | inl none => cases none
  | inr found => exact found

theorem mem_dedupe_of_alone (member : record ∈ records)
    (alone : ∀ other ∈ records, 0 < record.hash.length → other.hash = record.hash →
      other = record) : record ∈ dedupePendingRecords records := by
  rw [dedupePendingRecords_eq]
  exact foldl_dedupeStep_of_alone member (by simpa using alone)

end Dedupe

/-! ### Time -/

section Time

variable {env : Env} {early late : Int} {record : Record}

theorem isExpired_mono (order : early ≤ late)
    (expired : isExpiredHeartbeatRecord record early = true) :
    isExpiredHeartbeatRecord record late = true := by
  unfold isExpiredHeartbeatRecord at *
  split at expired
  · cases expired
  · rename_i heartBeat
    rw [if_neg heartBeat]
    split at expired
    · rename_i untimed
      rw [if_pos untimed]
    · rename_i timed
      rw [if_neg timed]
      split at expired
      · rename_i large
        rw [if_pos large]
      · rename_i small
        rw [if_neg small]
        cases parsed : parseLongValue record.time with
        | none => rfl
        | some heartbeatBlock =>
            rw [parsed] at expired
            dsimp only at expired ⊢
            rw [if_pos (by decide)] at expired ⊢
            have before := of_decide_eq_true expired
            exact decide_eq_true (by omega)

theorem usable_mono (order : early ≤ late)
    (usable : pendingRecordLooksUsable env late record = true) :
    pendingRecordLooksUsable env early record = true := by
  unfold pendingRecordLooksUsable at *
  rw [Bool.and_eq_true, Bool.not_eq_true'] at *
  refine ⟨usable.1, ?_⟩
  cases expired : isExpiredHeartbeatRecord record early with
  | false => rfl
  | true => exact (isExpired_mono order expired).symm.trans usable.2

theorem keeps_mono {db : LevelDb} (order : early ≤ late) (kept : keeps env late db record = true) :
    keeps env early db record = true := by
  unfold keeps at *
  rw [Bool.and_eq_true] at *
  exact ⟨usable_mono order kept.1, kept.2⟩

theorem keeps_usable {db : LevelDb} (kept : keeps env early db record = true) :
    pendingRecordLooksUsable env early record = true := by
  unfold keeps at kept
  exact (Bool.and_eq_true_iff.mp kept).1

end Time

theorem mem_legacyQueueRecords {env : Env} {currentBlock : Int} {queueDat : Text}
    {record : Record} :
    record ∈ legacyQueueRecords env currentBlock queueDat ↔
      (∃ line ∈ getLines queueDat, parseRecordJson env line = record) ∧
        pendingRecordLooksUsable env currentBlock record = true := by
  rw [legacyQueueRecords, List.mem_filter, List.mem_map]

end Mempool

end Safire
