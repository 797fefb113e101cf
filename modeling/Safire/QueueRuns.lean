/-
The queue of pending records over whole runs.

Every record that a caller queues gets the next number, and the hash index has one
entry for each stored hash. Both families of keys stay in step under queueing,
reading and clearing, so the readers see the usable records in the order in which
they were queued.
-/

import Safire.QueueOrder

namespace Safire

open Text

/-! ### Records that are stored -/

/-- What a record needs to be read back from its text form. -/
structure QueueableRecord (env : Env) (record : Record) : Prop where
  quotes : QuoteFreeRecord env record
  nonce : IsLong record.nonce
  amount : env.atof (env.doubleText record.amount) = record.amount
  fee : env.atof (env.doubleText record.fee) = record.fee

theorem recordJSON_written (env : Env) (record : Record) :
    recordJSON env record.written = recordJSON env record := by
  unfold recordJSON Record.written
  dsimp only
  split
  · rfl
  · rw [if_neg (lt_irrefl 0)]

namespace Mempool

variable {env : Env} {currentBlock : Int} {db : LevelDb} {record : Record}

theorem usable_written (record : Record) :
    pendingRecordLooksUsable env currentBlock record.written =
      pendingRecordLooksUsable env currentBlock record := by
  unfold pendingRecordLooksUsable isRecordSizeValid recordSizeError
  rw [recordJSON_written]
  rfl

theorem writeQueued_written (sequence : Int) (record : Record) :
    writeQueued env db sequence record.written = writeQueued env db sequence record := by
  unfold writeQueued
  rw [recordJSON_written]
  rfl

theorem read_written (queueable : QueueableRecord env record) :
    parseRecordJson env (recordJSON env record.written) = record.written := by
  rw [recordJSON_written, parseRecordJson_recordJSON queueable.quotes queueable.nonce
    queueable.amount queueable.fee]

/-! ### The whole list of stored records -/

theorem mem_keysWithPrefix_of_recordAt {key : Text} (isRecord : recordPrefix <+: key)
    (read : recordAt env db key = some record) : key ∈ keysWithPrefix db recordPrefix := by
  rw [recordAt, Option.map_eq_some_iff] at read
  obtain ⟨json, present, -⟩ := read
  apply mem_keysWithPrefix.mpr
  exact ⟨Std.ExtTreeMap.mem_iff_isSome_getElem?.mpr (by rw [present]; rfl), isRecord⟩

theorem stored_iff_recordAt :
    Stored env db record ↔ ∃ key, recordPrefix <+: key ∧ recordAt env db key = some record := by
  constructor
  · intro stored
    obtain ⟨key, json, isRecord, present, read⟩ := stored
    refine ⟨key, isRecord, ?_⟩
    rw [recordAt, present, ← read]
    rfl
  · intro found
    obtain ⟨key, isRecord, read⟩ := found
    rw [recordAt, Option.map_eq_some_iff] at read
    obtain ⟨json, present, parsed⟩ := read
    exact ⟨key, json, isRecord, present, parsed⟩

/-- A record that is queued under a later number comes last. -/
theorem storedRecords_writeQueued {sequence : Int}
    (below : ∀ key ∈ keysWithPrefix db recordPrefix,
      compare key (recordKey sequence record.hash) = .lt)
    (read : parseRecordJson env (recordJSON env record) = record) :
    storedRecords env (writeQueued env db sequence record) = storedRecords env db ++ [record] := by
  have every : ∀ records : List Record, records.filter (fun _ => true) = records :=
    fun records => List.filter_eq_self.mpr fun _ _ => rfl
  have added : (storedRecords env (writeQueued env db sequence record)).filter (fun _ => true) =
      (storedRecords env db).filter (fun _ => true) ++ [record] :=
    (filter_storedRecords_writeQueued
      (fun key member => below key (List.mem_filter.mp member).1) read rfl).2
  rwa [every, every] at added

/-! ### Duplicates -/

/-- No two records with one hash, unless it is empty. -/
def HashesApart (records : List Record) : Prop :=
  records.Pairwise (fun left right => 0 < left.hash.length → left.hash ≠ right.hash)

theorem foldl_dedupeStep_of_apart {records kept : List Record}
    (apart : HashesApart (kept ++ records)) : records.foldl dedupeStep kept = kept ++ records := by
  induction records generalizing kept with
  | nil => exact (List.append_nil kept).symm
  | cons record rest ih =>
      have fresh : ¬ (0 < record.hash.length ∧ record.hash ∈ kept.map Record.hash) := by
        intro known
        obtain ⟨other, inside, same⟩ := List.mem_map.mp known.2
        have differs := (List.pairwise_append.mp apart).2.2 other inside record List.mem_cons_self
        rw [same] at differs
        exact differs known.1 rfl
      rw [List.append_cons] at apart
      rw [List.foldl_cons, dedupeStep, if_neg fresh, ih apart, ← List.append_cons]

theorem dedupe_of_apart {records : List Record} (apart : HashesApart records) :
    dedupePendingRecords records = records :=
  foldl_dedupeStep_of_apart apart

/-! ### Exactly what a reader deletes -/

theorem mem_foldl_cleanup_iff {keys : List Text} {scan : Scan} {other : Text} :
    other ∈ (keys.foldl (scanKey env currentBlock db) scan).cleanup ↔
      other ∈ scan.cleanup ∨ ∃ key ∈ keys, ∃ record, recordAt env db key = some record ∧
        keeps env currentBlock db record = false ∧
        (other = key ∨ 0 < record.hash.length ∧ other = hashKey record.hash) := by
  induction keys generalizing scan with
  | nil => simp
  | cons key rest ih =>
      have step : other ∈ (scanKey env currentBlock db scan key).cleanup ↔
          other ∈ scan.cleanup ∨ ∃ record, recordAt env db key = some record ∧
            keeps env currentBlock db record = false ∧
            (other = key ∨ 0 < record.hash.length ∧ other = hashKey record.hash) := by
        unfold scanKey recordAt
        cases present : db[key]? with
        | none => simp
        | some json =>
            cases kept : keeps env currentBlock db (parseRecordJson env json) with
            | true => simp [kept]
            | false =>
                by_cases hashed : 0 < (parseRecordJson env json).hash.length
                · simp [kept, hashed]
                · simp [kept, hashed]
      rw [List.foldl_cons, ih, step, or_assoc]
      simp only [List.mem_cons, exists_eq_or_imp]

/-- The keys that a reader deletes: those of records that it does not keep, and
the index entries of their hashes. -/
def droppedKeys (env : Env) (currentBlock : Int) (db : LevelDb) : List Text :=
  ((keysWithPrefix db recordPrefix).foldl (scanKey env currentBlock db) ⟨[], []⟩).cleanup

theorem mem_droppedKeys {other : Text} :
    other ∈ droppedKeys env currentBlock db ↔ ∃ key record, recordPrefix <+: key ∧
      recordAt env db key = some record ∧ keeps env currentBlock db record = false ∧
      (other = key ∨ 0 < record.hash.length ∧ other = hashKey record.hash) := by
  rw [droppedKeys, mem_foldl_cleanup_iff]
  constructor
  · intro member
    cases member with
    | inl none => cases none
    | inr found =>
        obtain ⟨key, listed, record, read, dropped, place⟩ := found
        exact ⟨key, record, (mem_keysWithPrefix.mp listed).2, read, dropped, place⟩
  · intro found
    obtain ⟨key, record, isRecord, read, dropped, place⟩ := found
    exact .inr ⟨key, mem_keysWithPrefix_of_recordAt isRecord read, record, read, dropped, place⟩

/-! ### Runs -/

inductive QueueCall where
  | add (record : Record)
  | peek
  | parse

/-- The store after some calls, with the records that were queued since the last
clearing and the numbers that were drawn. -/
structure QueueRun where
  store : PendingStore
  pending : List Record
  drawn : List Int

def QueueRun.step (env : Env) (currentBlock : Int) (run : QueueRun) : QueueCall → QueueRun
  | .add record =>
      let store := (addToQueue env currentBlock true run.store record).2
      if admits env currentBlock true run.store record then
        { store := store
          pending := run.pending ++ [record]
          drawn := run.drawn ++ [nextSequence run.store.db] }
      else { run with store := store }
  | .peek => { run with store := (peekQueueRecords env currentBlock true run.store).2 }
  | .parse =>
      { run with store := (parseQueueRecords env currentBlock true run.store).2, pending := [] }

/-- The calls on a database, with an empty `queue.dat`. -/
def runQueue (env : Env) (currentBlock : Int) (start : LevelDb) (calls : List QueueCall) :
    QueueRun :=
  calls.foldl (QueueRun.step env currentBlock) ⟨⟨start, []⟩, [], []⟩

/-- The two families of keys are those of the queued records. -/
structure Represents (env : Env) (currentBlock : Int) (start : LevelDb) (run : QueueRun) :
    Prop where
  queueDat : run.store.queueDat = []
  sameChain : SameChain start run.store.db
  usable : (storedRecords env run.store.db).filter (pendingRecordLooksUsable env currentBlock) =
    (run.pending.map Record.written).filter (pendingRecordLooksUsable env currentBlock)
  numbered : ∀ key ∈ keysWithPrefix run.store.db recordPrefix,
    ∃ sequence ∈ run.drawn, ∃ hash, key = recordKey sequence hash
  unaccepted : ∀ record, Stored env run.store.db record → 0 < record.hash.length →
    recordExistsInAcceptedChain env start record.hash = false
  indexed : ∀ hash, hashKey hash ∈ run.store.db ↔
    0 < hash.length ∧ ∃ record, Stored env run.store.db record ∧ record.hash = hash
  alone : ∀ left right first second, recordPrefix <+: left → recordPrefix <+: right →
    recordAt env run.store.db left = some first → recordAt env run.store.db right = some second →
    0 < first.hash.length → first.hash = second.hash → left = right
  drawn : run.drawn.Pairwise (· < ·)
  next : ∀ sequence ∈ run.drawn, 1 ≤ sequence ∧ sequence < nextSequence run.store.db

section Steps

variable {start : LevelDb} {run : QueueRun}

theorem keysWithPrefix_none {start : Text} (none : keysWithPrefix db start = []) {key : Text}
    (starts : start <+: key) : key ∉ db := by
  intro present
  have listed := mem_keysWithPrefix.mpr ⟨present, starts⟩
  rw [none] at listed
  cases listed

/-- A store without mempool keys has no pending records. -/
theorem represents_empty (noRecords : keysWithPrefix run.store.db recordPrefix = [])
    (noHashes : keysWithPrefix run.store.db hashPrefix = []) (queueDat : run.store.queueDat = [])
    (sameChain : SameChain start run.store.db) (pending : run.pending = [])
    (drawn : run.drawn.Pairwise (· < ·))
    (next : ∀ sequence ∈ run.drawn, 1 ≤ sequence ∧ sequence < nextSequence run.store.db) :
    Represents env currentBlock start run := by
  have none : storedRecords env run.store.db = [] := by
    rw [storedRecords, noRecords, List.filterMap_nil]
  have unstored : ∀ record, ¬ Stored env run.store.db record := by
    intro record stored
    rw [← mem_storedRecords, none] at stored
    cases stored
  refine ⟨queueDat, sameChain, ?_, ?_, ?_, ?_, ?_, drawn, next⟩
  · rw [none, pending]
    rfl
  · intro key member
    rw [noRecords] at member
    cases member
  · intro record stored
    exact absurd stored (unstored record)
  · intro hash
    constructor
    · intro present
      exact absurd present (keysWithPrefix_none noHashes (hashPrefix_hashKey hash))
    · intro held
      obtain ⟨-, record, stored, -⟩ := held
      exact absurd stored (unstored record)
  · intro left right first second isRecord _ read
    exact absurd (stored_iff_recordAt.mpr ⟨left, isRecord, read⟩) (unstored first)

variable (represents : Represents env currentBlock start run)
include represents

/-- On stored records the readers keep what is usable. -/
theorem Represents.keeps_eq {record : Record} (stored : Stored env run.store.db record) :
    keeps env currentBlock run.store.db record =
      pendingRecordLooksUsable env currentBlock record := by
  rw [← represents.sameChain.keeps, keeps]
  by_cases hashed : 0 < record.hash.length
  · rw [represents.unaccepted record stored hashed, Bool.and_false, Bool.not_false, Bool.and_true]
  · rw [decide_eq_false hashed, Bool.false_and, Bool.not_false, Bool.and_true]

theorem Represents.apart : HashesApart (storedRecords env run.store.db) := by
  unfold HashesApart storedRecords
  rw [List.pairwise_filterMap]
  have sorted : OrderedKeys.Sorted compare (keysWithPrefix run.store.db recordPrefix) :=
    (show OrderedKeys.Sorted compare run.store.db.keys from
      Std.ExtTreeMap.ordered_keys).sublist List.filter_sublist
  have different := List.nodup_iff_pairwise_ne.mp sorted.nodup
  apply List.Pairwise.imp_of_mem _ different
  intro left right leftListed rightListed differs first firstRead second secondRead hashed same
  exact differs (represents.alone left right first second (mem_keysWithPrefix.mp leftListed).2
    (mem_keysWithPrefix.mp rightListed).2 firstRead secondRead hashed same)

theorem Represents.kept_eq :
    (databaseMempoolRecords env currentBlock run.store.db).1 =
      (run.pending.filter (pendingRecordLooksUsable env currentBlock)).map Record.written := by
  have kept : (storedRecords env run.store.db).filter (keeps env currentBlock run.store.db) =
      (storedRecords env run.store.db).filter (pendingRecordLooksUsable env currentBlock) := by
    apply List.filter_congr
    intro record member
    exact represents.keeps_eq (mem_storedRecords.mp member)
  have written : pendingRecordLooksUsable env currentBlock ∘ Record.written =
      pendingRecordLooksUsable env currentBlock := funext usable_written
  rw [databaseMempoolRecords_eq, kept, represents.usable, List.filter_map, written]

theorem Represents.kept_apart :
    HashesApart (databaseMempoolRecords env currentBlock run.store.db).1 := by
  rw [databaseMempoolRecords_eq]
  exact represents.apart.sublist List.filter_sublist

theorem Represents.readPending_eq :
    (readPending env currentBlock true run.store).1 =
      (databaseMempoolRecords env currentBlock run.store.db).1 := by
  change _ ++ legacyQueueRecords env currentBlock run.store.queueDat = _
  rw [represents.queueDat]
  exact List.append_nil _

theorem Represents.peek_eq :
    (peekQueueRecords env currentBlock true run.store).1 =
      (databaseMempoolRecords env currentBlock run.store.db).1 := by
  change dedupePendingRecords (readPending env currentBlock true run.store).1 = _
  rw [represents.readPending_eq, dedupe_of_apart represents.kept_apart]

/-! #### Reading -/

/-- No usable record is deleted. -/
theorem Represents.dropped {key : Text} {record : Record} (isRecord : recordPrefix <+: key)
    (read : recordAt env run.store.db key = some record)
    (member : key ∈ droppedKeys env currentBlock run.store.db) :
    pendingRecordLooksUsable env currentBlock record = false := by
  obtain ⟨other, found, otherRecord, foundRead, drops, place⟩ := mem_droppedKeys.mp member
  cases place with
  | inl same =>
      rw [← same, read] at foundRead
      rw [← Option.some.inj foundRead,
        represents.keeps_eq (stored_iff_recordAt.mpr ⟨key, isRecord, read⟩)] at drops
      exact drops
  | inr index => exact absurd index.2.symm (hashKey_ne_record isRecord)

/-- An index entry goes exactly with its record. -/
theorem Represents.dropped_index {key : Text} {record : Record} (isRecord : recordPrefix <+: key)
    (read : recordAt env run.store.db key = some record) (hashed : 0 < record.hash.length) :
    hashKey record.hash ∈ droppedKeys env currentBlock run.store.db ↔
      key ∈ droppedKeys env currentBlock run.store.db := by
  constructor
  · intro member
    obtain ⟨other, found, otherRecord, foundRead, drops, place⟩ := mem_droppedKeys.mp member
    cases place with
    | inl same => exact absurd same (hashKey_ne_record otherRecord)
    | inr index =>
        have same := represents.alone key other record found isRecord otherRecord read foundRead
          hashed (hashKey_injective index.2)
        exact mem_droppedKeys.mpr ⟨other, found, otherRecord, foundRead, drops, .inl same⟩
  · intro member
    obtain ⟨other, found, otherRecord, foundRead, drops, place⟩ := mem_droppedKeys.mp member
    cases place with
    | inl same =>
        rw [← same, read] at foundRead
        rw [← Option.some.inj foundRead] at drops
        exact mem_droppedKeys.mpr ⟨key, record, isRecord, read, drops, .inr ⟨hashed, rfl⟩⟩
    | inr index => exact absurd index.2.symm (hashKey_ne_record isRecord)

omit represents in
theorem recordAt_deleteAll {keys : List Text} {key : Text} {record : Record} :
    recordAt env (deleteAll db keys) key = some record ↔
      recordAt env db key = some record ∧ key ∉ keys := by
  rw [recordAt, recordAt, getElem?_deleteAll]
  by_cases deleted : key ∈ keys
  · simp [deleted]
  · simp [deleted]

omit represents in
theorem nextSequence_deleteAll {keys : List Text}
    (families : ∀ key ∈ keys, recordPrefix <+: key ∨ hashPrefix <+: key) :
    nextSequence (deleteAll db keys) = nextSequence db := by
  have absent : sequenceKey ∉ keys := by
    intro member
    cases families sequenceKey member with
    | inl own => exact absurd own (by decide)
    | inr own => exact absurd own (by decide)
  unfold nextSequence
  rw [getElem?_deleteAll, if_neg absent]

omit represents in
theorem families_droppedKeys :
    ∀ key ∈ droppedKeys env currentBlock db, recordPrefix <+: key ∨ hashPrefix <+: key := by
  intro key member
  obtain ⟨other, record, isRecord, -, -, place⟩ := mem_droppedKeys.mp member
  cases place with
  | inl same => exact .inl (same ▸ isRecord)
  | inr index => exact .inr (index.2 ▸ hashPrefix_hashKey _)

/-- Reading leaves the usable records and deletes the others with their index entries. -/
theorem Represents.peek :
    Represents env currentBlock start (run.step env currentBlock .peek) := by
  have kept : ∀ {key : Text} {record : Record},
      recordAt env (run.step env currentBlock .peek).store.db key = some record ↔
        recordAt env run.store.db key = some record ∧
          key ∉ droppedKeys env currentBlock run.store.db := recordAt_deleteAll
  constructor
  · exact represents.queueDat
  · exact represents.sameChain.trans (sameChain_peekQueueRecords env currentBlock true run.store)
  · have others : ∀ key ∈ droppedKeys env currentBlock run.store.db,
        key ∉ selectedKeys (pendingRecordLooksUsable env currentBlock) env run.store.db := by
      intro key member selected
      obtain ⟨isRecord, record, read, chosen⟩ := mem_selectedKeys.mp selected
      rw [represents.dropped isRecord read member] at chosen
      cases chosen
    exact (filter_storedRecords_deleteAll others).2.trans represents.usable
  · intro key member
    obtain ⟨present, isRecord⟩ := mem_keysWithPrefix.mp member
    exact represents.numbered key (mem_keysWithPrefix.mpr ⟨(mem_deleteAll.mp present).1, isRecord⟩)
  · intro record stored
    obtain ⟨key, isRecord, read⟩ := stored_iff_recordAt.mp stored
    exact represents.unaccepted record
      (stored_iff_recordAt.mpr ⟨key, isRecord, (kept.mp read).1⟩)
  · intro hash
    have entry : hashKey hash ∈ (run.step env currentBlock .peek).store.db ↔
        hashKey hash ∈ run.store.db ∧ hashKey hash ∉ droppedKeys env currentBlock run.store.db :=
      mem_deleteAll
    rw [entry, represents.indexed]
    constructor
    · intro indexed
      obtain ⟨⟨hashed, record, stored, rfl⟩, stays⟩ := indexed
      obtain ⟨key, isRecord, read⟩ := stored_iff_recordAt.mp stored
      rw [represents.dropped_index isRecord read hashed] at stays
      exact ⟨hashed, record, stored_iff_recordAt.mpr ⟨key, isRecord, kept.mpr ⟨read, stays⟩⟩, rfl⟩
    · intro held
      obtain ⟨hashed, record, stored, rfl⟩ := held
      obtain ⟨key, isRecord, read⟩ := stored_iff_recordAt.mp stored
      obtain ⟨before, stays⟩ := kept.mp read
      rw [represents.dropped_index isRecord before hashed]
      exact ⟨⟨hashed, record, stored_iff_recordAt.mpr ⟨key, isRecord, before⟩, rfl⟩, stays⟩
  · intro left right first second leftRecord rightRecord leftRead rightRead
    exact represents.alone left right first second leftRecord rightRecord (kept.mp leftRead).1
      (kept.mp rightRead).1
  · exact represents.drawn
  · intro sequence member
    have same : nextSequence (run.step env currentBlock .peek).store.db =
        nextSequence run.store.db := nextSequence_deleteAll families_droppedKeys
    rw [same]
    exact represents.next sequence member

/-! #### Clearing -/

theorem Represents.parse :
    Represents env currentBlock start (run.step env currentBlock .parse) := by
  have cleared : (run.step env currentBlock .parse).store.db =
      clearDatabaseMempool (run.step env currentBlock .peek).store.db := rfl
  have families : ∀ key ∈ keysWithPrefix (run.step env currentBlock .peek).store.db recordPrefix ++
      keysWithPrefix (run.step env currentBlock .peek).store.db hashPrefix,
      recordPrefix <+: key ∨ hashPrefix <+: key := by
    intro key member
    rw [List.mem_append, mem_keysWithPrefix, mem_keysWithPrefix] at member
    exact member.imp And.right And.right
  apply represents_empty
  · exact keysWithPrefix_cleared (.inl rfl)
  · exact keysWithPrefix_cleared (.inr rfl)
  · rfl
  · apply represents.peek.sameChain.trans
    apply sameChain_deleteAll
    intro key member
    cases families key member with
    | inl isRecord => exact mempool_of_record isRecord
    | inr isHash => exact mempool_of_hash isHash
  · rfl
  · exact represents.drawn
  · intro sequence member
    rw [cleared, clearDatabaseMempool, nextSequence_deleteAll families]
    exact represents.peek.next sequence member

/-! #### Queueing -/

omit represents in
theorem step_add_of_admits (admitted : admits env currentBlock true run.store record = true) :
    run.step env currentBlock (.add record) =
      { store := { run.store with
          db := writeQueued env run.store.db (nextSequence run.store.db) record.written }
        pending := run.pending ++ [record]
        drawn := run.drawn ++ [nextSequence run.store.db] } := by
  rw [QueueRun.step, if_pos admitted, addToQueue_eq, if_pos admitted, queued_opened,
    writeQueued_written]

omit represents in
theorem step_add_of_suppressed (suppressed : admits env currentBlock true run.store record ≠ true) :
    run.step env currentBlock (.add record) = run := by
  rw [QueueRun.step, if_neg suppressed, addToQueue_eq, if_neg suppressed]

omit represents in
/-- A record that is written has a hash of its own. -/
theorem fresh_of_admits (admitted : admits env currentBlock true run.store record = true)
    (hashed : 0 < record.hash.length) :
    recordExistsInAcceptedChain env run.store.db record.hash = false ∧
      hashKey record.hash ∉ run.store.db := by
  unfold admits at admitted
  simp only [hashed, decide_true, Bool.true_and, Bool.and_eq_true, Bool.not_eq_true',
    Bool.or_eq_false_iff, decide_eq_false_iff_not] at admitted
  exact ⟨admitted.1.2, admitted.2.1⟩

/-- The next number is above those of the stored records. -/
theorem Represents.below (fits : nextSequence run.store.db ≤ longMax) (hash : Text) :
    ∀ key ∈ keysWithPrefix run.store.db recordPrefix,
      compare key (recordKey (nextSequence run.store.db) hash) = .lt := by
  intro key member
  obtain ⟨sequence, used, other, rfl⟩ := represents.numbered key member
  obtain ⟨positive, less⟩ := represents.next sequence used
  exact compare_recordKey (by omega) less fits other hash

theorem Represents.add (queueable : QueueableRecord env record)
    (admitted : admits env currentBlock true run.store record = true)
    (fits : nextSequence run.store.db < longMax) :
    Represents env currentBlock start (run.step env currentBlock (.add record)) := by
  rw [step_add_of_admits admitted]
  have below := represents.below fits.le record.written.hash
  have read := read_written queueable
  have own : ∀ key, recordPrefix <+: key →
      recordAt env (writeQueued env run.store.db (nextSequence run.store.db) record.written) key =
        if recordKey (nextSequence run.store.db) record.hash = key then some record.written
        else recordAt env run.store.db key := by
    intro key isRecord
    rw [recordAt, getElem?_writeQueued_record isRecord]
    split
    · rw [if_pos (by assumption), Option.map_some, read]
    · rw [if_neg (by assumption), recordAt]
  have stored : ∀ other,
      Stored env (writeQueued env run.store.db (nextSequence run.store.db) record.written) other ↔
        Stored env run.store.db other ∨ other = record.written := by
    intro other
    rw [← mem_storedRecords, storedRecords_writeQueued below read, List.mem_append,
      List.mem_singleton, mem_storedRecords]
  constructor
  · exact represents.queueDat
  · exact represents.sameChain.trans (sameChain_writeQueued env _ _ _)
  · dsimp only
    rw [storedRecords_writeQueued below read, List.filter_append, represents.usable, List.map_append,
      List.filter_append]
    rfl
  · intro key member
    obtain ⟨present, isRecord⟩ := mem_keysWithPrefix.mp member
    by_cases same : recordKey (nextSequence run.store.db) record.hash = key
    · exact ⟨_, List.mem_append_right _ List.mem_cons_self, record.hash, same.symm⟩
    · have other : ¬ recordKey (nextSequence run.store.db) record.written.hash = key := same
      rw [Std.ExtTreeMap.mem_iff_isSome_getElem?, getElem?_writeQueued_record isRecord,
        if_neg other, ← Std.ExtTreeMap.mem_iff_isSome_getElem?] at present
      obtain ⟨sequence, used, hash, keyed⟩ :=
        represents.numbered key (mem_keysWithPrefix.mpr ⟨present, isRecord⟩)
      exact ⟨sequence, List.mem_append_left _ used, hash, keyed⟩
  · intro other held hashed
    cases (stored other).mp held with
    | inl old => exact represents.unaccepted other old hashed
    | inr same =>
        subst same
        rw [represents.sameChain.recordExists]
        exact (fresh_of_admits admitted hashed).1
  · intro hash
    dsimp only
    rw [Std.ExtTreeMap.mem_iff_isSome_getElem?, getElem?_writeQueued_hash]
    by_cases same : 0 < record.written.hash.length ∧ record.written.hash = hash
    · rw [if_pos same]
      constructor
      · intro _
        exact ⟨same.2 ▸ same.1, record.written, (stored _).mpr (.inr rfl), same.2⟩
      · intro _
        rfl
    · rw [if_neg same, ← Std.ExtTreeMap.mem_iff_isSome_getElem?, represents.indexed]
      constructor
      · intro indexed
        obtain ⟨hashed, other, held, keyed⟩ := indexed
        exact ⟨hashed, other, (stored other).mpr (.inl held), keyed⟩
      · intro indexed
        obtain ⟨hashed, other, held, keyed⟩ := indexed
        cases (stored other).mp held with
        | inl old => exact ⟨hashed, other, old, keyed⟩
        | inr new =>
            rw [new] at keyed
            exact absurd ⟨keyed ▸ hashed, keyed⟩ same
  · -- An older record with the hash would have suppressed this one.
    have apart : ∀ key other, recordPrefix <+: key → recordAt env run.store.db key = some other →
        0 < other.hash.length → other.hash ≠ record.written.hash := by
      intro key other isRecord found hashed same
      have long : 0 < record.hash.length := same ▸ hashed
      apply (fresh_of_admits admitted long).2
      apply (represents.indexed _).mpr
      exact ⟨long, other, stored_iff_recordAt.mpr ⟨key, isRecord, found⟩, same⟩
    intro left right first second leftRecord rightRecord leftRead rightRead hashed same
    rw [own left leftRecord] at leftRead
    rw [own right rightRecord] at rightRead
    split at leftRead
    · split at rightRead
      · rename_i leftKey rightKey
        exact leftKey.symm.trans rightKey
      · rw [← Option.some.inj leftRead] at same hashed
        exact absurd same.symm (apart right second rightRecord rightRead (same ▸ hashed))
    · split at rightRead
      · rw [← Option.some.inj rightRead] at same
        exact absurd same (apart left first leftRecord leftRead hashed)
      · exact represents.alone left right first second leftRecord rightRecord leftRead rightRead
          hashed same
  · apply List.pairwise_append.mpr
    refine ⟨represents.drawn, List.pairwise_singleton _ _, ?_⟩
    intro sequence used last single
    rw [List.mem_singleton.mp single]
    exact (represents.next sequence used).2
  · intro sequence member
    have positive := nextSequence_positive run.store.db
    have next : nextSequence (writeQueued env run.store.db (nextSequence run.store.db)
        record.written) = nextSequence run.store.db + 1 :=
      nextSequence_writeQueued positive fits
    dsimp only
    rw [next]
    cases List.mem_append.mp member with
    | inl old =>
        have range := represents.next sequence old
        omega
    | inr last =>
        rw [List.mem_singleton.mp last]
        omega

end Steps

/-! ### The queue -/

theorem drawn_step (run : QueueRun) (call : QueueCall) :
    run.drawn ⊆ (run.step env currentBlock call).drawn := by
  cases call with
  | add record =>
      rw [QueueRun.step]
      split
      · exact List.subset_append_left _ _
      · exact List.Subset.refl _
  | peek => exact List.Subset.refl _
  | parse => exact List.Subset.refl _

/-- A run over records that read back keeps the queue and both families of keys in
step, as long as its numbers leave room for the next one. -/
theorem represents_run (env : Env) (currentBlock : Int) (start : LevelDb) (calls : List QueueCall)
    (noRecords : keysWithPrefix start recordPrefix = [])
    (noHashes : keysWithPrefix start hashPrefix = [])
    (queueable : ∀ record, .add record ∈ calls → QueueableRecord env record)
    (fits : ∀ sequence ∈ (runQueue env currentBlock start calls).drawn, sequence < longMax) :
    Represents env currentBlock start (runQueue env currentBlock start calls) := by
  induction calls using List.reverseRecOn with
  | nil =>
      exact represents_empty noRecords noHashes rfl (SameChain.refl start) rfl List.Pairwise.nil
        (List.forall_mem_nil _)
  | append_singleton calls call ih =>
      have split : runQueue env currentBlock start (calls ++ [call]) =
          (runQueue env currentBlock start calls).step env currentBlock call := by
        rw [runQueue, List.foldl_append]
        rfl
      rw [split] at fits ⊢
      have before := ih (fun record member => queueable record (List.mem_append_left _ member))
        (fun sequence member => fits sequence (drawn_step _ call member))
      cases call with
      | peek => exact before.peek
      | parse => exact before.parse
      | add record =>
          by_cases admitted : admits env currentBlock true
              (runQueue env currentBlock start calls).store record = true
          · apply before.add (queueable record (List.mem_append_right _ List.mem_cons_self)) admitted
            apply fits
            rw [step_add_of_admits admitted]
            exact List.mem_append_right _ List.mem_cons_self
          · rw [step_add_of_suppressed admitted]
            exact before

/-- The readers return the usable records of the calls that were not suppressed
since the last clearing, in their order and with the nonce that was written. -/
theorem mempool_is_queue (env : Env) (currentBlock : Int) (start : LevelDb) (calls : List QueueCall)
    (noRecords : keysWithPrefix start recordPrefix = [])
    (noHashes : keysWithPrefix start hashPrefix = [])
    (queueable : ∀ record, .add record ∈ calls → QueueableRecord env record)
    (fits : ∀ sequence ∈ (runQueue env currentBlock start calls).drawn, sequence < longMax) :
    let run := runQueue env currentBlock start calls
    let peeked := (peekQueueRecords env currentBlock true run.store).1
    let parsed := parseQueueRecords env currentBlock true run.store
    peeked = (run.pending.filter (pendingRecordLooksUsable env currentBlock)).map Record.written ∧
      HashesApart peeked ∧
      (∀ hash, hashKey hash ∈ run.store.db ↔
        0 < hash.length ∧ ∃ record, Stored env run.store.db record ∧ record.hash = hash) ∧
      run.drawn.Nodup ∧ parsed.1 = peeked ∧ keysWithPrefix parsed.2.db recordPrefix = [] ∧
      keysWithPrefix parsed.2.db hashPrefix = [] := by
  intro run peeked parsed
  have represents : Represents env currentBlock start run :=
    represents_run env currentBlock start calls noRecords noHashes queueable fits
  have read : peeked = (databaseMempoolRecords env currentBlock run.store.db).1 := represents.peek_eq
  refine ⟨read.trans represents.kept_eq, ?_, represents.indexed, ?_, rfl, ?_, ?_⟩
  · rw [read]
    exact represents.kept_apart
  · exact represents.drawn.imp fun less => ne_of_lt less
  · exact keysWithPrefix_cleared (.inl rfl)
  · exact keysWithPrefix_cleared (.inr rfl)

end Mempool

namespace Sample

open Mempool

/-- The spend with a nonce that is not written. -/
def unnumberedSpend : Record :=
  { spend with nonce := -1 }

theorem queueable_spend : QueueableRecord Sample.env spend := by
  have readable : RecordReadable Sample.env spend := by decide +kernel
  exact ⟨readable.quoteFree, readable.nonce.2, readable.amount.2, readable.fee.2⟩

theorem queueable_unnumberedSpend : QueueableRecord Sample.env unnumberedSpend := by
  obtain ⟨quotes, -, amount, fee⟩ := queueable_spend
  exact ⟨⟨quotes.network, quotes.time, quotes.name, quotes.sender, quotes.recipient, quotes.value,
    quotes.hash, quotes.signature, quotes.amount, quotes.fee⟩, by decide, amount, fee⟩

def spendCalls : List QueueCall :=
  [.add spend, .peek, .add unnumberedSpend, .parse, .add spend]

theorem spendCalls_drawn : (runQueue Sample.env 101 ∅ spendCalls).drawn = [1, 2] := by
  decide +kernel

/-- One spend is queued again after the queue is cleared. -/
theorem spendCalls_queue :
    let run := runQueue Sample.env 101 ∅ spendCalls
    let peeked := (peekQueueRecords Sample.env 101 true run.store).1
    let parsed := parseQueueRecords Sample.env 101 true run.store
    peeked = (run.pending.filter (pendingRecordLooksUsable Sample.env 101)).map Record.written ∧
      HashesApart peeked ∧
      (∀ hash, hashKey hash ∈ run.store.db ↔
        0 < hash.length ∧ ∃ record, Stored Sample.env run.store.db record ∧ record.hash = hash) ∧
      run.drawn.Nodup ∧ parsed.1 = peeked ∧ keysWithPrefix parsed.2.db recordPrefix = [] ∧
      keysWithPrefix parsed.2.db hashPrefix = [] := by
  apply mempool_is_queue Sample.env 101 ∅ spendCalls
  · exact keysWithPrefix_empty recordPrefix
  · exact keysWithPrefix_empty hashPrefix
  · intro record member
    simp only [spendCalls, List.mem_cons, QueueCall.add.injEq, reduceCtorEq, List.not_mem_nil,
      or_false, false_or] at member
    obtain rfl | rfl | rfl := member
    · exact queueable_spend
    · exact queueable_unnumberedSpend
    · exact queueable_spend
  · rw [spendCalls_drawn]
    decide

/-- A nonce below zero is read back as zero. -/
theorem unnumbered_spend_differs :
    QueueableRecord Sample.env unnumberedSpend ∧
      (runQueue Sample.env 101 ∅ [.add unnumberedSpend]).pending = [unnumberedSpend] ∧
      pendingRecordLooksUsable Sample.env 101 unnumberedSpend = true ∧
      (peekQueueRecords Sample.env 101 true
        (runQueue Sample.env 101 ∅ [.add unnumberedSpend]).store).1 ≠ [unnumberedSpend] := by
  refine ⟨queueable_unnumberedSpend, ?_⟩
  decide +kernel

end Sample

end Safire
