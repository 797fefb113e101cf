/-
The order of the pending records.

A record is stored under a number that grows with every submission, so the
records that a test selects are read in the order in which they were queued.
Reading the queue deletes unusable records and changes nothing about the others.
-/

import Safire.Library.OrderedKeys
import Safire.SubmittedRecords

namespace Safire.Mempool

open Text

variable {env : Env} {db : LevelDb} {store : PendingStore} {currentBlock : Int}

/-! ### The order of the record keys -/

theorem compare_char {left right : Char}
    (below : left.toNat - '0'.toNat < right.toNat - '0'.toNat) : compare left right = .lt := by
  have less : left < right := by
    change left.toNat < right.toNat
    omega
  change compareOfLessAndEq left right = .lt
  rw [compareOfLessAndEq, if_pos less]

theorem isDigit_range {byte : Char} (digit : byte.isDigit = true) :
    '0'.toNat ≤ byte.toNat ∧ byte.toNat - '0'.toNat < 10 := by
  simp only [Char.isDigit, Bool.and_eq_true, decide_eq_true_eq] at digit
  have lower : '0'.toNat ≤ byte.toNat := digit.1
  have upper : byte.toNat ≤ '9'.toNat := digit.2
  have nine : '9'.toNat = '0'.toNat + 9 := rfl
  omega

theorem paddedSequence_facts {sequence : Int} (positive : 0 ≤ sequence) (fits : sequence ≤ longMax) :
    (paddedSequence sequence).length = 20 ∧
      (∀ byte ∈ paddedSequence sequence, byte.isDigit = true) ∧
      OrderedKeys.value 10 (fun digit : Char => digit.toNat - '0'.toNat)
        (paddedSequence sequence) = sequence.toNat := by
  have text : ofLong sequence = Nat.toDigits 10 sequence.natAbs := by
    rw [ofLong_eq, if_neg (not_lt.mpr positive)]
    rfl
  have same : sequence.natAbs = sequence.toNat := by omega
  have short : (Nat.toDigits 10 sequence.toNat).length ≤ 20 := by
    apply (Nat.length_toDigits_le_iff (by decide) (by decide)).mpr
    have bound : longMax < 10 ^ 20 := by decide
    omega
  unfold paddedSequence
  rw [text, same]
  refine ⟨?_, ?_, ?_⟩
  · rw [List.length_leftpad]
    omega
  · intro byte member
    rw [List.leftpad, List.mem_append] at member
    cases member with
    | inl pad =>
        rw [List.eq_of_mem_replicate pad]
        rfl
    | inr digit => exact isDigit_toDigits _ byte digit
  · have zeros : ∀ count : Nat, OrderedKeys.value 10 (fun digit : Char => digit.toNat - '0'.toNat)
        (List.replicate count '0' ++ Nat.toDigits 10 sequence.toNat) = sequence.toNat := by
      intro count
      induction count with
      | zero => exact digitsValue_toDigits sequence.toNat
      | succ count ih =>
          rw [List.replicate_succ, List.cons_append, OrderedKeys.value_cons, ih]
          simp
    exact zeros _

/-- A later number sorts after an earlier one, whatever the hashes. -/
theorem compare_recordKey {first second : Int} (positive : 0 ≤ first) (below : first < second)
    (fits : second ≤ longMax) (left right : Text) :
    compare (recordKey first left) (recordKey second right) = .lt := by
  obtain ⟨width, digits, number⟩ := paddedSequence_facts positive (below.le.trans fits)
  obtain ⟨width', digits', number'⟩ := paddedSequence_facts (positive.trans below.le) fits
  unfold recordKey
  rw [List.append_assoc, List.append_assoc, List.append_assoc, List.append_assoc,
    OrderedKeys.compare_append_left]
  apply OrderedKeys.compare_append_of_lt (width.trans width'.symm)
  apply OrderedKeys.compare_of_value_lt (fun _ _ less => compare_char less)
    (width.trans width'.symm)
  · intro one member other member' same
    have range := isDigit_range (digits one member)
    have range' := isDigit_range (digits' other member')
    apply Char.toNat_inj.mp
    omega
  · intro byte member
    exact (isDigit_range (digits' byte member)).2
  · rw [number, number']
    omega

/-! ### The stored records in order -/

def recordAt (env : Env) (db : LevelDb) (key : Text) : Option Record :=
  (db[key]?).map (parseRecordJson env)

def storedRecords (env : Env) (db : LevelDb) : List Record :=
  (keysWithPrefix db recordPrefix).filterMap (recordAt env db)

/-- The keys of the stored records that a test selects. -/
def selectedKeys (selected : Record → Bool) (env : Env) (db : LevelDb) : List Text :=
  (keysWithPrefix db recordPrefix).filter (fun key => (recordAt env db key).any selected)

section Selected

variable {selected : Record → Bool} {key : Text}

theorem mem_selectedKeys :
    key ∈ selectedKeys selected env db ↔ recordPrefix <+: key ∧
      ∃ record, recordAt env db key = some record ∧ selected record = true := by
  rw [selectedKeys, List.mem_filter, mem_keysWithPrefix, Option.any_eq_true]
  constructor
  · intro listed
    exact ⟨listed.1.2, listed.2⟩
  · intro found
    obtain ⟨isRecord, record, read, chosen⟩ := found
    refine ⟨⟨?_, isRecord⟩, record, read, chosen⟩
    rw [recordAt, Option.map_eq_some_iff] at read
    obtain ⟨json, present, -⟩ := read
    exact Std.ExtTreeMap.mem_iff_isSome_getElem?.mpr (by rw [present]; rfl)

theorem sorted_selectedKeys : OrderedKeys.Sorted compare (selectedKeys selected env db) :=
  (show OrderedKeys.Sorted compare db.keys from Std.ExtTreeMap.ordered_keys).sublist
    (List.filter_sublist.trans List.filter_sublist)

theorem filter_storedRecords :
    (storedRecords env db).filter selected =
      (selectedKeys selected env db).filterMap (recordAt env db) := by
  unfold storedRecords selectedKeys
  induction keysWithPrefix db recordPrefix with
  | nil => rfl
  | cons key rest ih =>
      cases read : recordAt env db key with
      | none =>
          rw [List.filterMap_cons_none read, ih, List.filter_cons_of_neg]
          rw [read]
          exact Bool.false_ne_true
      | some record =>
          rw [List.filterMap_cons_some read]
          by_cases chosen : selected record = true
          · rw [List.filter_cons_of_pos chosen, ih, List.filter_cons_of_pos,
              List.filterMap_cons_some read]
            rw [read]
            exact chosen
          · rw [List.filter_cons_of_neg chosen, ih, List.filter_cons_of_neg]
            rw [read]
            exact chosen

theorem mem_storedRecords {record : Record} :
    record ∈ storedRecords env db ↔ Stored env db record := by
  unfold storedRecords Stored
  rw [List.mem_filterMap]
  constructor
  · intro listed
    obtain ⟨key, member, read⟩ := listed
    rw [recordAt, Option.map_eq_some_iff] at read
    obtain ⟨json, present, parsed⟩ := read
    exact ⟨key, json, (mem_keysWithPrefix.mp member).2, present, parsed⟩
  · intro stored
    obtain ⟨key, json, isRecord, present, parsed⟩ := stored
    refine ⟨key, mem_keysWithPrefix.mpr ⟨?_, isRecord⟩, ?_⟩
    · exact Std.ExtTreeMap.mem_iff_isSome_getElem?.mpr (by rw [present]; rfl)
    · rw [recordAt, present, ← parsed]
      rfl

/-- Deleting keys that are not selected leaves the selected records. -/
theorem filter_storedRecords_deleteAll {keys : List Text}
    (others : ∀ key ∈ keys, key ∉ selectedKeys selected env db) :
    selectedKeys selected env (deleteAll db keys) = selectedKeys selected env db ∧
      (storedRecords env (deleteAll db keys)).filter selected =
        (storedRecords env db).filter selected := by
  have kept : ∀ key ∈ selectedKeys selected env db,
      recordAt env (deleteAll db keys) key = recordAt env db key := by
    intro key member
    rw [recordAt, getElem?_deleteAll, if_neg fun deleted => others key deleted member]
    rfl
  have same : selectedKeys selected env (deleteAll db keys) = selectedKeys selected env db := by
    apply OrderedKeys.eq_of_mem_iff sorted_selectedKeys sorted_selectedKeys
    intro key
    constructor
    · intro member
      obtain ⟨isRecord, record, read, chosen⟩ := mem_selectedKeys.mp member
      apply mem_selectedKeys.mpr
      refine ⟨isRecord, record, ?_, chosen⟩
      rw [recordAt, getElem?_deleteAll] at read
      split at read
      · cases read
      · exact read
    · intro member
      obtain ⟨isRecord, record, read, chosen⟩ := mem_selectedKeys.mp member
      exact mem_selectedKeys.mpr ⟨isRecord, record, (kept key member).trans read, chosen⟩
  refine ⟨same, ?_⟩
  rw [filter_storedRecords, filter_storedRecords, same]
  exact List.filterMap_congr kept

/-- A selected record that is queued comes after the selected ones before it. -/
theorem filter_storedRecords_writeQueued {sequence : Int} {record : Record}
    (below : ∀ key ∈ selectedKeys selected env db,
      compare key (recordKey sequence record.hash) = .lt)
    (read : parseRecordJson env (recordJSON env record) = record)
    (chosen : selected record = true) :
    selectedKeys selected env (writeQueued env db sequence record) =
        selectedKeys selected env db ++ [recordKey sequence record.hash] ∧
      (storedRecords env (writeQueued env db sequence record)).filter selected =
        (storedRecords env db).filter selected ++ [record] := by
  have own : recordAt env (writeQueued env db sequence record) (recordKey sequence record.hash) =
      some record := by
    rw [recordAt, getElem?_writeQueued_record (recordPrefix_recordKey _ _), if_pos rfl,
      Option.map_some, read]
  have other : ∀ key, recordPrefix <+: key → key ≠ recordKey sequence record.hash →
      recordAt env (writeQueued env db sequence record) key = recordAt env db key := by
    intro key isRecord different
    rw [recordAt, getElem?_writeQueued_record isRecord, if_neg (Ne.symm different)]
    rfl
  have apart : ∀ key ∈ selectedKeys selected env db, key ≠ recordKey sequence record.hash := by
    intro key member same
    have less := below key member
    rw [same, Std.ReflOrd.compare_self] at less
    cases less
  have keys : selectedKeys selected env (writeQueued env db sequence record) =
      selectedKeys selected env db ++ [recordKey sequence record.hash] := by
    apply OrderedKeys.eq_snoc_of_mem_iff sorted_selectedKeys sorted_selectedKeys below
    intro key
    constructor
    · intro member
      by_cases same : key = recordKey sequence record.hash
      · exact .inr same
      · obtain ⟨isRecord, found, inside, selects⟩ := mem_selectedKeys.mp member
        rw [other key isRecord same] at inside
        exact .inl (mem_selectedKeys.mpr ⟨isRecord, found, inside, selects⟩)
    · intro member
      cases member with
      | inl old =>
          obtain ⟨isRecord, found, inside, selects⟩ := mem_selectedKeys.mp old
          rw [← other key isRecord (apart key old)] at inside
          exact mem_selectedKeys.mpr ⟨isRecord, found, inside, selects⟩
      | inr same =>
          rw [same]
          exact mem_selectedKeys.mpr ⟨recordPrefix_recordKey _ _, record, own, chosen⟩
  refine ⟨keys, ?_⟩
  rw [filter_storedRecords, filter_storedRecords, keys, List.filterMap_append]
  congr 1
  · apply List.filterMap_congr
    intro key member
    exact other key (mem_selectedKeys.mp member).1 (apart key member)
  · rw [List.filterMap_cons_some own]
    rfl

end Selected

/-! ### Reading the queue -/

theorem foldl_scanKey_records (keys : List Text) (scan : Scan) :
    (keys.foldl (scanKey env currentBlock db) scan).records =
      scan.records ++ (keys.filterMap (recordAt env db)).filter (keeps env currentBlock db) := by
  induction keys generalizing scan with
  | nil => exact (List.append_nil _).symm
  | cons key rest ih =>
      rw [List.foldl_cons, ih, scanKey]
      cases present : db[key]? with
      | none =>
          have absent : recordAt env db key = none := by rw [recordAt, present]; rfl
          rw [List.filterMap_cons_none absent]
      | some json =>
          have read : recordAt env db key = some (parseRecordJson env json) := by
            rw [recordAt, present]
            rfl
          rw [List.filterMap_cons_some read]
          dsimp only
          by_cases kept : keeps env currentBlock db (parseRecordJson env json) = true
          · rw [if_pos kept, List.filter_cons_of_pos kept, List.append_assoc]
            rfl
          · rw [if_neg kept, List.filter_cons_of_neg kept]

theorem databaseMempoolRecords_eq :
    (databaseMempoolRecords env currentBlock db).1 =
      (storedRecords env db).filter (keeps env currentBlock db) :=
  foldl_scanKey_records _ _

/-- The records that a test selects and the queue keeps, in the order of the queue. -/
theorem filter_readPending {selected : Record → Bool}
    (kept : ∀ record, Stored env store.db record → selected record = true →
      keeps env currentBlock store.db record = true)
    (legacy : ∀ line ∈ getLines store.queueDat, selected (parseRecordJson env line) = false) :
    (readPending env currentBlock true store).1.filter selected =
      (storedRecords env store.db).filter selected := by
  change ((databaseMempoolRecords env currentBlock store.db).1 ++
    legacyQueueRecords env currentBlock store.queueDat).filter selected = _
  have none : (legacyQueueRecords env currentBlock store.queueDat).filter selected = [] := by
    rw [List.filter_eq_nil_iff]
    intro record member
    rw [legacyQueueRecords, List.mem_filter, List.mem_map] at member
    obtain ⟨⟨line, listed, rfl⟩, -⟩ := member
    rw [legacy line listed]
    exact Bool.false_ne_true
  rw [List.filter_append, none, List.append_nil, databaseMempoolRecords_eq, List.filter_filter]
  apply List.filter_congr
  intro record member
  cases chosen : selected record with
  | false => rfl
  | true => rw [kept record (mem_storedRecords.mp member) chosen]; rfl

/-- Removing duplicates keeps the selected records where no other record has their hash. -/
theorem filter_foldl_dedupeStep {selected : Record → Bool} (records kept : List Record)
    (apart : ∀ record ∈ records, selected record = true → ∀ other ∈ kept, other.hash ≠ record.hash)
    (alone : ∀ record ∈ records, selected record = true → ∀ other ∈ records,
      selected other = false → other.hash ≠ record.hash)
    (distinct : ((records.filter selected).map Record.hash).Nodup) :
    (records.foldl dedupeStep kept).filter selected =
      kept.filter selected ++ records.filter selected := by
  induction records generalizing kept with
  | nil => exact (List.append_nil _).symm
  | cons record rest ih =>
      have later : ∀ next : List Record, (∀ other ∈ next, other ∈ kept ∨ other = record) →
          (selected record = true → ((rest.filter selected).map Record.hash).Nodup ∧
            record.hash ∉ (rest.filter selected).map Record.hash) →
          (rest.foldl dedupeStep next).filter selected =
            next.filter selected ++ rest.filter selected := by
        intro next known chosen
        apply ih
        · intro own member selects other inNext
          cases known other inNext with
          | inl old => exact apart own (List.mem_cons_of_mem _ member) selects other old
          | inr same =>
              subst same
              cases picked : selected other with
              | false =>
                  exact alone own (List.mem_cons_of_mem _ member) selects other List.mem_cons_self
                    picked
              | true =>
                  intro equal
                  apply (chosen picked).2
                  rw [equal]
                  exact List.mem_map_of_mem (List.mem_filter.mpr ⟨member, selects⟩)
        · intro own member selects other inRest unpicked
          exact alone own (List.mem_cons_of_mem _ member) selects other
            (List.mem_cons_of_mem _ inRest) unpicked
        · cases picked : selected record with
          | false =>
              rw [List.filter_cons_of_neg (by rw [picked]; exact Bool.false_ne_true)] at distinct
              exact distinct
          | true => exact (chosen picked).1
      rw [List.foldl_cons]
      by_cases picked : selected record = true
      · rw [List.filter_cons_of_pos picked, List.map_cons, List.nodup_cons] at distinct
        have fresh : ¬ (0 < record.hash.length ∧ record.hash ∈ kept.map Record.hash) := by
          intro known
          obtain ⟨other, inKept, same⟩ := List.mem_map.mp known.2
          exact apart record List.mem_cons_self picked other inKept same
        rw [dedupeStep, if_neg fresh, later _ _ fun _ => ⟨distinct.2, distinct.1⟩,
          List.filter_append, List.filter_cons_of_pos picked, List.append_assoc,
          List.filter_cons_of_pos picked]
        · rfl
        · intro other member
          rw [List.mem_append, List.mem_singleton] at member
          exact member
      · rw [List.filter_cons_of_neg picked, dedupeStep]
        split
        · exact later kept (fun other inKept => .inl inKept) fun chosen => absurd chosen picked
        · rw [later _ _ fun chosen => absurd chosen picked, List.filter_append,
            List.filter_cons_of_neg picked]
          · simp
          · intro other member
            rw [List.mem_append, List.mem_singleton] at member
            exact member

theorem filter_dedupe {selected : Record → Bool} {records : List Record}
    (alone : ∀ record ∈ records, selected record = true → ∀ other ∈ records,
      selected other = false → other.hash ≠ record.hash)
    (distinct : ((records.filter selected).map Record.hash).Nodup) :
    (dedupePendingRecords records).filter selected = records.filter selected := by
  rw [dedupePendingRecords_eq, filter_foldl_dedupeStep records [] _ alone distinct]
  · rfl
  · intro record _ _ other none
    cases none

/-! ### What a reader leaves -/

theorem mem_foldl_cleanup {keys : List Text} (listed : ∀ key ∈ keys, recordPrefix <+: key)
    {scan : Scan} {other : Text}
    (member : other ∈ (keys.foldl (scanKey env currentBlock db) scan).cleanup) :
    other ∈ scan.cleanup ∨ hashPrefix <+: other ∨ recordPrefix <+: other ∧
      ∃ record, recordAt env db other = some record ∧ keeps env currentBlock db record = false := by
  induction keys generalizing scan with
  | nil => exact .inl member
  | cons key rest ih =>
      rw [List.foldl_cons] at member
      cases ih (fun later inRest => listed later (List.mem_cons_of_mem _ inRest)) member with
      | inr found => exact .inr found
      | inl early =>
          cases mem_scanKey_cleanup early with
          | inl old => exact .inl old
          | inr added =>
              right
              cases added with
              | inl index => exact .inl index
              | inr own =>
                  obtain ⟨same, json, present, dropped⟩ := own
                  right
                  rw [same]
                  refine ⟨listed key List.mem_cons_self, parseRecordJson env json, ?_, dropped⟩
                  rw [recordAt, present]
                  rfl

/-- A reader deletes records that it does not keep, and entries of the hash index. -/
theorem peek_cleanup (env : Env) (currentBlock : Int) (store : PendingStore) :
    ∃ keys, (peekQueueRecords env currentBlock true store).2 =
        { store with db := deleteAll store.db keys } ∧
      ∀ key ∈ keys, hashPrefix <+: key ∨ recordPrefix <+: key ∧
        ∃ record, recordAt env store.db key = some record ∧
          keeps env currentBlock store.db record = false := by
  refine ⟨_, rfl, fun key member => ?_⟩
  have inside : ∀ key ∈ keysWithPrefix store.db recordPrefix, recordPrefix <+: key :=
    fun key listed => (mem_keysWithPrefix.mp listed).2
  exact (mem_foldl_cleanup inside member).resolve_left List.not_mem_nil

/-- A record of the database or of `queue.dat`, usable or not. -/
def PendingRecord (env : Env) (store : PendingStore) (record : Record) : Prop :=
  Stored env store.db record ∨ ∃ line ∈ getLines store.queueDat, parseRecordJson env line = record

theorem pending_of_read {opened : Bool} {record : Record}
    (member : record ∈ (readPending env currentBlock opened store).1) :
    PendingRecord env store record := by
  cases mem_readPending.mp member with
  | inl stored => exact .inl stored.2.1
  | inr legacy =>
      rw [legacyQueueRecords, List.mem_filter, List.mem_map] at legacy
      exact .inr legacy.1

theorem pending_of_peek {record : Record}
    (pending : PendingRecord env (peekQueueRecords env currentBlock true store).2 record) :
    PendingRecord env store record := by
  obtain ⟨keys, after, -⟩ := peek_cleanup env currentBlock store
  rw [after] at pending
  cases pending with
  | inr legacy => exact .inr legacy
  | inl stored =>
      obtain ⟨key, json, isRecord, present, read⟩ := stored
      rw [getElem?_deleteAll] at present
      split at present
      · cases present
      · exact .inl ⟨key, json, isRecord, present, read⟩

theorem pending_of_writeQueued {sequence : Int} {record other : Record}
    (read : parseRecordJson env (recordJSON env record) = record)
    (pending : PendingRecord env { store with db := writeQueued env store.db sequence record } other) :
    PendingRecord env store other ∨ other = record := by
  cases pending with
  | inr legacy => exact .inl (.inr legacy)
  | inl stored =>
      obtain ⟨key, json, isRecord, present, parsed⟩ := stored
      rw [getElem?_writeQueued_record isRecord] at present
      split at present
      · rw [← Option.some.inj present] at parsed
        exact .inr (parsed.symm.trans read)
      · exact .inl (.inl ⟨key, json, isRecord, present, parsed⟩)

theorem nextSequence_positive (db : LevelDb) : 1 ≤ nextSequence db := by
  unfold nextSequence
  split
  · exact le_refl 1
  · split <;> omega

theorem nextSequence_peek (env : Env) (currentBlock : Int) (store : PendingStore) :
    nextSequence (peekQueueRecords env currentBlock true store).2.db = nextSequence store.db := by
  obtain ⟨keys, after, cleaned⟩ := peek_cleanup env currentBlock store
  have absent : sequenceKey ∉ keys := by
    intro member
    cases cleaned sequenceKey member with
    | inl index => exact absurd index (by decide)
    | inr own => exact absurd own.1 (by decide)
  rw [after]
  unfold nextSequence
  dsimp only
  rw [getElem?_deleteAll, if_neg absent]

theorem nextSequence_writeQueued {sequence : Int} {record : Record} (positive : 1 ≤ sequence)
    (below : sequence < longMax) :
    nextSequence (writeQueued env db sequence record) = sequence + 1 := by
  have written : (writeQueued env db sequence record)[sequenceKey]? =
      some (ofLong (sequence + 1)) := by
    unfold writeQueued
    dsimp only
    rw [getElem?_insert, if_pos rfl]
  have range : IsLong (sequence + 1) := by
    constructor
    · exact le_trans (by decide : longMin ≤ 0) (by omega)
    · omega
  unfold nextSequence
  rw [written]
  dsimp only
  rw [atol_ofLong range, if_neg (by omega)]

end Safire.Mempool
