/-
What one access of a queue call does.

A call holds the records that it will return or queue again. An access keeps every
usable record in the queue or in its call, except where it deletes a record that
its call will neither return nor queue again, where it writes a record entry over
another one, and where a replacement trusts an index entry whose record is gone.
-/

import Safire.MempoolThreads

namespace Safire

open Text

namespace Mempool

/-! ### What a frame carries -/

/-- The records that a call has read from the queue. -/
def Frame.read : Frame → List Record
  | .getRecord _ _ _ scan => scan.records
  | .writeCleanup _ scan => scan.records
  | .readLegacy _ records => records
  | .prune records => records
  | .iterateRecords _ records => records
  | .iterateHashes _ records _ => records
  | .writeDeletes _ records _ => records
  | .truncate _ records => records
  | _ => []

def Clearer.held (read : List Record) : Clearer → List Record
  | .parse => read
  | .replace records => records

def Reader.held (read : List Record) : Reader → List Record
  | .clear clearer => clearer.held read
  | _ => []

def Queuer.held (record : Record) : Queuer → List Record
  | .call => []
  | .replace rest => record :: rest

/-- The records that a call will return or queue again. -/
def Frame.held : Frame → List Record
  | .getIndex queuer record => queuer.held record
  | .readQueueDat queuer record => queuer.held record
  | .getSequence queuer record => queuer.held record
  | .writeRecord queuer record _ => queuer.held record
  | .iterate reader => reader.held []
  | .getRecord reader _ _ scan => reader.held scan.records
  | .writeCleanup reader scan => reader.held scan.records
  | .readLegacy reader records => reader.held records
  | .iterateRecords clearer records => clearer.held records
  | .iterateHashes clearer records _ => clearer.held records
  | .writeDeletes clearer records _ => clearer.held records
  | .truncate clearer records => clearer.held records
  | .requeue records => records
  | .start _ | .prune _ => []

/-- The keys that a call is still to read. -/
def Frame.unread : Frame → List Text
  | .getRecord _ key keys _ => key :: keys
  | _ => []

/-- The keys that a call collects for its batch of deletes. -/
def Frame.deletes : Frame → List Text
  | .getRecord _ _ _ scan => scan.cleanup
  | .writeCleanup _ scan => scan.cleanup
  | .iterateHashes _ _ keys => keys
  | .writeDeletes _ _ keys => keys
  | _ => []

/-- Whether the call has read the queue file that it is going to clear. -/
def Frame.clears : Frame → Bool
  | .iterateRecords _ _ | .iterateHashes _ _ _ | .writeDeletes _ _ _ | .truncate _ _ => true
  | _ => false

def Outcome.held : Outcome → List Record
  | .inl frame => frame.held
  | .inr (.parsed records) => records
  | .inr _ => []

/-- A record entry, or a line of the queue file, reads as the record. -/
def Pending (env : Env) (store : PendingStore) (record : Record) : Prop :=
  Stored env store.db record ∨ ∃ line ∈ getLines store.queueDat, parseRecordJson env line = record

/-- The access does no damage. It writes over no other record entry, its call will
return or queue again every usable record that it deletes, and a replacement that
finds an index entry finds it for a pending record. -/
def Frame.Harmless (env : Env) (currentBlock : Int) (store : PendingStore) (frame : Frame) : Prop :=
  match frame with
  | .getIndex (.replace _) record =>
      hashKey record.hash ∈ store.db → keeps env currentBlock store.db record = true →
        Pending env store record
  | .writeRecord _ record sequence =>
      ∀ json, store.db[recordKey sequence record.hash]? = some json → json = recordJSON env record
  | .writeCleanup _ _ | .writeDeletes _ _ _ =>
      ∀ key ∈ frame.deletes, recordPrefix <+: key → ∀ json, store.db[key]? = some json →
        keeps env currentBlock store.db (parseRecordJson env json) = true →
        parseRecordJson env json ∈ frame.held
  | .truncate (.replace records) _ =>
      ∀ line ∈ getLines store.queueDat,
        keeps env currentBlock store.db (parseRecordJson env line) = true →
        parseRecordJson env line ∈ records
  | _ => True

/-! ### Records with hash texts of their own -/

/-- Records that read back, no two of them with one hash text. -/
structure Distinct (env : Env) (known : Record → Prop) : Prop where
  unique : ∀ left right, known left → known right → 0 < left.hash.length →
    right.hash = left.hash → right = left
  readsBack : ∀ record, known record → parseRecordJson env (recordJSON env record) = record

/-- The usable records of the store are known ones, and its chain is the given one. -/
structure StoreSane (env : Env) (known : Record → Prop) (chain : LevelDb) (currentBlock : Int)
    (store : PendingStore) : Prop where
  sameChain : SameChain chain store.db
  stored : ∀ record, Stored env store.db record → keeps env currentBlock chain record = true →
    known record
  file : ∀ line ∈ getLines store.queueDat,
    pendingRecordLooksUsable env currentBlock (parseRecordJson env line) = true →
    known (parseRecordJson env line)

/-- The records that a call queues are known ones. -/
def Call.Queues (known : Record → Prop) : Call → Prop
  | .addToQueue record => known record
  | .replacePendingQueueRecords records => ∀ record ∈ records, known record
  | _ => True

/-- The record that a call is queueing is a known one. -/
def Frame.Queues (env : Env) (known : Record → Prop) : Frame → Prop
  | .start call => call.Queues known
  | .getIndex _ record | .readQueueDat _ record =>
      known record ∧ isRecordSizeValid env record = true ∧ 0 < record.hash.length
  | .getSequence _ record | .writeRecord _ record _ =>
      known record ∧ isRecordSizeValid env record = true
  | _ => True

structure FrameSane (env : Env) (known : Record → Prop) (currentBlock : Int)
    (store : PendingStore) (frame : Frame) : Prop where
  queues : frame.Queues env known
  held : ∀ record ∈ frame.held, known record
  read : ∀ record ∈ frame.read, known record
  unread : ∀ key ∈ frame.unread, recordPrefix <+: key
  deletes : ∀ key ∈ frame.deletes, "mempool:".toList <+: key
  covers : frame.clears = true → ∀ line ∈ getLines store.queueDat,
    pendingRecordLooksUsable env currentBlock (parseRecordJson env line) = true →
    parseRecordJson env line ∈ frame.read

section Access

variable {env : Env} {known : Record → Prop} {chain : LevelDb} {currentBlock : Int}
variable {store : PendingStore} {frame : Frame} {record : Record}

/-! ### The store after an access -/

/-- The store after an access. A batch or the clearing of the file changes it. -/
def Frame.leaves (env : Env) (store : PendingStore) : Frame → PendingStore
  | .writeRecord _ record sequence => { store with db := writeQueued env store.db sequence record }
  | .writeCleanup _ scan => { store with db := deleteAll store.db scan.cleanup }
  | .writeDeletes _ _ keys => { store with db := deleteAll store.db keys }
  | .truncate _ _ => { store with queueDat := [] }
  | _ => store

theorem access_leaves (frame : Frame) :
    (frame.access env currentBlock store).2 = frame.leaves env store := by
  cases frame with
  | getIndex queuer record =>
      unfold Frame.access
      dsimp only
      split <;> rfl
  | readQueueDat queuer record =>
      unfold Frame.access
      dsimp only
      split <;> rfl
  | prune records =>
      unfold Frame.access
      dsimp only
      split <;> rfl
  | requeue records => cases records <;> rfl
  | _ => rfl

theorem mem_getLines_leaves {line : Text}
    (member : line ∈ getLines (frame.leaves env store).queueDat) :
    line ∈ getLines store.queueDat := by
  cases frame with
  | truncate clearer records => cases member
  | _ => exact member

theorem FrameSane.later {after : PendingStore} {time : Int}
    (sane : FrameSane env known currentBlock store frame) (order : currentBlock ≤ time)
    (lines : ∀ line ∈ getLines after.queueDat, line ∈ getLines store.queueDat) :
    FrameSane env known time after frame :=
  { sane with
    covers := fun clears line listed usable =>
      sane.covers clears line (lines line listed) (usable_mono order usable) }

theorem leaves_chain (sane : FrameSane env known currentBlock store frame) :
    SameChain store.db (frame.leaves env store).db := by
  cases frame with
  | writeRecord queuer record sequence => exact sameChain_writeQueued env store.db sequence record
  | writeCleanup reader scan => exact sameChain_deleteAll sane.deletes
  | writeDeletes clearer records keys => exact sameChain_deleteAll sane.deletes
  | _ => exact SameChain.refl store.db

/-- A record entry after an access was there before, or is the one that is written. -/
theorem stored_leaves (stored : Stored env (frame.leaves env store).db record) :
    Stored env store.db record ∨ ∃ queuer queued sequence,
      frame = .writeRecord queuer queued sequence ∧
        parseRecordJson env (recordJSON env queued) = record := by
  have deleted (keys : List Text) (stored : Stored env (deleteAll store.db keys) record) :
      Stored env store.db record := by
    obtain ⟨key, json, isRecord, value, parsed⟩ := stored
    rw [getElem?_deleteAll] at value
    split at value
    · cases value
    · exact ⟨key, json, isRecord, value, parsed⟩
  cases frame with
  | writeRecord queuer queued sequence =>
      obtain ⟨key, json, isRecord, value, parsed⟩ := stored
      change (writeQueued env store.db sequence queued)[key]? = some json at value
      rw [getElem?_writeQueued_record isRecord] at value
      split at value
      · rw [← Option.some.inj value] at parsed
        exact .inr ⟨queuer, queued, sequence, rfl, parsed⟩
      · exact .inl ⟨key, json, isRecord, value, parsed⟩
  | writeCleanup reader scan => exact .inl (deleted scan.cleanup stored)
  | writeDeletes clearer records keys => exact .inl (deleted keys stored)
  | _ => exact .inl stored

theorem StoreSane.leaves (distinct : Distinct env known)
    (sane : StoreSane env known chain currentBlock store)
    (inside : FrameSane env known currentBlock store frame) :
    StoreSane env known chain currentBlock (frame.leaves env store) where
  sameChain := sane.sameChain.trans (leaves_chain inside)
  stored := by
    intro record stored kept
    cases stored_leaves stored with
    | inl before => exact sane.stored record before kept
    | inr written =>
        obtain ⟨queuer, queued, sequence, rfl, parsed⟩ := written
        rw [distinct.readsBack queued inside.queues.1] at parsed
        exact parsed ▸ inside.queues.1
  file := by
    intro line listed usable
    exact sane.file line (mem_getLines_leaves listed) usable

/-- A record that reads back is pending once its entry is written. -/
theorem pending_written (distinct : Distinct env known) (listed : known record)
    (queuer : Queuer) (sequence : Int) :
    Pending env ((Frame.writeRecord queuer record sequence).leaves env store) record := by
  refine .inl ⟨recordKey sequence record.hash, recordJSON env record,
    recordPrefix_recordKey sequence record.hash, ?_, distinct.readsBack record listed⟩
  change (writeQueued env store.db sequence record)[_]? = _
  rw [getElem?_writeQueued_record (recordPrefix_recordKey _ _), if_pos rfl]

/-- A harmless access leaves a usable record pending, or its call holds it. -/
theorem pending_leaves (sane : StoreSane env known chain currentBlock store)
    (inside : FrameSane env known currentBlock store frame)
    (harmless : frame.Harmless env currentBlock store) (pending : Pending env store record)
    (kept : keeps env currentBlock chain record = true) :
    Pending env (frame.leaves env store) record ∨ record ∈ frame.held := by
  have keptHere : keeps env currentBlock store.db record = true := by
    rwa [sane.sameChain.keeps] at kept
  have spared (keys : List Text)
      (spares : ∀ key ∈ keys, recordPrefix <+: key → ∀ json, store.db[key]? = some json →
        keeps env currentBlock store.db (parseRecordJson env json) = true →
        parseRecordJson env json ∈ frame.held) :
      Pending env { store with db := deleteAll store.db keys } record ∨ record ∈ frame.held := by
    cases pending with
    | inr line => exact .inl (.inr line)
    | inl stored =>
        obtain ⟨key, json, isRecord, value, parsed⟩ := stored
        by_cases deleted : key ∈ keys
        · rw [← parsed] at keptHere ⊢
          exact .inr (spares key deleted isRecord json value keptHere)
        · refine .inl (.inl ⟨key, json, isRecord, ?_, parsed⟩)
          rw [getElem?_deleteAll, if_neg deleted]
          exact value
  cases frame with
  | writeCleanup reader scan => exact spared scan.cleanup harmless
  | writeDeletes clearer records keys => exact spared keys harmless
  | truncate clearer records =>
      cases pending with
      | inl stored => exact .inl (.inl stored)
      | inr line =>
          obtain ⟨line, listed, parsed⟩ := line
          right
          rw [← parsed] at kept keptHere ⊢
          cases clearer with
          | parse => exact inside.covers rfl line listed (keeps_usable kept)
          | replace queued => exact harmless line listed keptHere
  | writeRecord queuer queued sequence =>
      left
      cases pending with
      | inr line => exact .inr line
      | inl stored =>
          obtain ⟨key, json, isRecord, value, parsed⟩ := stored
          refine .inl ⟨key, json, isRecord, ?_, parsed⟩
          change (writeQueued env store.db sequence queued)[key]? = some json
          rw [getElem?_writeQueued_record isRecord]
          split
          · rename_i same
            rw [← same] at value
            rw [harmless json value]
          · exact value
  | _ => exact .inl pending

/-! ### The call after an access -/

/-- Before its first access `addToQueue` goes on, or returns for a record that no
reader keeps. -/
theorem startAdd_cases (env : Env) (currentBlock : Int) (db : LevelDb) (queuer : Queuer)
    (record : Record) :
    (startAdd env currentBlock db queuer record = .inl (.getIndex queuer record) ∧
      isRecordSizeValid env record = true ∧ 0 < record.hash.length) ∨
    (startAdd env currentBlock db queuer record = .inl (.getSequence queuer record) ∧
      isRecordSizeValid env record = true) ∨
    ∃ code, startAdd env currentBlock db queuer record = afterAdd record code queuer ∧
      (code = 1 → isRecordSizeValid env record = true) ∧
      keeps env currentBlock db record = false := by
  unfold startAdd
  by_cases sized : isRecordSizeValid env record = false
  · rw [if_pos sized]
    refine .inr (.inr ⟨0, rfl, fun one => absurd one (by decide), ?_⟩)
    simp [keeps, pendingRecordLooksUsable, sized]
  · rw [if_neg sized]
    rw [Bool.not_eq_false] at sized
    by_cases expired : isExpiredHeartbeatRecord record currentBlock = true
    · rw [if_pos expired]
      refine .inr (.inr ⟨1, rfl, fun _ => sized, ?_⟩)
      simp [keeps, pendingRecordLooksUsable, expired]
    · rw [if_neg expired]
      by_cases hashed : 0 < record.hash.length
      · rw [if_pos hashed]
        by_cases accepted : recordExistsInAcceptedChain env db record.hash = true
        · rw [if_pos accepted]
          refine .inr (.inr ⟨1, rfl, fun _ => sized, ?_⟩)
          simp [keeps, hashed, accepted]
        · rw [if_neg accepted]
          exact .inl ⟨rfl, sized, hashed⟩
      · rw [if_neg hashed]
        exact .inr (.inl ⟨rfl, sized⟩)

theorem Reader.held_mono {reader : Reader} {read more : List Record}
    (subset : ∀ record ∈ read, record ∈ more) (held : record ∈ reader.held read) :
    record ∈ reader.held more := by
  cases reader with
  | peek => cases held
  | prune => cases held
  | clear clearer =>
      cases clearer with
      | parse => exact subset record held
      | replace records => exact held

/-- A reader holds what it has read, or what it had to queue again before. -/
theorem Reader.held_cases (reader : Reader) {read : List Record} (before : List Record)
    (held : record ∈ reader.held read) : record ∈ read ∨ record ∈ reader.held before := by
  cases reader with
  | peek => cases held
  | prune => cases held
  | clear clearer =>
      cases clearer with
      | parse => exact .inl held
      | replace records => exact .inr held

theorem held_afterScan {reader : Reader} {scan : Scan} {keys : List Text} :
    (afterScan reader scan keys).held = reader.held scan.records := by
  cases keys with
  | cons key keys => rfl
  | nil =>
      rw [afterScan]
      split <;> rfl

theorem held_afterAdd {queuer : Queuer} {queued : Record} (code : Int)
    (held : record ∈ queuer.held queued) :
    record = queued ∨ record ∈ Outcome.held (afterAdd queued code queuer) := by
  cases queuer with
  | call => cases held
  | replace rest => exact List.mem_cons.mp held

/-- A record whose hash the queue file has is pending. -/
theorem pending_of_legacyHolds (distinct : Distinct env known)
    (sane : StoreSane env known chain currentBlock store) (listed : known record)
    (hashed : 0 < record.hash.length)
    (found : legacyHolds env currentBlock store.queueDat record.hash = true) :
    Pending env store record := by
  obtain ⟨other, read, hash⟩ := List.any_eq_true.mp found
  obtain ⟨⟨line, member, parsed⟩, usable⟩ := mem_legacyQueueRecords.mp read
  rw [← parsed] at usable
  refine .inr ⟨line, member,
    distinct.unique record _ listed (sane.file line member usable) hashed ?_⟩
  rw [parsed]
  exact of_decide_eq_true hash

/-- What a call holds it still holds after its access, or the record is pending. -/
theorem held_access (distinct : Distinct env known)
    (sane : StoreSane env known chain currentBlock store)
    (inside : FrameSane env known currentBlock store frame)
    (harmless : frame.Harmless env currentBlock store)
    (kept : keeps env currentBlock chain record = true) (held : record ∈ frame.held) :
    Pending env (frame.leaves env store) record ∨
      record ∈ Outcome.held (frame.access env currentBlock store).1 := by
  have keptHere : keeps env currentBlock store.db record = true := by
    rwa [sane.sameChain.keeps] at kept
  cases frame with
  | start call => cases held
  | prune records => cases held
  | getIndex queuer queued =>
      unfold Frame.access
      dsimp only
      split
      · rename_i found
        cases held_afterAdd _ held with
        | inr later => exact .inr later
        | inl same =>
            cases queuer with
            | call => cases held
            | replace rest => exact .inl (same ▸ harmless found (same ▸ keptHere))
      · exact .inr held
  | readQueueDat queuer queued =>
      unfold Frame.access
      dsimp only
      split
      · rename_i found
        cases held_afterAdd _ held with
        | inr later => exact .inr later
        | inl same =>
            subst same
            exact .inl
              (pending_of_legacyHolds distinct sane inside.queues.1 inside.queues.2.2 found)
      · exact .inr held
  | getSequence queuer queued => exact .inr held
  | writeRecord queuer queued sequence =>
      cases held_afterAdd 1 held with
      | inr later => exact .inr later
      | inl same =>
          subst same
          exact .inl (pending_written distinct inside.queues.1 queuer sequence)
  | iterate reader =>
      right
      change record ∈ (afterScan reader _ _).held
      rw [held_afterScan]
      exact held
  | getRecord reader key keys scan =>
      right
      change record ∈ (afterScan reader _ keys).held
      rw [held_afterScan]
      exact reader.held_mono (fun _ read => mem_scanKey_records.mpr (.inl read)) held
  | writeCleanup reader scan => exact .inr held
  | readLegacy reader records =>
      right
      have more : record ∈ reader.held
          (records ++ legacyQueueRecords env currentBlock store.queueDat) :=
        reader.held_mono (fun _ read => List.mem_append_left _ read) held
      cases reader with
      | peek => cases held
      | prune => cases held
      | clear clearer => exact more
  | iterateRecords clearer records => exact .inr held
  | iterateHashes clearer records keys => exact .inr held
  | writeDeletes clearer records keys => exact .inr held
  | truncate clearer records =>
      right
      cases clearer with
      | replace queued => exact held
      | parse =>
          apply mem_dedupe_of_alone held
          intro other listed hashed same
          exact distinct.unique record other (inside.held record held) (inside.held other listed)
            hashed same
  | requeue records =>
      right
      cases records with
      | nil => cases held
      | cons queued rest =>
          change record ∈ Outcome.held (startAdd env currentBlock store.db (.replace rest) queued)
          cases startAdd_cases env currentBlock store.db (.replace rest) queued with
          | inl starts =>
              rw [starts.1]
              exact held
          | inr other =>
              cases other with
              | inl starts =>
                  rw [starts.1]
                  exact held
              | inr skips =>
                  obtain ⟨code, skips, -, dropped⟩ := skips
                  rw [skips]
                  cases List.mem_cons.mp held with
                  | inr later => exact later
                  | inl same =>
                      rw [← same, keptHere] at dropped
                      cases dropped

/-- A frame that has read nothing yet and deletes nothing. -/
theorem FrameSane.of_unread (queues : frame.Queues env known)
    (held : ∀ record ∈ frame.held, known record) (read : frame.read = [])
    (unread : frame.unread = []) (deletes : frame.deletes = []) (clears : frame.clears = false) :
    FrameSane env known currentBlock store frame where
  queues := queues
  held := held
  read := read ▸ List.forall_mem_nil _
  unread := unread ▸ List.forall_mem_nil _
  deletes := deletes ▸ List.forall_mem_nil _
  covers := fun late => absurd late (by simp [clears])

theorem sane_afterAdd {queuer : Queuer} {code : Int} {next : Frame}
    (held : ∀ other ∈ queuer.held record, known other)
    (goes : afterAdd record code queuer = .inl next) :
    FrameSane env known currentBlock store next := by
  cases queuer with
  | call => cases goes
  | replace rest =>
      cases goes
      exact .of_unread trivial (fun other listed => held other (List.mem_cons_of_mem _ listed))
        rfl rfl rfl rfl

theorem sane_startAdd {queuer : Queuer} {next : Frame} (listed : known record)
    (held : ∀ other ∈ queuer.held record, known other)
    (goes : startAdd env currentBlock store.db queuer record = .inl next) :
    FrameSane env known currentBlock store next := by
  cases startAdd_cases env currentBlock store.db queuer record with
  | inl starts =>
      rw [starts.1] at goes
      cases goes
      exact .of_unread ⟨listed, starts.2⟩ held rfl rfl rfl rfl
  | inr other =>
      cases other with
      | inl starts =>
          rw [starts.1] at goes
          cases goes
          exact .of_unread ⟨listed, starts.2⟩ held rfl rfl rfl rfl
      | inr skips =>
          obtain ⟨code, skips, -⟩ := skips
          exact sane_afterAdd held (skips ▸ goes)

theorem sane_afterScan {reader : Reader} {scan : Scan} {keys : List Text}
    (held : ∀ record ∈ reader.held scan.records, known record)
    (read : ∀ record ∈ scan.records, known record)
    (unread : ∀ key ∈ keys, recordPrefix <+: key)
    (deletes : ∀ key ∈ scan.cleanup, "mempool:".toList <+: key) :
    FrameSane env known currentBlock store (afterScan reader scan keys) := by
  have noClear (clears : false = true) : ∀ line ∈ getLines store.queueDat,
      pendingRecordLooksUsable env currentBlock (parseRecordJson env line) = true →
      parseRecordJson env line ∈ scan.records := absurd clears Bool.false_ne_true
  cases keys with
  | cons key keys => exact ⟨trivial, held, read, unread, deletes, noClear⟩
  | nil =>
      rw [afterScan]
      split
      · exact ⟨trivial, held, read, List.forall_mem_nil _, List.forall_mem_nil _, noClear⟩
      · exact ⟨trivial, held, read, List.forall_mem_nil _, deletes, noClear⟩

/-- What a reader has read of the database and the file is known. -/
theorem known_of_legacy (sane : StoreSane env known chain currentBlock store)
    (listed : record ∈ legacyQueueRecords env currentBlock store.queueDat) : known record := by
  obtain ⟨⟨line, member, parsed⟩, usable⟩ := mem_legacyQueueRecords.mp listed
  rw [← parsed] at usable ⊢
  exact sane.file line member usable

theorem known_of_scanKey (sane : StoreSane env known chain currentBlock store) {scan : Scan}
    {key : Text} (isRecord : recordPrefix <+: key) (read : ∀ record ∈ scan.records, known record)
    (listed : record ∈ (scanKey env currentBlock store.db scan key).records) : known record := by
  cases mem_scanKey_records.mp listed with
  | inl old => exact read record old
  | inr new =>
      obtain ⟨json, value, parsed, kept⟩ := new
      rw [← sane.sameChain.keeps] at kept
      exact sane.stored record ⟨key, json, isRecord, value, parsed⟩ kept

theorem FrameSane.access {next : Frame} (sane : StoreSane env known chain currentBlock store)
    (inside : FrameSane env known currentBlock store frame)
    (goes : (frame.access env currentBlock store).1 = .inl next) :
    FrameSane env known currentBlock (frame.leaves env store) next := by
  cases frame with
  | start call =>
      cases call with
      | addToQueue record =>
          exact sane_startAdd inside.queues (List.forall_mem_nil _) goes
      | replacePendingQueueRecords records =>
          cases goes
          exact .of_unread trivial inside.queues rfl rfl rfl rfl
      | peekQueueRecords =>
          cases goes
          exact .of_unread trivial (List.forall_mem_nil _) rfl rfl rfl rfl
      | parseQueueRecords =>
          cases goes
          exact .of_unread trivial (List.forall_mem_nil _) rfl rfl rfl rfl
      | pruneAcceptedQueueRecords =>
          cases goes
          exact .of_unread trivial (List.forall_mem_nil _) rfl rfl rfl rfl
  | getIndex queuer record =>
      unfold Frame.access at goes
      dsimp only at goes
      split at goes
      · exact sane_afterAdd inside.held goes
      · cases goes
        exact .of_unread inside.queues inside.held rfl rfl rfl rfl
  | readQueueDat queuer record =>
      unfold Frame.access at goes
      dsimp only at goes
      split at goes
      · exact sane_afterAdd inside.held goes
      · cases goes
        exact .of_unread ⟨inside.queues.1, inside.queues.2.1⟩ inside.held rfl rfl rfl rfl
  | getSequence queuer record =>
      cases goes
      exact .of_unread inside.queues inside.held rfl rfl rfl rfl
  | writeRecord queuer record sequence => exact sane_afterAdd inside.held goes
  | iterate reader =>
      cases goes
      exact sane_afterScan inside.held (List.forall_mem_nil _)
        (fun key listed => (mem_keysWithPrefix.mp listed).2) (List.forall_mem_nil _)
  | getRecord reader key keys scan =>
      cases goes
      have read : ∀ record ∈ (scanKey env currentBlock store.db scan key).records, known record :=
        fun record listed =>
          known_of_scanKey sane (inside.unread key List.mem_cons_self) inside.read listed
      apply sane_afterScan
      · intro record listed
        cases Reader.held_cases _ scan.records listed with
        | inl new => exact read record new
        | inr old => exact inside.held record old
      · exact read
      · exact fun other listed => inside.unread other (List.mem_cons_of_mem _ listed)
      · intro other listed
        cases mem_scanKey_cleanup listed with
        | inl old => exact inside.deletes other old
        | inr added =>
            cases added with
            | inl index => exact mempool_of_hash index
            | inr own =>
                rw [own.1]
                exact mempool_of_record (inside.unread key List.mem_cons_self)
  | writeCleanup reader scan =>
      cases goes
      exact ⟨trivial, inside.held, inside.read, List.forall_mem_nil _, List.forall_mem_nil _,
        fun clears => absurd clears Bool.false_ne_true⟩
  | readLegacy reader records =>
      have read : ∀ record ∈ records ++ legacyQueueRecords env currentBlock store.queueDat,
          known record := by
        intro record listed
        cases List.mem_append.mp listed with
        | inl old => exact inside.read record old
        | inr line => exact known_of_legacy sane line
      cases reader with
      | peek => cases goes
      | prune =>
          cases goes
          exact ⟨trivial, List.forall_mem_nil _, fun record listed =>
            read record (mem_of_dedupe listed), List.forall_mem_nil _, List.forall_mem_nil _,
            fun clears => absurd clears Bool.false_ne_true⟩
      | clear clearer =>
          cases goes
          refine ⟨trivial, ?_, read, List.forall_mem_nil _, List.forall_mem_nil _, ?_⟩
          · intro record listed
            cases Reader.held_cases (.clear clearer) records listed with
            | inl new => exact read record new
            | inr old => exact inside.held record old
          · intro _ line listed usable
            exact List.mem_append_right _
              (mem_legacyQueueRecords.mpr ⟨⟨line, listed, rfl⟩, usable⟩)
  | prune records =>
      unfold Frame.access at goes
      dsimp only at goes
      split at goes
      · cases goes
        refine .of_unread trivial ?_ rfl rfl rfl rfl
        intro record listed
        cases BlockBuilder.mem_kept_foldl_pruneRound listed with
        | inl none => cases none
        | inr kept => exact inside.read record kept.1
      · cases goes
  | iterateRecords clearer records =>
      cases goes
      exact ⟨trivial, inside.held, inside.read, List.forall_mem_nil _,
        fun key listed => mempool_of_record (mem_keysWithPrefix.mp listed).2, inside.covers⟩
  | iterateHashes clearer records keys =>
      cases goes
      refine ⟨trivial, inside.held, inside.read, List.forall_mem_nil _, ?_, inside.covers⟩
      intro key listed
      cases List.mem_append.mp listed with
      | inl old => exact inside.deletes key old
      | inr index => exact mempool_of_hash (mem_keysWithPrefix.mp index).2
  | writeDeletes clearer records keys =>
      cases goes
      exact ⟨trivial, inside.held, inside.read, List.forall_mem_nil _, List.forall_mem_nil _,
        inside.covers⟩
  | truncate clearer records =>
      cases clearer with
      | parse => cases goes
      | replace queued =>
          cases goes
          exact .of_unread trivial inside.held rfl rfl rfl rfl
  | requeue records =>
      cases records with
      | nil => cases goes
      | cons record rest =>
          have held : ∀ other ∈ Queuer.held record (.replace rest), known other := inside.held
          exact sane_startAdd (inside.held record List.mem_cons_self) held goes

/-- An index entry after an access was there before, or its record is stored. -/
theorem indexed_leaves {hash : Text} (distinct : Distinct env known)
    (inside : FrameSane env known currentBlock store frame)
    (indexed : hashKey hash ∈ (frame.leaves env store).db) :
    hashKey hash ∈ store.db ∨ ∃ record, known record ∧ record.hash = hash ∧
      Pending env (frame.leaves env store) record := by
  cases frame with
  | writeRecord queuer record sequence =>
      have written : hashKey hash ∈ writeQueued env store.db sequence record := indexed
      rw [Std.ExtTreeMap.mem_iff_isSome_getElem?, getElem?_writeQueued_hash] at written
      split at written
      · rename_i own
        exact .inr ⟨record, inside.queues.1, own.2,
          pending_written distinct inside.queues.1 queuer sequence⟩
      · exact .inl (Std.ExtTreeMap.mem_iff_isSome_getElem?.mpr written)
  | writeCleanup reader scan => exact .inl (mem_deleteAll.mp indexed).1
  | writeDeletes clearer records keys => exact .inl (mem_deleteAll.mp indexed).1
  | _ => exact .inl indexed

/-- A call that returns 1 has written its record, or has found one under its hash, or
no reader keeps the record. -/
theorem added_access (distinct : Distinct env known)
    (sane : StoreSane env known chain currentBlock store)
    (inside : FrameSane env known currentBlock store frame)
    (returns : (frame.access env currentBlock store).1 = .inr (.added record 1)) :
    known record ∧ isRecordSizeValid env record = true ∧
      (Pending env (frame.leaves env store) record ∨
        0 < record.hash.length ∧ hashKey record.hash ∈ store.db ∨
        keeps env currentBlock store.db record = false) := by
  have own {queuer : Queuer} {queued : Record}
      (returned : afterAdd queued 1 queuer = .inr (.added record 1)) : queued = record := by
    cases queuer with
    | call =>
        cases returned
        rfl
    | replace rest => cases returned
  cases frame with
  | start call =>
      cases call with
      | addToQueue queued =>
          change startAdd env currentBlock store.db .call queued = _ at returns
          cases startAdd_cases env currentBlock store.db .call queued with
          | inl starts =>
              rw [starts.1] at returns
              cases returns
          | inr other =>
              cases other with
              | inl starts =>
                  rw [starts.1] at returns
                  cases returns
              | inr skips =>
                  obtain ⟨code, skips, sized, dropped⟩ := skips
                  rw [skips] at returns
                  cases returns
                  exact ⟨inside.queues, sized rfl, .inr (.inr dropped)⟩
      | _ => cases returns
  | getIndex queuer queued =>
      unfold Frame.access at returns
      dsimp only at returns
      split at returns
      · rename_i found
        have same := own returns
        subst same
        exact ⟨inside.queues.1, inside.queues.2.1, .inr (.inl ⟨inside.queues.2.2, found⟩)⟩
      · cases returns
  | readQueueDat queuer queued =>
      unfold Frame.access at returns
      dsimp only at returns
      split at returns
      · rename_i found
        have same := own returns
        subst same
        exact ⟨inside.queues.1, inside.queues.2.1, .inl
          (pending_of_legacyHolds distinct sane inside.queues.1 inside.queues.2.2 found)⟩
      · cases returns
  | writeRecord queuer queued sequence =>
      have same := own returns
      subst same
      exact ⟨inside.queues.1, inside.queues.2,
        .inl (pending_written distinct inside.queues.1 queuer sequence)⟩
  | readLegacy reader records => cases reader <;> cases returns
  | prune records =>
      unfold Frame.access at returns
      dsimp only at returns
      split at returns <;> cases returns
  | truncate clearer records => cases clearer <;> cases returns
  | requeue records =>
      cases records with
      | nil => cases returns
      | cons queued rest =>
          change startAdd env currentBlock store.db (.replace rest) queued = _ at returns
          cases startAdd_cases env currentBlock store.db (.replace rest) queued with
          | inl starts =>
              rw [starts.1] at returns
              cases returns
          | inr other =>
              cases other with
              | inl starts =>
                  rw [starts.1] at returns
                  cases returns
              | inr skips =>
                  obtain ⟨code, skips, -⟩ := skips
                  rw [skips] at returns
                  cases returns
  | _ => cases returns

end Access

end Mempool

end Safire
