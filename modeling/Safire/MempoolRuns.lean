/-
What no interleaving of the queue calls loses.

A record is accounted for while it is stored, while a running call will still
return it or queue it again, and once `parseQueueRecords` has returned it. Every
access without damage keeps this for every usable record.
-/

import Safire.MempoolAccess

namespace Safire

open Text

namespace Mempool

/-! ### The whole system -/

/-- A record is pending, will be returned or queued again by a running call, or has
been returned by `parseQueueRecords`. -/
def Accounted (env : Env) (system : System) (record : Record) : Prop :=
  Pending env system.store record ∨
    (∃ thread ∈ system.threads, ∃ frame, thread.running = some frame ∧ record ∈ frame.held) ∨
    ∃ records, .parsed records ∈ system.replies ∧ record ∈ records

structure ThreadSane (env : Env) (known : Record → Prop) (currentBlock : Int)
    (store : PendingStore) (thread : Thread) : Prop where
  later : ∀ call ∈ thread.later, call.Queues known
  running : ∀ frame, thread.running = some frame → FrameSane env known currentBlock store frame

/-- Every usable record that was queued, or has an index entry, is accounted for. -/
structure Sane (env : Env) (known : Record → Prop) (chain : LevelDb) (system : System) :
    Prop where
  store : StoreSane env known chain system.currentBlock system.store
  threads : ∀ thread ∈ system.threads,
    ThreadSane env known system.currentBlock system.store thread
  indexed : ∀ hash, 0 < hash.length → hashKey hash ∈ system.store.db →
    ∃ record, known record ∧ record.hash = hash ∧
      (keeps env system.currentBlock chain record = true → Accounted env system record)
  added : ∀ record, .added record 1 ∈ system.replies →
    known record ∧ isRecordSizeValid env record = true ∧
      (keeps env system.currentBlock chain record = true → Accounted env system record)

/-- The calls queue known records, and no access does damage. -/
def Action.Careful (env : Env) (known : Record → Prop) (system : System) : Action → Prop
  | .tick _ => True
  | .spawn calls => ∀ call ∈ calls, call.Queues known
  | .access index => ∀ frame later, system.threads[index]? = some ⟨some frame, later⟩ →
      frame.Harmless env system.currentBlock system.store

section System

variable {env : Env} {known : Record → Prop} {chain : LevelDb} {currentBlock : Int}
variable {store : PendingStore} {system : System} {record : Record}

theorem sane_fresh {calls : List Call} (queues : ∀ call ∈ calls, call.Queues known) :
    ThreadSane env known currentBlock store (Thread.fresh calls) := by
  cases calls with
  | nil => exact ⟨List.forall_mem_nil _, fun frame none => by cases none⟩
  | cons call later =>
      refine ⟨fun other listed => queues other (List.mem_cons_of_mem _ listed), ?_⟩
      intro frame runs
      cases runs
      exact .of_unread (queues call List.mem_cons_self) (List.forall_mem_nil _) rfl rfl rfl rfl

theorem sane_resume {later : List Call} {outcome : Outcome}
    (queues : ∀ call ∈ later, call.Queues known)
    (goes : ∀ next, outcome = .inl next → FrameSane env known currentBlock store next) :
    ThreadSane env known currentBlock store (resume later outcome).2 := by
  cases outcome with
  | inr reply => exact sane_fresh queues
  | inl next =>
      refine ⟨queues, ?_⟩
      intro frame runs
      cases runs
      exact goes next rfl

/-- What the outcome of an access holds stays with the thread, or is returned. -/
theorem held_resume (later : List Call) {outcome : Outcome} (held : record ∈ outcome.held) :
    (∃ frame, (resume later outcome).2.running = some frame ∧ record ∈ frame.held) ∨
      ∃ records, .parsed records ∈ (resume later outcome).1 ∧ record ∈ records := by
  cases outcome with
  | inl next => exact .inl ⟨next, rfl, held⟩
  | inr reply =>
      cases reply with
      | parsed records => exact .inr ⟨records, List.mem_cons_self, held⟩
      | _ => cases held

theorem step_access {index : Nat} {frame : Frame} {later : List Call}
    (runs : system.threads[index]? = some ⟨some frame, later⟩) :
    system.step env (.access index) =
      let resumed := resume later (frame.access env system.currentBlock system.store).1
      { system with
        store := frame.leaves env system.store
        threads := system.threads.set index resumed.2
        replies := system.replies ++ resumed.1 } := by
  unfold System.step
  dsimp only
  rw [runs, ← @access_leaves env system.currentBlock]

theorem Accounted.mono {after : System} (accounted : Accounted env system record)
    (pending : Pending env system.store record → Accounted env after record)
    (held : ∀ thread ∈ system.threads, ∀ frame, thread.running = some frame →
      record ∈ frame.held → Accounted env after record)
    (replies : ∀ reply ∈ system.replies, reply ∈ after.replies) : Accounted env after record := by
  cases accounted with
  | inl stored => exact pending stored
  | inr other =>
      cases other with
      | inl running =>
          obtain ⟨thread, member, frame, runs, holds⟩ := running
          exact held thread member frame runs holds
      | inr returned =>
          obtain ⟨records, listed, member⟩ := returned
          exact .inr (.inr ⟨records, replies _ listed, member⟩)

/-- A usable record that is accounted for stays so. -/
theorem Accounted.access (distinct : Distinct env known) (sane : Sane env known chain system)
    {index : Nat} {frame : Frame} {later : List Call}
    (runs : system.threads[index]? = some ⟨some frame, later⟩)
    (harmless : frame.Harmless env system.currentBlock system.store)
    (kept : keeps env system.currentBlock chain record = true)
    (accounted : Accounted env system record) :
    Accounted env (system.step env (.access index)) record := by
  have inside : FrameSane env known system.currentBlock system.store frame :=
    (sane.threads _ (List.mem_of_getElem? runs)).running frame rfl
  have inRange : index < system.threads.length := (List.getElem?_eq_some_iff.mp runs).1
  have stays (pending : Pending env (frame.leaves env system.store) record) :
      Accounted env (system.step env (.access index)) record := by
    rw [step_access runs]
    exact .inl pending
  have own (holds : record ∈ frame.held) :
      Accounted env (system.step env (.access index)) record := by
    cases held_access distinct sane.store inside harmless kept holds with
    | inl pending => exact stays pending
    | inr outcome =>
        rw [step_access runs]
        cases held_resume later outcome with
        | inl running =>
            obtain ⟨next, goes, held⟩ := running
            exact .inr (.inl ⟨_, List.mem_set inRange _, next, goes, held⟩)
        | inr returned =>
            obtain ⟨records, listed, member⟩ := returned
            exact .inr (.inr ⟨records, List.mem_append_right _ listed, member⟩)
  apply accounted.mono
  · intro pending
    cases pending_leaves sane.store inside harmless pending kept with
    | inl after => exact stays after
    | inr holds => exact own holds
  · intro thread member other running holds
    obtain ⟨place, found⟩ := List.getElem?_of_mem member
    by_cases same : index = place
    · rw [← same, runs] at found
      cases found
      cases running
      exact own holds
    · rw [step_access runs]
      refine .inr (.inl ⟨thread, ?_, other, running, holds⟩)
      apply List.mem_of_getElem? (i := place)
      rw [List.getElem?_set_ne same]
      exact found
  · intro reply listed
    rw [step_access runs]
    exact List.mem_append_left _ listed

theorem Sane.tick (sane : Sane env known chain system) (time : Int) :
    Sane env known chain (system.step env (.tick time)) := by
  have order : system.currentBlock ≤ max system.currentBlock time := le_max_left _ _
  refine ⟨⟨sane.store.sameChain, ?_, ?_⟩, ?_, ?_, ?_⟩
  · exact fun record stored kept => sane.store.stored record stored (keeps_mono order kept)
  · exact fun line listed usable => sane.store.file line listed (usable_mono order usable)
  · intro thread member
    have before := sane.threads thread member
    exact ⟨before.later, fun frame runs => (before.running frame runs).later order
      fun _ listed => listed⟩
  · intro hash hashed indexed
    obtain ⟨record, listed, same, accounted⟩ := sane.indexed hash hashed indexed
    exact ⟨record, listed, same, fun kept => accounted (keeps_mono order kept)⟩
  · intro record replied
    obtain ⟨listed, sized, accounted⟩ := sane.added record replied
    exact ⟨listed, sized, fun kept => accounted (keeps_mono order kept)⟩

theorem Sane.spawn (sane : Sane env known chain system) {calls : List Call}
    (queues : ∀ call ∈ calls, call.Queues known) :
    Sane env known chain (system.step env (.spawn calls)) := by
  have accounted (record : Record) (before : Accounted env system record) :
      Accounted env (system.step env (.spawn calls)) record := by
    apply before.mono
    · exact .inl
    · exact fun other member frame runs holds =>
        .inr (.inl ⟨other, List.mem_append_left _ member, frame, runs, holds⟩)
    · exact fun reply listed => listed
  refine ⟨sane.store, ?_, ?_, ?_⟩
  · intro other member
    cases List.mem_append.mp member with
    | inl old => exact sane.threads other old
    | inr new => exact List.mem_singleton.mp new ▸ sane_fresh queues
  · intro hash hashed indexed
    obtain ⟨record, listed, same, before⟩ := sane.indexed hash hashed indexed
    exact ⟨record, listed, same, fun kept => accounted record (before kept)⟩
  · intro record replied
    obtain ⟨listed, sized, before⟩ := sane.added record replied
    exact ⟨listed, sized, fun kept => accounted record (before kept)⟩

theorem Sane.access (distinct : Distinct env known) (sane : Sane env known chain system)
    {index : Nat} {frame : Frame} {later : List Call}
    (runs : system.threads[index]? = some ⟨some frame, later⟩)
    (harmless : frame.Harmless env system.currentBlock system.store) :
    Sane env known chain (system.step env (.access index)) := by
  have thread := sane.threads _ (List.mem_of_getElem? runs)
  have inside : FrameSane env known system.currentBlock system.store frame :=
    thread.running frame rfl
  have accounted (record : Record)
      (before : keeps env system.currentBlock chain record = true → Accounted env system record)
      (kept : keeps env system.currentBlock chain record = true) :
      Accounted env (system.step env (.access index)) record :=
    (before kept).access distinct sane runs harmless kept
  rw [step_access runs] at accounted ⊢
  refine ⟨sane.store.leaves distinct inside, ?_, ?_, ?_⟩
  · intro other member
    cases List.mem_or_eq_of_mem_set member with
    | inr new =>
        rw [new]
        exact sane_resume thread.later fun next goes => inside.access sane.store goes
    | inl old =>
        have before := sane.threads other old
        exact ⟨before.later, fun running runs => (before.running running runs).later (le_refl _)
          fun line listed => mem_getLines_leaves listed⟩
  · intro hash hashed indexed
    cases indexed_leaves distinct inside indexed with
    | inl old =>
        obtain ⟨record, listed, same, before⟩ := sane.indexed hash hashed old
        exact ⟨record, listed, same, accounted record before⟩
    | inr new =>
        obtain ⟨record, listed, same, now⟩ := new
        exact ⟨record, listed, same, fun _ => .inl now⟩
  · intro record replied
    cases List.mem_append.mp replied with
    | inl old =>
        obtain ⟨listed, sized, before⟩ := sane.added record old
        exact ⟨listed, sized, accounted record before⟩
    | inr new =>
        have returns : (frame.access env system.currentBlock system.store).1 =
            .inr (.added record 1) := by
          cases outcome : (frame.access env system.currentBlock system.store).1 with
          | inl next =>
              rw [outcome] at new
              cases new
          | inr reply =>
              rw [outcome] at new
              exact congrArg Sum.inr (List.mem_singleton.mp new).symm
        obtain ⟨listed, sized, found⟩ := added_access distinct sane.store inside returns
        refine ⟨listed, sized, fun kept => ?_⟩
        cases found with
        | inl pending => exact .inl pending
        | inr known =>
            cases known with
            | inl index =>
                obtain ⟨other, member, same, before⟩ := sane.indexed record.hash index.1 index.2
                rw [distinct.unique record other listed member index.1 same] at before
                exact accounted record before kept
            | inr dropped =>
                rw [sane.store.sameChain.keeps, dropped] at kept
                cases kept

/-- One step keeps the records accounted for. -/
theorem Sane.step (distinct : Distinct env known) (sane : Sane env known chain system)
    {action : Action} (careful : action.Careful env known system) :
    Sane env known chain (system.step env action) := by
  cases action with
  | tick time => exact sane.tick time
  | spawn calls => exact sane.spawn careful
  | access index =>
      cases found : system.threads[index]? with
      | none =>
          unfold System.step
          dsimp only
          rw [found]
          exact sane
      | some thread =>
          obtain ⟨running, later⟩ := thread
          cases running with
          | none =>
              unfold System.step
              dsimp only
              rw [found]
              exact sane
          | some frame => exact sane.access distinct found (careful frame later found)

end System

/-! ### Every interleaving -/

/-- A queue whose usable records are known ones, and whose index entries name
such records. -/
structure Orderly (env : Env) (known : Record → Prop) (currentBlock : Int) (store : PendingStore) :
    Prop where
  stored : ∀ record, Stored env store.db record →
    keeps env currentBlock store.db record = true → known record
  file : ∀ line ∈ getLines store.queueDat,
    pendingRecordLooksUsable env currentBlock (parseRecordJson env line) = true →
    known (parseRecordJson env line)
  indexed : ∀ hash, 0 < hash.length → hashKey hash ∈ store.db →
    ∃ record, known record ∧ record.hash = hash ∧
      (keeps env currentBlock store.db record = true → Pending env store record)

theorem orderly_empty (env : Env) (known : Record → Prop) (currentBlock : Int) :
    Orderly env known currentBlock ⟨∅, []⟩ where
  stored := by
    intro record stored
    obtain ⟨key, json, -, value, -⟩ := stored
    simp at value
  file := List.forall_mem_nil _
  indexed := by
    intro hash _ indexed
    simp at indexed

theorem Orderly.sane {env : Env} {known : Record → Prop} {currentBlock : Int}
    {store : PendingStore} (orderly : Orderly env known currentBlock store) :
    Sane env known store.db (.initial store currentBlock) where
  store := ⟨SameChain.refl store.db, orderly.stored, orderly.file⟩
  threads := List.forall_mem_nil _
  indexed := by
    intro hash hashed indexed
    obtain ⟨record, listed, same, pending⟩ := orderly.indexed hash hashed indexed
    exact ⟨record, listed, same, fun kept => .inl (pending kept)⟩
  added := by
    intro record none
    cases none

/-- A pending record that the readers keep is among what they return. -/
theorem mem_peek_of_pending {env : Env} {known : Record → Prop} {chain : LevelDb}
    {currentBlock : Int} {store : PendingStore} {record : Record} (distinct : Distinct env known)
    (sane : StoreSane env known chain currentBlock store) (pending : Pending env store record)
    (kept : keeps env currentBlock chain record = true) :
    record ∈ (peekQueueRecords env currentBlock true store).1 := by
  have keepsHere : keeps env currentBlock store.db record = true :=
    (sane.sameChain.keeps currentBlock record).symm.trans kept
  have knownOf (other : Record)
      (listed : other ∈ (readPending env currentBlock true store).1) : known other := by
    cases mem_readPending.mp listed with
    | inl stored =>
        obtain ⟨-, found, keepsOther⟩ := stored
        rw [← sane.sameChain.keeps] at keepsOther
        exact sane.stored other found keepsOther
    | inr read =>
        obtain ⟨⟨line, member, parsed⟩, usable⟩ := mem_legacyQueueRecords.mp read
        rw [← parsed] at usable ⊢
        exact sane.file line member usable
  have listed : record ∈ (readPending env currentBlock true store).1 := by
    rw [mem_readPending]
    cases pending with
    | inl stored => exact .inl ⟨rfl, stored, keepsHere⟩
    | inr line => exact .inr (mem_legacyQueueRecords.mpr ⟨line, keeps_usable kept⟩)
  rw [peekQueueRecords_records]
  apply mem_dedupe_of_alone listed
  intro other member hashed same
  exact distinct.unique record other (knownOf record listed) (knownOf other member) hashed same

/-- Two records with digests of their own are written to entries of their own,
whatever sequence numbers their calls have read. -/
theorem writes_apart {env : Env} {left right : Record} (leftDigest : left.hash.length = 64)
    (rightDigest : right.hash.length = 64) (different : left.hash ≠ right.hash) (db : LevelDb)
    (first second : Int) :
    let written := writeQueued env (writeQueued env db first left) second right
    written[recordKey first left.hash]? = some (recordJSON env left) ∧
      written[hashKey left.hash]? = some (recordKey first left.hash) ∧
      written[recordKey second right.hash]? = some (recordJSON env right) ∧
      written[hashKey right.hash]? = some (recordKey second right.hash) := by
  have hashed : 0 < left.hash.length := by omega
  have alsoHashed : 0 < right.hash.length := by omega
  dsimp only
  refine ⟨?_, ?_, ?_, ?_⟩
  · rw [getElem?_writeQueued_record (recordPrefix_recordKey _ _),
      if_neg fun same => different (hash_of_recordKey leftDigest same).symm,
      getElem?_writeQueued_record (recordPrefix_recordKey _ _), if_pos rfl]
  · rw [getElem?_writeQueued_hash, if_neg fun both => different both.2.symm,
      getElem?_writeQueued_hash, if_pos ⟨hashed, rfl⟩]
  · rw [getElem?_writeQueued_record (recordPrefix_recordKey _ _), if_pos rfl]
  · rw [getElem?_writeQueued_hash, if_pos ⟨alsoHashed, rfl⟩]

/-- In every interleaving without a damaging access, a record that was queued is
pending, or a running call will return it or queue it again, or it was returned, and
concurrent writes of different records stay apart. -/
theorem no_update_lost (env : Env) (known : Record → Prop) (store : PendingStore)
    (currentBlock : Int) (actions : List Action) (distinct : Distinct env known)
    (keyed : ∀ record, known record →
      0 < record.senderPublicKey.length ∨ 0 < record.recipientPublicKey.length)
    (orderly : Orderly env known currentBlock store)
    (careful : Runs.Meets (System.step env) (Action.Careful env known)
      (.initial store currentBlock) actions) :
    let last := actions.foldl (System.step env) (.initial store currentBlock)
    (∀ record, .added record 1 ∈ last.replies →
      isExpiredHeartbeatRecord record last.currentBlock = false →
      recordExistsInAcceptedChain env last.store.db record.hash = false →
      record ∈ (peekQueueRecords env last.currentBlock true last.store).1 ∨
        (∃ thread ∈ last.threads, ∃ frame, thread.running = some frame ∧ record ∈ frame.held) ∨
        ∃ records, .parsed records ∈ last.replies ∧ record ∈ records) ∧
    ∀ left right, known left → known right → left ≠ right → left.hash.length = 64 →
      right.hash.length = 64 → ∀ db first second,
        let written := writeQueued env (writeQueued env db first left) second right
        written[recordKey first left.hash]? = some (recordJSON env left) ∧
          written[hashKey left.hash]? = some (recordKey first left.hash) ∧
          written[recordKey second right.hash]? = some (recordJSON env right) ∧
          written[hashKey right.hash]? = some (recordKey second right.hash) := by
  have sane : Sane env known store.db
      (actions.foldl (System.step env) (.initial store currentBlock)) :=
    Runs.invariant (fun _ _ sane careful => sane.step distinct careful) orderly.sane careful
  refine ⟨?_, ?_⟩
  · intro record replied unexpired outside
    obtain ⟨listed, sized, accounted⟩ := sane.added record replied
    have usable : pendingRecordLooksUsable env
        (actions.foldl (System.step env) (.initial store currentBlock)).currentBlock
        record = true := by
      simp [pendingRecordLooksUsable, sized, unexpired, keyed record listed]
    have kept : keeps env
        (actions.foldl (System.step env) (.initial store currentBlock)).currentBlock store.db
        record = true := by
      rw [← sane.store.sameChain.recordExists] at outside
      simp [keeps, usable, outside]
    cases accounted kept with
    | inl pending => exact .inl (mem_peek_of_pending distinct sane.store pending kept)
    | inr held => exact .inr held
  · intro left right leftKnown rightKnown different leftDigest rightDigest db first second
    apply writes_apart leftDigest rightDigest
    intro same
    exact different (distinct.unique right left rightKnown leftKnown (by omega) same)

/-! ### Runs with one record -/

section OneRecord

variable {env : Env} {currentBlock : Int} {record : Record}

/-- The queue file has no lines, so nobody finds a record in it. -/
theorem access_readQueueDat (queuer : Queuer) (db : LevelDb) :
    (Frame.readQueueDat queuer record).access env currentBlock ⟨db, []⟩ =
      (.inl (.getSequence queuer record), ⟨db, []⟩) := by
  simp [Frame.access, legacyHolds, legacyQueueRecords, getLines]

theorem access_readLegacy (reader : Reader) (db : LevelDb) (records : List Record) :
    (Frame.readLegacy reader records).access env currentBlock ⟨db, []⟩ =
      (afterRead records reader, ⟨db, []⟩) := by
  simp [Frame.access, legacyQueueRecords, getLines]

theorem access_iterate_empty (reader : Reader) :
    (Frame.iterate reader).access env currentBlock ⟨∅, []⟩ =
      (.inl (.readLegacy reader []), ⟨∅, []⟩) := by
  simp [Frame.access, keysWithPrefix_empty, afterScan]

theorem access_getIndex {db : LevelDb} (absent : hashKey record.hash ∉ db) (queuer : Queuer) :
    (Frame.getIndex queuer record).access env currentBlock ⟨db, []⟩ =
      (.inl (.readQueueDat queuer record), ⟨db, []⟩) := by
  simp [Frame.access, absent]

theorem startAdd_of_usable {db : LevelDb} (sized : isRecordSizeValid env record = true)
    (unexpired : isExpiredHeartbeatRecord record currentBlock = false)
    (hashed : 0 < record.hash.length)
    (outside : recordExistsInAcceptedChain env db record.hash = false) (queuer : Queuer) :
    startAdd env currentBlock db queuer record = .inl (.getIndex queuer record) := by
  simp [startAdd, sized, unexpired, hashed, outside]

/-- The record entries of a queue with one record. -/
theorem keysWithPrefix_written (sequence : Int) :
    keysWithPrefix (writeQueued env ∅ sequence record) recordPrefix =
      [recordKey sequence record.hash] := by
  have nodup : (keysWithPrefix (writeQueued env ∅ sequence record) recordPrefix).Nodup :=
    Std.ExtTreeMap.nodup_keys.filter _
  apply List.perm_singleton.mp
  rw [List.perm_ext_iff_of_nodup nodup (List.nodup_singleton _)]
  intro key
  rw [mem_keysWithPrefix, List.mem_singleton, Std.ExtTreeMap.mem_iff_isSome_getElem?]
  constructor
  · intro listed
    rw [getElem?_writeQueued_record listed.2] at listed
    split at listed
    · rename_i same
      exact same.symm
    · simp at listed
  · intro same
    have isRecord : recordPrefix <+: key := same ▸ recordPrefix_recordKey sequence record.hash
    rw [getElem?_writeQueued_record isRecord, if_pos same.symm]
    exact ⟨rfl, isRecord⟩

theorem getElem?_cleared {db : LevelDb} {key : Text} (isRecord : recordPrefix <+: key) :
    (clearDatabaseMempool db)[key]? = none := by
  rw [getElem?_eq_none_iff]
  exact fun present => (mem_clearDatabaseMempool.mp present).2.1 isRecord

theorem index_notMem_cleared (db : LevelDb) (hash : Text) :
    hashKey hash ∉ clearDatabaseMempool db :=
  fun present => (mem_clearDatabaseMempool.mp present).2.2 (hashPrefix_hashKey hash)

theorem sameChain_cleared (db : LevelDb) : SameChain db (clearDatabaseMempool db) := by
  apply sameChain_deleteAll
  intro key listed
  cases List.mem_append.mp listed with
  | inl entry => exact mempool_of_record (mem_keysWithPrefix.mp entry).2
  | inr index => exact mempool_of_hash (mem_keysWithPrefix.mp index).2

/-! ### A shared queue -/

/-- A thread queues the record while the builder drains the empty queue. -/
def drainActions (record : Record) : List Action :=
  [.spawn [.addToQueue record],
    .spawn [.parseQueueRecords, .replacePendingQueueRecords [record]],
    .access 1, .access 0, .access 1, .access 0, .access 1, .access 0, .access 1, .access 0,
    .access 1, .access 0, .access 1, .access 1]

/-- The builder reads the record and clears the queue, and a third thread looks while it
is empty. -/
def replaceActions : List Action :=
  [.access 1, .access 1, .access 1, .access 1, .access 1, .access 1, .access 1,
    .spawn [.peekQueueRecords], .access 2, .access 2, .access 2]

/-- The builder queues the record again while a fourth thread queues another one. Both
read the sequence number before either writes. -/
def requeueActions (other : Record) : List Action :=
  [.access 1, .access 1, .access 1, .access 1,
    .spawn [.addToQueue other], .access 3, .access 3, .access 3, .access 3,
    .access 1, .access 3, .access 1, .access 1]

def sharedActions (record other : Record) : List Action :=
  drainActions record ++ (replaceActions ++ requeueActions other)

section Steps

variable {known : Record → Prop} {store after : PendingStore} {threads : List Thread}
variable {replies : List Reply} {index : Nat} {frame : Frame} {later : List Call}
variable {outcome : Outcome} {actions : List Action}

theorem step_of_access (runs : threads[index]? = some ⟨some frame, later⟩)
    (goes : frame.access env currentBlock store = (outcome, after)) :
    System.step env ⟨store, currentBlock, threads, replies⟩ (.access index) =
      ⟨after, currentBlock, threads.set index (resume later outcome).2,
        replies ++ (resume later outcome).1⟩ := by
  unfold System.step
  dsimp only
  rw [runs]
  dsimp only
  rw [goes]

theorem meets_access (runs : threads[index]? = some ⟨some frame, later⟩)
    (harmless : frame.Harmless env currentBlock store)
    (goes : frame.access env currentBlock store = (outcome, after))
    (rest : Runs.Meets (System.step env) (Action.Careful env known)
      ⟨after, currentBlock, threads.set index (resume later outcome).2,
        replies ++ (resume later outcome).1⟩ actions) :
    Runs.Meets (System.step env) (Action.Careful env known)
      ⟨store, currentBlock, threads, replies⟩ (.access index :: actions) := by
  constructor
  · intro other calls same
    cases Option.some.inj (runs.symm.trans same)
    exact harmless
  · exact step_of_access runs goes ▸ rest

theorem foldl_access {last : System} (runs : threads[index]? = some ⟨some frame, later⟩)
    (goes : frame.access env currentBlock store = (outcome, after))
    (rest : actions.foldl (System.step env)
      ⟨after, currentBlock, threads.set index (resume later outcome).2,
        replies ++ (resume later outcome).1⟩ = last) :
    (Action.access index :: actions).foldl (System.step env)
      ⟨store, currentBlock, threads, replies⟩ = last := by
  rw [List.foldl_cons, step_of_access runs goes]
  exact rest

end Steps

section Shared

variable {other : Record} {known : Record → Prop} {rest : List Action}

theorem careful_drain (listed : known record) (sized : isRecordSizeValid env record = true)
    (unexpired : isExpiredHeartbeatRecord record currentBlock = false)
    (hashed : 0 < record.hash.length)
    (goes : Runs.Meets (System.step env) (Action.Careful env known)
      ⟨⟨writeQueued env ∅ (nextSequence ∅) record, []⟩, currentBlock, [⟨none, []⟩,
        ⟨some (.start (.replacePendingQueueRecords [record])), []⟩],
        [.added record 1, .parsed []]⟩ rest) :
    Runs.Meets (System.step env) (Action.Careful env known) (.initial ⟨∅, []⟩ currentBlock)
      (drainActions record ++ rest) := by
  have nothing : keysWithPrefix ∅ recordPrefix ++ keysWithPrefix ∅ hashPrefix = [] := by
    rw [keysWithPrefix_empty, keysWithPrefix_empty, List.append_nil]
  have queues : ∀ call ∈ [Call.addToQueue record], call.Queues known := by
    intro call member
    cases List.mem_singleton.mp member
    exact listed
  have drains : ∀ call ∈ [Call.parseQueueRecords, .replacePendingQueueRecords [record]],
      call.Queues known := by
    intro call member
    cases List.mem_cons.mp member with
    | inl parse => exact parse ▸ trivial
    | inr replace =>
        cases List.mem_singleton.mp replace
        exact fun queued same => List.mem_singleton.mp same ▸ listed
  refine ⟨queues, drains, ?_⟩
  refine meets_access rfl trivial rfl ?_
  refine meets_access rfl trivial (congrArg (·, _)
    (startAdd_of_usable sized unexpired hashed (recordExists_empty env _) .call)) ?_
  refine meets_access rfl trivial (access_iterate_empty _) ?_
  refine meets_access rfl trivial (access_getIndex Std.ExtTreeMap.not_mem_empty _) ?_
  refine meets_access rfl trivial (access_readLegacy _ _ _) ?_
  refine meets_access rfl trivial (access_readQueueDat _ _) ?_
  change Runs.Meets (System.step env) (Action.Careful env known)
    ⟨⟨∅, []⟩, currentBlock, [⟨some (.getSequence .call record), []⟩,
    ⟨some (.iterateRecords .parse []), [.replacePendingQueueRecords [record]]⟩], []⟩ _
  refine meets_access rfl trivial rfl ?_
  refine meets_access rfl trivial rfl ?_
  refine meets_access rfl trivial rfl ?_
  refine meets_access rfl (fun json value => by simp at value) rfl ?_
  refine meets_access rfl (fun key deleted => by cases nothing ▸ deleted)
    (congrArg (fun keys => (Sum.inl _,
      PendingStore.mk (deleteAll (writeQueued env ∅ (nextSequence ∅) record) keys) [])) nothing) ?_
  exact meets_access rfl trivial rfl goes

theorem careful_replace (sized : isRecordSizeValid env record = true)
    (unexpired : isExpiredHeartbeatRecord record currentBlock = false)
    (keyed : 0 < record.senderPublicKey.length)
    (readsBack : parseRecordJson env (recordJSON env record) = record)
    (goes : Runs.Meets (System.step env) (Action.Careful env known)
      ⟨⟨clearDatabaseMempool (writeQueued env ∅ (nextSequence ∅) record), []⟩, currentBlock,
        [⟨none, []⟩, ⟨some (.truncate (.replace [record]) [record]), []⟩, ⟨none, []⟩],
        [.added record 1, .parsed [], .peeked []]⟩ rest) :
    Runs.Meets (System.step env) (Action.Careful env known)
      ⟨⟨writeQueued env ∅ (nextSequence ∅) record, []⟩, currentBlock, [⟨none, []⟩,
        ⟨some (.start (.replacePendingQueueRecords [record])), []⟩],
        [.added record 1, .parsed []]⟩ (replaceActions ++ rest) := by
  have written : SameChain ∅ (writeQueued env ∅ (nextSequence ∅) record) :=
    sameChain_writeQueued env ∅ (nextSequence ∅) record
  have kept : keeps env currentBlock (writeQueued env ∅ (nextSequence ∅) record) record = true := by
    rw [← written.keeps]
    simp [keeps, pendingRecordLooksUsable, sized, unexpired, keyed, recordExists_empty]
  have entry : (writeQueued env ∅ (nextSequence ∅) record)[
      recordKey (nextSequence ∅) record.hash]? = some (recordJSON env record) := by
    rw [getElem?_writeQueued_record (recordPrefix_recordKey _ _), if_pos rfl]
  have only (key json : Text) (isRecord : recordPrefix <+: key)
      (value : (writeQueued env ∅ (nextSequence ∅) record)[key]? = some json) :
      json = recordJSON env record := by
    rw [getElem?_writeQueued_record isRecord] at value
    split at value
    · exact (Option.some.inj value).symm
    · simp at value
  have listed : (Frame.iterate (.clear (.replace [record]))).access env currentBlock
        ⟨writeQueued env ∅ (nextSequence ∅) record, []⟩ =
      (.inl (.getRecord (.clear (.replace [record])) (recordKey (nextSequence ∅) record.hash) []
        ⟨[], []⟩), ⟨writeQueued env ∅ (nextSequence ∅) record, []⟩) := by
    simp [Frame.access, keysWithPrefix_written, afterScan]
  have scanned : (Frame.getRecord (.clear (.replace [record]))
        (recordKey (nextSequence ∅) record.hash) [] ⟨[], []⟩).access env currentBlock
        ⟨writeQueued env ∅ (nextSequence ∅) record, []⟩ =
      (.inl (.readLegacy (.clear (.replace [record])) [record]),
        ⟨writeQueued env ∅ (nextSequence ∅) record, []⟩) := by
    simp [Frame.access, scanKey, entry, readsBack, kept, afterScan]
  have peeked : (Frame.iterate .peek).access env currentBlock
        ⟨clearDatabaseMempool (writeQueued env ∅ (nextSequence ∅) record), []⟩ =
      (.inl (.readLegacy .peek []),
        ⟨clearDatabaseMempool (writeQueued env ∅ (nextSequence ∅) record), []⟩) := by
    simp [Frame.access, keysWithPrefix_cleared (.inl rfl), afterScan]
  have peeks : ∀ call ∈ [Call.peekQueueRecords], call.Queues known := by
    intro call member
    cases List.mem_singleton.mp member
    exact trivial
  refine meets_access rfl trivial rfl ?_
  refine meets_access rfl trivial listed ?_
  refine meets_access rfl trivial scanned ?_
  refine meets_access rfl trivial (access_readLegacy _ _ _) ?_
  refine meets_access rfl trivial rfl ?_
  refine meets_access rfl trivial rfl ?_
  refine meets_access rfl (fun key _ isRecord json value _ => ?_) rfl ?_
  · rw [only key json isRecord value, readsBack]
    exact List.mem_singleton_self record
  change Runs.Meets (System.step env) (Action.Careful env known)
    ⟨⟨clearDatabaseMempool (writeQueued env ∅ (nextSequence ∅) record), []⟩, currentBlock,
    [⟨none, []⟩, ⟨some (.truncate (.replace [record]) [record]), []⟩],
    [.added record 1, .parsed []]⟩ _
  -- nobody finds a record now
  refine ⟨peeks, ?_⟩
  refine meets_access rfl trivial rfl ?_
  refine meets_access rfl trivial peeked ?_
  exact meets_access rfl trivial (access_readLegacy _ _ _) goes

theorem careful_requeue {db : LevelDb} (also : known other)
    (sized : isRecordSizeValid env record = true ∧ isRecordSizeValid env other = true)
    (unexpired : isExpiredHeartbeatRecord record currentBlock = false ∧
      isExpiredHeartbeatRecord other currentBlock = false)
    (hashed : 0 < record.hash.length) (otherDigest : other.hash.length = 64)
    (different : record.hash ≠ other.hash)
    (outside : ∀ hash, recordExistsInAcceptedChain env (clearDatabaseMempool db) hash = false) :
    Runs.Meets (System.step env) (Action.Careful env known)
      ⟨⟨clearDatabaseMempool db, []⟩, currentBlock,
        [⟨none, []⟩, ⟨some (.truncate (.replace [record]) [record]), []⟩, ⟨none, []⟩],
        [.added record 1, .parsed [], .peeked []]⟩ (requeueActions other) := by
  have queues : ∀ call ∈ [Call.addToQueue other], call.Queues known := by
    intro call member
    cases List.mem_singleton.mp member
    exact also
  refine meets_access rfl (List.forall_mem_nil _) rfl ?_
  refine meets_access rfl trivial (congrArg (·, _)
    (startAdd_of_usable sized.1 unexpired.1 hashed (outside _) (.replace []))) ?_
  refine meets_access rfl (fun found => absurd found (index_notMem_cleared db _))
    (access_getIndex (index_notMem_cleared db _) _) ?_
  refine meets_access rfl trivial (access_readQueueDat _ _) ?_
  change Runs.Meets (System.step env) (Action.Careful env known)
    ⟨⟨clearDatabaseMempool db, []⟩, currentBlock,
    [⟨none, []⟩, ⟨some (.getSequence (.replace []) record), []⟩, ⟨none, []⟩],
    [.added record 1, .parsed [], .peeked []]⟩ _
  -- the other record goes as far as its write
  refine ⟨queues, ?_⟩
  refine meets_access rfl trivial (congrArg (·, _)
    (startAdd_of_usable sized.2 unexpired.2 (by omega) (outside _) .call)) ?_
  refine meets_access rfl trivial (access_getIndex (index_notMem_cleared db _) _) ?_
  refine meets_access rfl trivial (access_readQueueDat _ _) ?_
  refine meets_access rfl trivial rfl ?_
  refine meets_access rfl trivial rfl ?_
  refine meets_access rfl (fun json value => ?_) rfl ?_
  · rw [getElem?_cleared (recordPrefix_recordKey _ _)] at value
    cases value
  refine meets_access rfl (fun json value => ?_) rfl ?_
  · -- the entries are apart although both calls have read one sequence number
    change (writeQueued env (clearDatabaseMempool db) _ other)[_]? = some json at value
    rw [getElem?_writeQueued_record (recordPrefix_recordKey _ _),
      if_neg fun same => different (hash_of_recordKey otherDigest (Eq.symm same)),
      getElem?_cleared (recordPrefix_recordKey _ _)] at value
    cases value
  exact meets_access rfl trivial rfl trivial

theorem careful_sharedActions (listed : known record) (also : known other)
    (sized : isRecordSizeValid env record = true ∧ isRecordSizeValid env other = true)
    (unexpired : isExpiredHeartbeatRecord record currentBlock = false ∧
      isExpiredHeartbeatRecord other currentBlock = false)
    (keyed : 0 < record.senderPublicKey.length) (hashed : 0 < record.hash.length)
    (otherDigest : other.hash.length = 64) (different : record.hash ≠ other.hash)
    (readsBack : parseRecordJson env (recordJSON env record) = record) :
    Runs.Meets (System.step env) (Action.Careful env known)
      (.initial ⟨∅, []⟩ currentBlock) (sharedActions record other) := by
  refine careful_drain listed sized.1 unexpired.1 hashed
    (careful_replace sized.1 unexpired.1 keyed readsBack
      (careful_requeue also sized unexpired hashed otherDigest different fun hash => ?_))
  have chain : SameChain ∅ (clearDatabaseMempool (writeQueued env ∅ (nextSequence ∅) record)) :=
    (sameChain_writeQueued env ∅ (nextSequence ∅) record).trans (sameChain_cleared _)
  rw [← chain.recordExists, recordExists_empty]

end Shared

/-! ### A lost record -/

/-- A record that is written between the reading and the clearing of the queue. -/
def lostActions (record : Record) : List Action :=
  [.spawn [.addToQueue record], .spawn [.parseQueueRecords],
    .access 1, .access 1, .access 1,
    .access 0, .access 0, .access 0, .access 0, .access 0,
    .access 1, .access 1, .access 1, .access 1]

theorem run_lostActions (sized : isRecordSizeValid env record = true)
    (unexpired : isExpiredHeartbeatRecord record currentBlock = false)
    (hashed : 0 < record.hash.length) :
    (lostActions record).foldl (System.step env) (.initial ⟨∅, []⟩ currentBlock) =
      { store := ⟨clearDatabaseMempool (writeQueued env ∅ (nextSequence ∅) record), []⟩
        currentBlock := currentBlock
        threads := [⟨none, []⟩, ⟨none, []⟩]
        replies := [.added record 1, .parsed []] } := by
  rw [lostActions, List.foldl_cons, List.foldl_cons]
  -- the reading call finds nothing, then the record is written
  refine foldl_access rfl rfl ?_
  refine foldl_access rfl (access_iterate_empty _) ?_
  refine foldl_access rfl (access_readLegacy _ _ _) ?_
  change List.foldl (System.step env) ⟨⟨∅, []⟩, currentBlock,
    [⟨some (.start (.addToQueue record)), []⟩, ⟨some (.iterateRecords .parse []), []⟩], []⟩ _ = _
  refine foldl_access rfl (congrArg (·, _)
    (startAdd_of_usable sized unexpired hashed (recordExists_empty env _) .call)) ?_
  refine foldl_access rfl (access_getIndex Std.ExtTreeMap.not_mem_empty _) ?_
  refine foldl_access rfl (access_readQueueDat _ _) ?_
  refine foldl_access rfl rfl ?_
  refine foldl_access rfl rfl ?_
  -- and the clearing call deletes it
  change List.foldl (System.step env) ⟨⟨writeQueued env ∅ (nextSequence ∅) record, []⟩,
    currentBlock, [⟨none, []⟩, ⟨some (.iterateRecords .parse []), []⟩], [.added record 1]⟩ _ = _
  refine foldl_access rfl rfl ?_
  refine foldl_access rfl rfl ?_
  refine foldl_access rfl rfl ?_
  exact foldl_access rfl rfl rfl

end OneRecord

end Mempool

namespace Sample

open Mempool

theorem spend_unexpired (currentBlock : Int) :
    isExpiredHeartbeatRecord spend currentBlock = false := rfl

theorem spend_hashed : 0 < spend.hash.length := by
  rw [spend_digest]
  decide

theorem spend_keyed : 0 < spend.senderPublicKey.length := by
  change 0 < sender.length
  unfold sender upperHexText
  rw [List.length_map, length_hexText]
  decide

/-- The spend and another transfer of the same nonce. -/
def isTransfer (record : Record) : Prop :=
  record = spend ∨ record = duplicateNonce

theorem duplicateNonce_checks :
    parseRecordJson env (recordJSON env duplicateNonce) = duplicateNonce ∧
      isRecordSizeValid env duplicateNonce = true := by
  decide +kernel

theorem duplicateNonce_digest : duplicateNonce.hash.length = 64 := by
  change duplicateNonceHash.length = 64
  unfold duplicateNonceHash
  exact length_hexText 64 _

theorem transfer_hashes : spend.hash ≠ duplicateNonce.hash := by
  decide +kernel

theorem distinct_transfers : Distinct env isTransfer where
  unique := by
    rintro left right (rfl | rfl) (rfl | rfl) _ same
    · rfl
    · exact absurd same.symm transfer_hashes
    · exact absurd same transfer_hashes
    · rfl
  readsBack := by
    rintro record (rfl | rfl)
    · exact spend_read
    · exact duplicateNonce_checks.1

theorem keyed_transfers (record : Record) (transfer : isTransfer record) :
    0 < record.senderPublicKey.length ∨ 0 < record.recipientPublicKey.length := by
  rcases transfer with rfl | rfl
  · exact .inl spend_keyed
  · exact .inl spend_keyed

/-- The spend is queued, drained and queued again under four threads, the second time
beside another transfer with the same sequence number. -/
theorem no_update_lost_spend :
    let last := (sharedActions spend duplicateNonce).foldl (System.step env)
      (.initial ⟨∅, []⟩ 101)
    (∀ record, .added record 1 ∈ last.replies →
      isExpiredHeartbeatRecord record last.currentBlock = false →
      recordExistsInAcceptedChain env last.store.db record.hash = false →
      record ∈ (peekQueueRecords env last.currentBlock true last.store).1 ∨
        (∃ thread ∈ last.threads, ∃ frame, thread.running = some frame ∧ record ∈ frame.held) ∨
        ∃ records, .parsed records ∈ last.replies ∧ record ∈ records) ∧
    ∀ left right, isTransfer left → isTransfer right → left ≠ right → left.hash.length = 64 →
      right.hash.length = 64 → ∀ db first second,
        let written := writeQueued env (writeQueued env db first left) second right
        written[recordKey first left.hash]? = some (recordJSON env left) ∧
          written[hashKey left.hash]? = some (recordKey first left.hash) ∧
          written[recordKey second right.hash]? = some (recordJSON env right) ∧
          written[hashKey right.hash]? = some (recordKey second right.hash) :=
  no_update_lost env isTransfer ⟨∅, []⟩ 101 (sharedActions spend duplicateNonce)
    distinct_transfers keyed_transfers (orderly_empty env _ 101)
    (careful_sharedActions (.inl rfl) (.inr rfl) ⟨spend_sized, duplicateNonce_checks.2⟩
      ⟨spend_unexpired 101, rfl⟩ spend_keyed spend_hashed duplicateNonce_digest
      transfer_hashes spend_read)

/-- The spend is queued while a thread that builds a block reads and clears the queue. -/
theorem spend_lost :
    let last := (lostActions spend).foldl (System.step env) (.initial ⟨∅, []⟩ 101)
    .added spend 1 ∈ last.replies ∧
      isExpiredHeartbeatRecord spend last.currentBlock = false ∧
      recordExistsInAcceptedChain env last.store.db spend.hash = false ∧
      spend ∉ (peekQueueRecords env last.currentBlock true last.store).1 ∧
      (∀ thread ∈ last.threads, thread.running = none) ∧
      ∀ records, .parsed records ∈ last.replies → spend ∉ records := by
  have run := run_lostActions spend_sized (spend_unexpired 101) spend_hashed
  dsimp only at run ⊢
  rw [run]
  have chain := (sameChain_writeQueued env ∅ (nextSequence ∅) spend).trans (sameChain_cleared _)
  refine ⟨List.mem_cons_self, spend_unexpired 101, ?_, ?_, ?_, ?_⟩
  · rw [← chain.recordExists, recordExists_empty]
  · rw [peekQueueRecords_records]
    intro member
    cases mem_readPending.mp (mem_of_dedupe member) with
    | inl stored =>
        obtain ⟨-, ⟨key, json, isRecord, value, -⟩, -⟩ := stored
        rw [getElem?_cleared isRecord] at value
        cases value
    | inr legacy =>
        obtain ⟨⟨line, listed, -⟩, -⟩ := mem_legacyQueueRecords.mp legacy
        cases listed
  · intro thread member
    simp only [List.mem_cons, List.not_mem_nil, or_false, or_self] at member
    rw [member]
  · intro records replied
    simp only [List.mem_cons, reduceCtorEq, Reply.parsed.injEq, List.not_mem_nil, or_false,
      false_or] at replied
    rw [replied]
    exact List.not_mem_nil

end Sample

end Safire
