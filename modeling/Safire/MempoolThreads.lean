/-
The mempool under several threads.

A call accesses the database and the queue file one step at a time: a `Get`, a
batch, an iteration over a key family, the reading or the clearing of the file.
Between two accesses of one call any other thread may run. The prune of the
builder reads the queue, and where it drops a record it clears the queue and
queues the kept records one after the other.
-/

import Safire.HeartbeatAge

namespace Safire

open Text

namespace Mempool

/-! ### Calls -/

/-- A call of the queue. -/
inductive Call where
  | addToQueue (record : Record)
  | peekQueueRecords
  | parseQueueRecords
  | replacePendingQueueRecords (records : List Record)
  | pruneAcceptedQueueRecords

inductive Reply where
  | added (record : Record) (code : Int)
  | peeked (records : List Record)
  | parsed (records : List Record)
  | replaced
  | unchanged

/-- Whose `parseQueueRecords` clears the queue. A replacement has the records that
it queues after it. -/
inductive Clearer where
  | parse
  | replace (records : List Record)

/-- Who reads the queue. -/
inductive Reader where
  | peek
  | prune
  | clear (clearer : Clearer)

/-- Who queues a record. The loop of a replacement has the records after it. -/
inductive Queuer where
  | call
  | replace (rest : List Record)

/-- A call with its local variables before its next access. `start` has made none, and
`requeue` is the loop of a replacement before its next record. -/
inductive Frame where
  | start (call : Call)
  | getIndex (queuer : Queuer) (record : Record)
  | readQueueDat (queuer : Queuer) (record : Record)
  | getSequence (queuer : Queuer) (record : Record)
  | writeRecord (queuer : Queuer) (record : Record) (sequence : Int)
  | iterate (reader : Reader)
  | getRecord (reader : Reader) (key : Text) (keys : List Text) (scan : Scan)
  | writeCleanup (reader : Reader) (scan : Scan)
  | readLegacy (reader : Reader) (records : List Record)
  | prune (records : List Record)
  | iterateRecords (clearer : Clearer) (records : List Record)
  | iterateHashes (clearer : Clearer) (records : List Record) (keys : List Text)
  | writeDeletes (clearer : Clearer) (records : List Record) (keys : List Text)
  | truncate (clearer : Clearer) (records : List Record)
  | requeue (records : List Record)

/-- A call goes on in a frame or returns. -/
abbrev Outcome := Frame ⊕ Reply

/-- How a call goes on after an `addToQueue`. A replacement drops the code. -/
def afterAdd (record : Record) (code : Int) : Queuer → Outcome
  | .call => .inr (.added record code)
  | .replace rest => .inl (.requeue rest)

/-- What `addToQueue` does before its first access to the mempool. The chain that it
looks at is that of the database. -/
def startAdd (env : Env) (currentBlock : Int) (db : LevelDb) (queuer : Queuer)
    (record : Record) : Outcome :=
  if isRecordSizeValid env record = false then afterAdd record 0 queuer
  else if isExpiredHeartbeatRecord record currentBlock then afterAdd record 1 queuer
  else if 0 < record.hash.length then
    if recordExistsInAcceptedChain env db record.hash then afterAdd record 1 queuer
    else .inl (.getIndex queuer record)
  else .inl (.getSequence queuer record)

/-- How a call goes on after a `parseQueueRecords`. A replacement drops the records. -/
def afterClear (read : List Record) : Clearer → Outcome
  | .parse => .inr (.parsed (dedupePendingRecords read))
  | .replace records => .inl (.requeue records)

/-- How a call goes on after it has read the queue. -/
def afterRead (read : List Record) : Reader → Outcome
  | .peek => .inr (.peeked (dedupePendingRecords read))
  | .prune => .inl (.prune (dedupePendingRecords read))
  | .clear clearer => .inl (.iterateRecords clearer read)

/-- The loop of `databaseMempoolRecords` goes on or ends. -/
def afterScan (reader : Reader) (scan : Scan) : List Text → Frame
  | key :: keys => .getRecord reader key keys scan
  | [] =>
      if scan.cleanup = [] then .readLegacy reader scan.records
      else .writeCleanup reader scan

def Call.start (env : Env) (currentBlock : Int) (db : LevelDb) : Call → Outcome
  | .addToQueue record => startAdd env currentBlock db .call record
  | .peekQueueRecords => .inl (.iterate .peek)
  | .parseQueueRecords => .inl (.iterate (.clear .parse))
  | .replacePendingQueueRecords records => .inl (.iterate (.clear (.replace records)))
  | .pruneAcceptedQueueRecords => .inl (.iterate .prune)

/-- One access: how the call goes on, and the store after it. -/
def Frame.access (env : Env) (currentBlock : Int) (store : PendingStore) :
    Frame → Outcome × PendingStore
  | .start call => (call.start env currentBlock store.db, store)
  | .getIndex queuer record =>
      if hashKey record.hash ∈ store.db then (afterAdd record 1 queuer, store)
      else (.inl (.readQueueDat queuer record), store)
  | .readQueueDat queuer record =>
      if legacyHolds env currentBlock store.queueDat record.hash then
        (afterAdd record 1 queuer, store)
      else (.inl (.getSequence queuer record), store)
  | .getSequence queuer record =>
      (.inl (.writeRecord queuer record (nextSequence store.db)), store)
  | .writeRecord queuer record sequence =>
      (afterAdd record 1 queuer, { store with db := writeQueued env store.db sequence record })
  | .iterate reader =>
      (.inl (afterScan reader ⟨[], []⟩ (keysWithPrefix store.db recordPrefix)), store)
  | .getRecord reader key keys scan =>
      (.inl (afterScan reader (scanKey env currentBlock store.db scan key) keys), store)
  | .writeCleanup reader scan =>
      (.inl (.readLegacy reader scan.records),
        { store with db := deleteAll store.db scan.cleanup })
  | .readLegacy reader records =>
      (afterRead (records ++ legacyQueueRecords env currentBlock store.queueDat) reader, store)
  | .prune records =>
      let prune := BlockBuilder.pruneRecords env currentBlock store.db records
      if prune.changed then (.inl (.iterate (.clear (.replace prune.kept))), store)
      else (.inr .unchanged, store)
  | .iterateRecords clearer records =>
      (.inl (.iterateHashes clearer records (keysWithPrefix store.db recordPrefix)), store)
  | .iterateHashes clearer records keys =>
      (.inl (.writeDeletes clearer records (keys ++ keysWithPrefix store.db hashPrefix)), store)
  | .writeDeletes clearer records keys =>
      (.inl (.truncate clearer records), { store with db := deleteAll store.db keys })
  | .truncate clearer records => (afterClear records clearer, { store with queueDat := [] })
  | .requeue [] => (.inr .replaced, store)
  | .requeue (record :: rest) =>
      (startAdd env currentBlock store.db (.replace rest) record, store)

/-! ### Threads -/

/-- A thread with its running call, if any, and the calls it makes after it. -/
structure Thread where
  running : Option Frame
  later : List Call

def Thread.fresh : List Call → Thread
  | [] => ⟨none, []⟩
  | call :: later => ⟨some (.start call), later⟩

/-- What a thread returns after an access of its running call, and where it stands. -/
def resume (later : List Call) : Outcome → List Reply × Thread
  | .inl next => ([], ⟨some next, later⟩)
  | .inr reply => ([reply], Thread.fresh later)

structure System where
  store : PendingStore
  currentBlock : Int
  threads : List Thread
  replies : List Reply

/-- Time goes on, a thread appears with the calls that it will make, or a thread
makes its next access. -/
inductive Action where
  | tick (currentBlock : Int)
  | spawn (calls : List Call)
  | access (index : Nat)

def System.step (env : Env) (system : System) : Action → System
  | .tick currentBlock => { system with currentBlock := max system.currentBlock currentBlock }
  | .spawn calls => { system with threads := system.threads ++ [Thread.fresh calls] }
  | .access index =>
      match system.threads[index]? with
      | some ⟨some frame, later⟩ =>
          let (outcome, store) := frame.access env system.currentBlock system.store
          let (replies, thread) := resume later outcome
          { system with
            store := store
            threads := system.threads.set index thread
            replies := system.replies ++ replies }
      | _ => system

/-- No thread has made a call. -/
def System.initial (store : PendingStore) (currentBlock : Int) : System where
  store := store
  currentBlock := currentBlock
  threads := []
  replies := []

end Mempool

end Safire
