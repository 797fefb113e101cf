/-
The pending records of a node: the mempool in the block database, and the older
`queue.dat` that is still read.

A record entry holds the text form of a record under its sequence number and its
claimed hash; an index entry names the record entry of a hash. What a submitter
claims as the hash is never compared with the record.
-/

import Safire.RecordEncoding
import Safire.StoreReads

namespace Safire

open Text

namespace Mempool

/-! ### Keys -/

def recordPrefix : Text := "mempool:record:".toList

def hashPrefix : Text := "mempool:hash:".toList

def sequenceKey : Text := "mempool:next_sequence".toList

def hashKey (hash : Text) : Text :=
  hashPrefix ++ hash

/-- `std::setw(20)` with `std::setfill('0')`. -/
def paddedSequence (sequence : Int) : Text :=
  List.leftpad 20 '0' (ofLong sequence)

def recordKey (sequence : Int) (hash : Text) : Text :=
  recordPrefix ++ paddedSequence sequence ++ ":".toList ++
    (if 0 < hash.length then hash else "nohash".toList)

def nextSequence (db : LevelDb) : Int :=
  match db[sequenceKey]? with
  | none => 1
  | some value => if atol value < 1 then 1 else atol value

def keysWithPrefix (db : LevelDb) (start : Text) : List Text :=
  db.keys.filter (fun key => startsWith key start)

/-- A batch of deletes. -/
def deleteAll (db : LevelDb) (keys : List Text) : LevelDb :=
  keys.foldl (fun db key => db.erase key) db

/-! ### Usable records -/

/-- Whether `strtol` sets `errno` to `ERANGE`. -/
def outOfRange (content : Text) : Bool :=
  let (negative, unsigned) := splitSign (content.dropWhile isSpace)
  let magnitude : Int := digitsValue (unsigned.takeWhile Char.isDigit)
  decide (longMax < (if negative then magnitude - 1 else magnitude))

/-- A caller that leaves out `currentBlock` has the slot of the clock taken for it. -/
def isExpiredHeartbeatRecord (record : Record) (clockBlock : Int) (currentBlock : Int := -1) :
    Bool :=
  if record.transactionType ≠ .heartBeat then false
  else if record.time.length = 0 then true
  else if outOfRange record.time then true
  else
    match parseLongValue record.time with
    | none => true
    | some heartbeatBlock =>
        let currentBlock := if currentBlock < 0 then clockBlock else currentBlock
        decide (heartbeatBlock < currentBlock - heartbeatValidBlocks)

def pendingRecordLooksUsable (env : Env) (currentBlock : Int) (record : Record) : Bool :=
  (decide (0 < record.senderPublicKey.length) || decide (0 < record.recipientPublicKey.length)) &&
    isRecordSizeValid env record && !isExpiredHeartbeatRecord record currentBlock

/-- The builder has a copy of this function. -/
def recordExistsInAcceptedChain (env : Env) (db : LevelDb) (recordHash : Text) : Bool :=
  if recordHash.length = 0 then false
  else
    let firstBlockId := getFirstBlockId db
    let latestBlockId := getLatestBlockId db
    if firstBlockId < 0 ∨ latestBlockId < 0 then false
    else
      (walk env db (fun _ => false) (fun number => decide (number = latestBlockId)) walkGuard
        (getBlock env db firstBlockId)).any
        (fun block => block.records.any (fun record => decide (record.hash = recordHash)))

/-- A record that the readers keep. -/
def keeps (env : Env) (currentBlock : Int) (db : LevelDb) (record : Record) : Bool :=
  pendingRecordLooksUsable env currentBlock record &&
    !(decide (0 < record.hash.length) && recordExistsInAcceptedChain env db record.hash)

/-! ### The two places of pending records -/

/-- The block database, which holds the mempool too, and the text of `queue.dat`. -/
structure PendingStore where
  db : LevelDb
  queueDat : Text

/-- The lines that `std::getline` reads. -/
def getLines (content : Text) : List Text :=
  let lines := content.splitOn '\n'
  if lines.getLast? = some [] then lines.dropLast else lines

def legacyQueueRecords (env : Env) (currentBlock : Int) (queueDat : Text) : List Record :=
  ((getLines queueDat).map (parseRecordJson env)).filter (pendingRecordLooksUsable env currentBlock)

/-- The records read so far, and the keys to delete. -/
structure Scan where
  records : List Record
  cleanup : List Text

/-- One round of the loop of `databaseMempoolRecords`. -/
def scanKey (env : Env) (currentBlock : Int) (db : LevelDb) (scan : Scan) (key : Text) : Scan :=
  match db[key]? with
  | none => scan
  | some json =>
      let record := parseRecordJson env json
      if keeps env currentBlock db record then { scan with records := scan.records ++ [record] }
      else
        { scan with
          cleanup := scan.cleanup ++ key ::
            (if 0 < record.hash.length then [hashKey record.hash] else []) }

def databaseMempoolRecords (env : Env) (currentBlock : Int) (db : LevelDb) :
    List Record × LevelDb :=
  let scan := (keysWithPrefix db recordPrefix).foldl (scanKey env currentBlock db) ⟨[], []⟩
  (scan.records, deleteAll db scan.cleanup)

def clearDatabaseMempool (db : LevelDb) : LevelDb :=
  deleteAll db (keysWithPrefix db recordPrefix ++ keysWithPrefix db hashPrefix)

def dedupePendingRecords (input : List Record) : List Record :=
  input.foldl
    (fun records record =>
      if 0 < record.hash.length ∧ record.hash ∈ records.map Record.hash then records
      else records ++ [record]) []

/-! ### The queue -/

/-- The records of both places before the duplicates go, with the store after
the reading. `opened` says that there is a database handle. -/
def readPending (env : Env) (currentBlock : Int) (opened : Bool) (store : PendingStore) :
    List Record × PendingStore :=
  let (dbRecords, db) :=
    if opened then databaseMempoolRecords env currentBlock store.db else ([], store.db)
  (dbRecords ++ legacyQueueRecords env currentBlock store.queueDat, { store with db := db })

def peekQueueRecords (env : Env) (currentBlock : Int) (opened : Bool) (store : PendingStore) :
    List Record × PendingStore :=
  let (records, after) := readPending env currentBlock opened store
  (dedupePendingRecords records, after)

def parseQueueRecords (env : Env) (currentBlock : Int) (opened : Bool) (store : PendingStore) :
    List Record × PendingStore :=
  let (records, after) := readPending env currentBlock opened store
  (dedupePendingRecords records,
    { db := if opened then clearDatabaseMempool after.db else after.db, queueDat := [] })

/-- The batch that queues a record. -/
def writeQueued (env : Env) (db : LevelDb) (sequence : Int) (record : Record) : LevelDb :=
  let key := recordKey sequence record.hash
  let written := db.insert key (recordJSON env record)
  let indexed := if 0 < record.hash.length then written.insert (hashKey record.hash) key else written
  indexed.insert sequenceKey (ofLong (sequence + 1))

/-- Whether `queue.dat` has a record with the hash. -/
def legacyHolds (env : Env) (currentBlock : Int) (queueDat : Text) (hash : Text) : Bool :=
  (legacyQueueRecords env currentBlock queueDat).any (fun record => decide (record.hash = hash))

/-- The return value with the store after the call. -/
def addToQueue (env : Env) (currentBlock : Int) (opened : Bool) (store : PendingStore)
    (record : Record) : Int × PendingStore :=
  if isRecordSizeValid env record = false then (0, store)
  else if isExpiredHeartbeatRecord record currentBlock then (1, store)
  else if opened && decide (0 < record.hash.length) &&
      recordExistsInAcceptedChain env store.db record.hash then (1, store)
  else if opened then
    if 0 < record.hash.length ∧
        (hashKey record.hash ∈ store.db ∨
          legacyHolds env currentBlock store.queueDat record.hash = true) then (1, store)
    else (1, { store with db := writeQueued env store.db (nextSequence store.db) record })
  else if 0 < record.hash.length ∧
      legacyHolds env currentBlock store.queueDat record.hash = true then (1, store)
  else (1, { store with queueDat := store.queueDat ++ recordJSON env record })

/-- `/api/records/submit`: the reply with the store after the call. -/
def submitRecord (env : Env) (currentBlock : Int) (opened : Bool) (store : PendingStore)
    (recordJson : Text) : String × PendingStore :=
  let record := parseRecordJson env recordJson
  if record.senderPublicKey.isEmpty ∧ record.recipientPublicKey.isEmpty then
    ("invalid record", store)
  else ("accepted", (addToQueue env currentBlock opened store record).2)

end Mempool

end Safire
