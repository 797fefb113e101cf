/-
`CBlockDB::AddBlock` with the validated checkpoint, and `storeBlock` on top of it.

The database handle is always open here, and the schema of a fresh database is
the current one, so nothing is migrated. A refused block is returned with the
reason that the source logs.
-/

import Safire.StorageValidator

namespace Safire

open Text ChainValidator

/-- The database of a node with the static caches of its process. -/
structure Node where
  db : LevelDb
  caches : Caches

def Node.empty : Node where
  db := ∅
  caches := .empty

/-! ### Fork variants -/

/-- The number between the first two colons of a key. -/
def slotNumber (key : Text) : Option Int :=
  if startsWith key "slot:".toList = false then none
  else
    match find key ":".toList 0 with
    | none => none
    | some firstColon =>
        match find key ":".toList (firstColon + 1) with
        | none => none
        | some secondColon =>
            parseLongValue (substr key (firstColon + 1) (secondColon - firstColon - 1))

def slotNumbers (db : LevelDb) : List Int :=
  db.toList.filterMap (fun entry => slotNumber entry.1)

/-- Every slot counts its blocks after the first. The cast of the source throws
on a key that `forkBlockKey` did not write. -/
def scanForkVariantCount (db : LevelDb) : Int :=
  let numbers := slotNumbers db
  (numbers.dedup.map (fun number => (numbers.count number : Int) - 1)).sum

def hasForkVariantAtOrAfter (db : LevelDb) (minimumBlock : Int) : Bool :=
  decide (0 < minimumBlock) &&
    !decide ((slotNumbers db).filter (fun number => minimumBlock ≤ number)).Nodup

def countForkVariant (db : LevelDb) (block : Block) : LevelDb :=
  let stored := db.get .forkVariantCount
  let forkCount :=
    if 0 < stored.length then (parseLongValue stored).getD 0 + 1 else scanForkVariantCount db
  let counted := db.putLong .forkVariantCount forkCount
  if (counted.getLong .forkVariantLatestBlock).getD (-1) < block.number then
    counted.putLong .forkVariantLatestBlock block.number
  else counted

/-! ### The highest stored block -/

def scanHighestStoredBlock (env : Env) (db : LevelDb) : Int :=
  (getStoredBlocks env db).foldl (fun highest block => max highest block.number) (-1)

/-- A scanned value is written back. -/
def highestStoredBlock (env : Env) (db : LevelDb) : Int × LevelDb :=
  match db.getLong (.chainMeta "stored_highest_block") with
  | some highest => (highest, db)
  | none =>
      let highest := scanHighestStoredBlock env db
      (highest,
        if 0 < highest then db.putLong (.chainMeta "stored_highest_block") highest else db)

def maybeUpdateHighestStoredBlock (db : LevelDb) (blockNumber : Int) : LevelDb :=
  if blockNumber ≤ 0 then db
  else
    match db.getLong (.chainMeta "stored_highest_block") with
    | some highest =>
        if highest < blockNumber then db.putLong (.chainMeta "stored_highest_block") blockNumber
        else db
    | none => db.putLong (.chainMeta "stored_highest_block") blockNumber

/-! ### The validated checkpoint -/

def validatedCheckpointDepth : Nat := 2000

def checkpointFastValidateLimit : Nat := 20000

def blockEnvelopeIsValid (env : Env) (block : Block) : Bool :=
  if block.number ≤ 0 ∨ block.hash.length = 0 ∨ block.creatorKey.length = 0 then false
  else if maxBlockRecords < block.records.length then false
  else if 0 < block.recordsMerkleRoot.length ∧
      getRecordsMerkleRoot env block.records ≠ block.recordsMerkleRoot then false
  else if getBlockHash env block ≠ block.hash then false
  else
    decide (0 < block.signature.length) &&
      decide (env.verifyMessageCompressed block.hash block.signature block.creatorKey = 1)

def rawCanonicalHash (env : Env) (db : LevelDb) (number : Int) : Text :=
  let hash := db.get (.canonical number)
  if 0 < hash.length then hash
  else (parseSingleBlockJson env (db.get (.legacyBlock number))).hash

def readValidatedCheckpoint (db : LevelDb) : Option (Int × Text) :=
  match db.getLong (.chainMeta "validated_checkpoint_block") with
  | none => none
  | some checkpointBlock =>
      let checkpointHash := db.get (.chainMeta "validated_checkpoint_hash")
      if 0 < checkpointBlock ∧ 0 < checkpointHash.length then
        some (checkpointBlock, checkpointHash)
      else none

/-- The checkpoint block, where the canonical index and the stored block agree with it. -/
def checkpointMatchesCanonical (env : Env) (db : LevelDb) (checkpointBlock : Int)
    (checkpointHash : Text) : Option Block :=
  if checkpointBlock ≤ 0 ∨ checkpointHash.length = 0 then none
  else if rawCanonicalHash env db checkpointBlock ≠ checkpointHash then none
  else
    let checkpoint := getBlockByHash env db checkpointHash
    if checkpoint.number = checkpointBlock ∧ checkpoint.hash = checkpointHash ∧
        blockEnvelopeIsValid env checkpoint = true then
      some checkpoint
    else none

/-- The walk towards the genesis block, which stops before a bad link or envelope. -/
def checkpointBelow (env : Env) (db : LevelDb) : Nat → Block → Block
  | 0, checkpoint => checkpoint
  | depth + 1, checkpoint =>
      if checkpoint.previousBlockHash.length = 0 then checkpoint
      else
        let previous := getBlockByHash env db checkpoint.previousBlockHash
        if childConnectsToParent checkpoint previous = false ∨
            blockEnvelopeIsValid env previous = false then
          checkpoint
        else checkpointBelow env db depth previous

def maybeAdvanceValidatedCheckpoint (env : Env) (db : LevelDb) (tip : Block) : LevelDb :=
  if tip.number ≤ 0 ∨ tip.hash.length = 0 ∨ blockEnvelopeIsValid env tip = false then db
  else
    let current := readValidatedCheckpoint db
    if current.any (fun checkpoint => tip.number - checkpoint.1 < validatedCheckpointDepth * 2) then
      db
    else
      let checkpoint := checkpointBelow env db validatedCheckpointDepth tip
      if checkpoint.number ≤ 0 ∨ checkpoint.hash.length = 0 then db
      else if current.any (fun previous => checkpoint.number ≤ previous.1) then db
      else
        (db.putLong (.chainMeta "validated_checkpoint_block") checkpoint.number).put
          (.chainMeta "validated_checkpoint_hash") checkpoint.hash

/-! ### Adding a block -/

/-- The record loop of `AddBlock`. -/
def checkAddedRecord (env : Env) (recordHashes : TextSet) (record : Record) :
    Except String TextSet :=
  if isRecordSizeValid env record = false then .error "oversized record"
  else if 0 < record.hash.length ∧ record.hash ∈ recordHashes then .error "duplicate record hash"
  else .ok (if 0 < record.hash.length then recordHashes.insert record.hash else recordHashes)

/-- The checks before the database is read. -/
def checkAddedBlock (env : Env) (block : Block) : Except String Unit :=
  if block.number ≤ block.previousBlockId ∧ block.previousBlockId ≠ -1 then
    .error "previous block id is not before block number"
  else if block.previousBlockId ≤ 0 ∧
      env.config.genesisMatches block.number block.hash = false then
    .error "genesis block does not match safire.conf"
  else if maxBlockRecords < block.records.length then .error "too many records"
  else do
    let _ ← block.records.foldlM (checkAddedRecord env) ∅
    if maxBlockJsonBytes < (blockJSON env block).length then .error "serialized block is too large"
    else .ok ()

/-- The keys of the block itself. -/
def writeStored (env : Env) (db : LevelDb) (block : Block) : LevelDb :=
  maybeUpdateHighestStoredBlock
    ((db.put (.block block.hash) (blockJSON env block)).put (.slot block.number block.hash)
      block.hash)
    block.number

/-- The keys that make the block the one of its slot. -/
def writeCanonical (env : Env) (db : LevelDb) (block : Block) : LevelDb :=
  (db.put (.canonical block.number) block.hash).put (.legacyBlock block.number)
    (blockJSON env block)

def writeNextIndex (env : Env) (db : LevelDb) (block : Block) : LevelDb :=
  let existing := db.get (.nextBlock block.previousBlockId)
  if existing.length = 0 ∨ existing = ofLong block.number ∨
      (getBlock env db (atol existing)).number ≤ 0 then
    db.putLong (.nextBlock block.previousBlockId) block.number
  else db

def writeHashNextIndex (env : Env) (db : LevelDb) (block : Block) : LevelDb :=
  let existing := db.get (.next block.previousBlockHash)
  if existing.length = 0 ∨ existing = block.hash ∨
      childConnectsToParent (getBlockByHash env db existing)
        (getBlockByHash env db block.previousBlockHash) = false then
    db.put (.next block.previousBlockHash) block.hash
  else db

/-- The links from the parent, which an existing child keeps. -/
def writeNextLinks (env : Env) (db : LevelDb) (block : Block) : LevelDb :=
  if block.previousBlockId ≤ -1 then db
  else
    let indexed := writeNextIndex env db block
    if 0 < block.previousBlockHash.length then writeHashNextIndex env indexed block else indexed

/-- The tip moves to a first genesis block or to a child of the current tip. -/
def advanceLatest (env : Env) (db : LevelDb) (block : Block) : LevelDb :=
  let latestBlockId := getLatestBlockId db
  if block.previousBlockId ≤ 0 ∧ latestBlockId < 0 then setLatestBlockId env db block.number
  else if block.previousBlockId = latestBlockId then
    let latestBlock := getBlock env db latestBlockId
    if latestBlock.number = latestBlockId ∧ 0 < latestBlock.hash.length ∧
        latestBlock.hash = block.previousBlockHash then
      maybeAdvanceValidatedCheckpoint env (setLatestBlockId env db block.number) block
    else db
  else db

/-- The writes of an admitted block. -/
def writeBlock (env : Env) (db : LevelDb) (block : Block) : LevelDb :=
  let stored := writeStored env db block
  let canonicalBlock := getBlock env stored block.number
  let sameSlotVariant := decide (0 < canonicalBlock.number)
  let shouldWriteCanonical :=
    decide (canonicalBlock.number ≤ 0) || preferBlockVariant block canonicalBlock
  let placed := if shouldWriteCanonical then writeCanonical env stored block else stored
  let counted := if sameSlotVariant then countForkVariant placed block else placed
  if sameSlotVariant && !shouldWriteCanonical then counted
  else advanceLatest env (writeNextLinks env counted block) block

/-- The verdict with the node after the call. A stored block is accepted again unchecked. -/
def addBlock (env : Env) (ambient : Ambient) (node : Node) (block : Block) :
    Except String Unit × Node :=
  match checkAddedBlock env block with
  | .error reason => (.error reason, node)
  | .ok () =>
      if 0 < (node.db.get (.block block.hash)).length then (.ok (), node)
      else
        match validateBlockForStorage env ambient node.db node.caches block with
        | (.error reason, caches) => (.error reason, { node with caches := caches })
        | (.ok (), caches) => (.ok (), ⟨writeBlock env node.db block, caches⟩)

/-- `storeBlock` of the peer client. -/
def storeBlock (env : Env) (ambient : Ambient) (node : Node) (block : Block) : Bool × Node :=
  if block.number ≤ 0 then (false, node)
  else if 0 < (getBlockByHash env node.db block.hash).number then (false, node)
  else
    match addBlock env ambient node block with
    | (.error _, next) => (false, next)
    | (.ok (), next) =>
        (true,
          if getFirstBlockId next.db = -1 ∧ block.previousBlockId ≤ 0 then
            { next with db := setFirstBlockId next.db block.number }
          else next)

end Safire
