/-
The block database: leveldb keys, block lookups and chain links of `CBlockDB`.

leveldb is an ordered map from keys to values. Reading a missing key leaves the
value string empty, and every reader of the source treats an empty value as a
missing one. Iterators visit the keys in byte order.
-/

import Safire.ConnectedChain

namespace Safire

open Text

abbrev LevelDb := Std.ExtTreeMap Text Text

/-- The key families of the block database. -/
inductive StoreKey where
  | block (hash : Text)
  | canonical (number : Int)
  | legacyBlock (number : Int)
  | next (parentHash : Text)
  | nextBlock (parentNumber : Int)
  | slot (number : Int) (hash : Text)
  | chainMeta (name : String)
  | firstBlockId
  | latestBlockId
  | forkVariantCount
  | forkVariantLatestBlock
  | reorgMeta (name : String)
  deriving DecidableEq

def StoreKey.text : StoreKey → Text
  | .block hash => "block:".toList ++ hash
  | .canonical number => "canonical:".toList ++ ofLong number
  | .legacyBlock number => "b_".toList ++ ofLong number
  | .next parentHash => "next:".toList ++ parentHash
  | .nextBlock parentNumber => "next_block_".toList ++ ofLong parentNumber
  | .slot number hash => "slot:".toList ++ ofLong number ++ ":".toList ++ hash
  | .chainMeta name => "chain:".toList ++ name.toList
  | .firstBlockId => "first_block_id".toList
  | .latestBlockId => "latest_block_id".toList
  | .forkVariantCount => "fork_variant_count".toList
  | .forkVariantLatestBlock => "fork_variant_latest_block".toList
  | .reorgMeta name => "last_reorg_".toList ++ name.toList

namespace LevelDb

def get (db : LevelDb) (key : StoreKey) : Text :=
  db.getD key.text []

def put (db : LevelDb) (key : StoreKey) (value : Text) : LevelDb :=
  db.insert key.text value

def putLong (db : LevelDb) (key : StoreKey) (value : Int) : LevelDb :=
  db.put key (ofLong value)

/-- `readLongKey`. -/
def getLong (db : LevelDb) (key : StoreKey) : Option Int :=
  parseLongValue (db.get key)

end LevelDb

/-! ### Blocks and links -/

def preferBlockVariant (candidate current : Block) : Bool :=
  if current.number ≤ 0 then true
  else if candidate.records.length ≠ current.records.length then
    decide (current.records.length < candidate.records.length)
  else decide (candidate.hash < current.hash)

def childConnectsToParent (child parent : Block) : Bool :=
  if child.number ≤ 0 ∨ parent.number ≤ 0 then false
  else if child.previousBlockId ≠ parent.number then false
  else if child.number ≤ child.previousBlockId then false
  else if child.previousBlockHash.length = 0 ∨ parent.hash.length = 0 then false
  else decide (child.previousBlockHash = parent.hash)

/-- The first block of a stored value. -/
def parseSingleBlockJson (env : Env) (json : Text) : Block :=
  (parseBlockJson env json).headD .missing

/-- Also `rawBlockByHash`, whose only difference is a null handle. -/
def getBlockByHash (env : Env) (db : LevelDb) (hash : Text) : Block :=
  if hash.length = 0 then .missing else parseSingleBlockJson env (db.get (.block hash))

def getBlock (env : Env) (db : LevelDb) (number : Int) : Block :=
  let byHash := getBlockByHash env db (db.get (.canonical number))
  if 0 < byHash.number then byHash
  else parseSingleBlockJson env (db.get (.legacyBlock number))

def startsWith (content start : Text) : Bool :=
  start.isPrefixOf content

def isBlockEntry (key : Text) : Bool :=
  startsWith key "block:".toList || startsWith key "b_".toList || startsWith key "bf_".toList

/-- One block per hash, in the order of the iterator. -/
def keepFirstByHash (blocks : List Block) : List Block :=
  blocks.foldl
    (fun kept block =>
      if 0 < block.number ∧ kept.all (fun other => other.hash ≠ block.hash) then kept ++ [block]
      else kept) []

def getStoredBlocks (env : Env) (db : LevelDb) : List Block :=
  keepFirstByHash
    ((db.toList.filter (fun entry => isBlockEntry entry.1)).flatMap
      (fun entry => parseBlockJson env entry.2))

/-- The link lookups before the scan. A block that does not connect is left in
the variable that the scan then starts from. -/
def linkedNextBlock (env : Env) (db : LevelDb) (block : Block) : Block :=
  let nextHash := db.get (.next block.hash)
  let byHash := if 0 < nextHash.length then getBlockByHash env db nextHash else .missing
  if childConnectsToParent byHash block then byHash
  else
    let legacyNextId := (db.getLong (.nextBlock block.number)).getD (-1)
    if 0 < legacyNextId then getBlock env db legacyNextId else byHash

def getNextBlockByHash (env : Env) (db : LevelDb) (block : Block) : Block :=
  if block.number ≤ 0 ∨ block.hash.length = 0 then .missing
  else
    let linked := linkedNextBlock env db block
    if childConnectsToParent linked block then linked
    else
      (getStoredBlocks env db).foldl
        (fun nextBlock candidate =>
          if childConnectsToParent candidate block && preferBlockVariant candidate nextBlock then
            candidate
          else nextBlock)
        linked

def getNextBlockId (env : Env) (db : LevelDb) (previousBlockId : Int) : Int :=
  let stored := (db.getLong (.nextBlock previousBlockId)).getD (-1)
  if 0 < stored then stored
  else
    let previousBlock := getBlock env db previousBlockId
    let nextHash := if 0 < previousBlock.hash.length then db.get (.next previousBlock.hash) else []
    let nextBlock := getBlockByHash env db nextHash
    if childConnectsToParent nextBlock previousBlock then nextBlock.number else stored

def getNextBlock (env : Env) (db : LevelDb) (block : Block) : Block :=
  let nextBlock := getNextBlockByHash env db block
  if 0 < nextBlock.number then nextBlock
  else
    let byId := getBlock env db (getNextBlockId env db block.number)
    if 0 < byId.number ∧ childConnectsToParent byId block = true then byId
    else { byId with number := -1 }

/-! ### Chain ends -/

def getFirstBlockId (db : LevelDb) : Int :=
  let stored := db.get (.chainMeta "first_block")
  (parseLongValue (if stored.length = 0 then db.get .firstBlockId else stored)).getD (-1)

def setFirstBlockId (db : LevelDb) (number : Int) : LevelDb :=
  (db.putLong .firstBlockId number).putLong (.chainMeta "first_block") number

def getLatestBlockId (db : LevelDb) : Int :=
  let stored := db.get (.chainMeta "latest_block")
  (parseLongValue (if stored.length = 0 then db.get .latestBlockId else stored)).getD (-1)

def setLatestBlockId (env : Env) (db : LevelDb) (number : Int) : LevelDb :=
  let written := (db.putLong .latestBlockId number).putLong (.chainMeta "latest_block") number
  let latestBlock := getBlock env written number
  if 0 < latestBlock.hash.length then written.put (.chainMeta "latest_hash") latestBlock.hash
  else written

def getLatestBlockHash (env : Env) (db : LevelDb) : Text :=
  let stored := db.get (.chainMeta "latest_hash")
  if 0 < stored.length then stored
  else if 0 < getLatestBlockId db then (getBlock env db (getLatestBlockId db)).hash
  else []

/-! ### Walking the canonical chain -/

/-- The bound on the rounds of every loop that walks the chain. -/
def walkGuard : Nat := 100000

/-- The blocks a walk visits, starting at `block`: it stops before a block for
which `tooFar` holds and after one for which `isLast` holds. Every loop of the
source over `getNextBlock` visits the blocks this way and only then reads them. -/
def walk (env : Env) (db : LevelDb) (tooFar isLast : Int → Bool) : Nat → Block → List Block
  | 0, _ => []
  | guard + 1, block =>
      if block.number ≤ 0 ∨ tooFar block.number = true then []
      else if isLast block.number then [block]
      else
        let nextBlock := getNextBlock env db block
        if nextBlock.number ≤ 0 ∨ nextBlock.number = block.number then [block]
        else block :: walk env db tooFar isLast guard nextBlock

end Safire
