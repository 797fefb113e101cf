/-
`rebuildBestChainIndex` and `adoptStoredChainEndingAtHash`: the two operations
that rewrite the canonical chain of a database.

The rebuild picks the structurally best path by a table over the stored blocks,
largest number first, cuts it at a depth, and drops blocks from its end until
the branch validator accepts the rest. The adoption checks envelopes and links.
-/

import Safire.BlockDb

namespace Safire

open Text ChainValidator

def maxRebuildChainDepth : Nat := 20000

/-! ### The validated checkpoint fast path -/

/-- The loop from the checkpoint to the tip. It fails when the limit is used up,
even on the tip. -/
def followNextLinks (env : Env) (db : LevelDb) (latestBlockId : Int) : Nat → Block → Option Block
  | 0, _ => none
  | steps + 1, current =>
      if latestBlockId ≤ current.number then
        if current.number = latestBlockId then some current else none
      else
        let next := getBlockByHash env db (db.get (.next current.hash))
        if childConnectsToParent next current = false ∨ blockEnvelopeIsValid env next = false then
          none
        else followNextLinks env db latestBlockId steps next

/-- Whether a fork variant stands in the way of the checkpoint. -/
def forkBlocksCheckpoint (db : LevelDb) (checkpointBlock : Int) : Bool :=
  decide (0 < (db.getLong .forkVariantCount).getD 0) &&
    (db.getLong .forkVariantLatestBlock).all (fun latest => checkpointBlock ≤ latest) &&
    hasForkVariantAtOrAfter db checkpointBlock

/-- The tip on success, with the database after the call. -/
def tryValidatedCheckpointFastPath (env : Env) (db : LevelDb) : Option Int × LevelDb :=
  let latestBlockId := getLatestBlockId db
  if latestBlockId ≤ 0 then (none, db)
  else
    match readValidatedCheckpoint db with
    | none => (none, db)
    | some (checkpointBlock, checkpointHash) =>
        if latestBlockId < checkpointBlock then (none, db)
        else
          let (highest, db) := highestStoredBlock env db
          if latestBlockId < highest then (none, db)
          else
            match checkpointMatchesCanonical env db checkpointBlock checkpointHash with
            | none => (none, db)
            | some checkpoint =>
                if forkBlocksCheckpoint db checkpointBlock then (none, db)
                else
                  match followNextLinks env db latestBlockId checkpointFastValidateLimit
                      checkpoint with
                  | none => (none, db)
                  | some current =>
                      let canonicalTip := getBlock env db latestBlockId
                      if canonicalTip.number ≠ latestBlockId ∨ canonicalTip.hash ≠ current.hash then
                        (none, db)
                      else
                        (some current.number,
                          maybeAdvanceValidatedCheckpoint env
                            (db.putLong (.chainMeta "connected_latest") current.number) current)

/-! ### The best path -/

/-- The blocks by hash; a later block with the same hash replaces an earlier one. -/
def indexByHash (blocks : List Block) : TextMap Block :=
  blocks.foldl (fun index block => index.insert block.hash block) ∅

/-- The vector of `childrenByParentHash` for one parent. -/
def childrenOf (blocks : List Block) (parentHash : Text) : List Block :=
  blocks.filter (fun block =>
    decide (0 < block.previousBlockHash.length) && decide (block.previousBlockHash = parentHash) &&
      (indexByHash blocks)[block.previousBlockHash]?.any (childConnectsToParent block))

/-- Larger numbers first, then smaller hashes. -/
def byNumberDescending (left right : Block) : Bool :=
  if left.number ≠ right.number then decide (right.number < left.number)
  else decide (left.hash ≤ right.hash)

def byNumberAscending (left right : Block) : Bool :=
  if left.number ≠ right.number then decide (left.number < right.number)
  else decide (left.hash ≤ right.hash)

/-- The three maps of the table, filled block by block. -/
structure BestTable where
  bestLengthByHash : TextMap Int
  bestTipByHash : TextMap Int
  bestChildByHash : TextMap Text

def BestTable.empty : BestTable where
  bestLengthByHash := ∅
  bestTipByHash := ∅
  bestChildByHash := ∅

/-- A block without an entry counts as a path of its own. -/
def BestTable.length (table : BestTable) (block : Block) : Int :=
  table.bestLengthByHash.getD block.hash 1

def BestTable.tip (table : BestTable) (block : Block) : Int :=
  table.bestTipByHash.getD block.hash block.number

def preferChainChild (table : BestTable) (candidate current : Block) : Bool :=
  if current.number ≤ 0 then true
  else if table.length candidate ≠ table.length current then
    decide (table.length current < table.length candidate)
  else if table.tip candidate ≠ table.tip current then
    decide (table.tip current < table.tip candidate)
  else preferBlockVariant candidate current

/-- The scan over candidates that both selections share. -/
def preferredOf (table : BestTable) (candidates : List Block) : Block :=
  candidates.foldl
    (fun best candidate => if preferChainChild table candidate best then candidate else best)
    .missing

/-- The children that the scan of one block looks at. -/
def bestChildCandidates (blocks : List Block) (block : Block) : List Block :=
  ((childrenOf blocks block.hash).mergeSort byNumberDescending).filter
    (fun child => decide (0 < child.hash.length) && decide (child.hash ≠ block.hash))

/-- One round of the table loop. -/
def tableStep (blocks : List Block) (table : BestTable) (block : Block) : BestTable :=
  let bestChild := preferredOf table (bestChildCandidates blocks block)
  if 0 < bestChild.number ∧ 0 < bestChild.hash.length then
    { bestLengthByHash := table.bestLengthByHash.insert block.hash (table.length bestChild + 1)
      bestTipByHash := table.bestTipByHash.insert block.hash (table.tip bestChild)
      bestChildByHash := table.bestChildByHash.insert block.hash bestChild.hash }
  else
    { table with
      bestLengthByHash := table.bestLengthByHash.insert block.hash 1
      bestTipByHash := table.bestTipByHash.insert block.hash block.number }

def bestTable (blocks : List Block) : BestTable :=
  (blocks.mergeSort byNumberDescending).foldl (tableStep blocks) .empty

/-- The path from a block along the best children, for at most `depth` blocks. -/
def followBestChildren (blockByHash : TextMap Block) (bestChildByHash : TextMap Text) :
    Nat → TextSet → Block → List Block
  | 0, _, _ => []
  | depth + 1, visitedHashes, current =>
      if current.number ≤ 0 ∨ current.hash.length = 0 then []
      else if current.hash ∈ visitedHashes then []
      else
        current ::
          match bestChildByHash[current.hash]? with
          | none => []
          | some nextHash =>
              match blockByHash[nextHash]? with
              | none => []
              | some next =>
                  followBestChildren blockByHash bestChildByHash depth
                    (visitedHashes.insert current.hash) next

def isGenesisCandidate (firstBlockId : Int) (block : Block) : Bool :=
  decide (block.number = firstBlockId) && decide (block.previousBlockId ≤ 0)

/-- The genesis candidates with the block index. Without a candidate the block
of the first slot stands in. -/
def genesisCandidates (env : Env) (db : LevelDb) (blocks : List Block) (firstBlockId : Int) :
    List Block × TextMap Block :=
  let candidates := blocks.filter (isGenesisCandidate firstBlockId)
  if candidates.length = 0 then
    let firstBlock := getBlock env db firstBlockId
    if 0 < firstBlock.number then
      ([firstBlock], (indexByHash blocks).insert firstBlock.hash firstBlock)
    else ([], indexByHash blocks)
  else (candidates, indexByHash blocks)

/-- The path that the table chooses, of at most `depth` blocks. -/
def bestPath (env : Env) (db : LevelDb) (depth : Nat) : List Block :=
  let blocks := getStoredBlocks env db
  let (candidates, blockByHash) := genesisCandidates env db blocks (getFirstBlockId db)
  let table := bestTable blocks
  followBestChildren blockByHash table.bestChildByHash depth ∅
    (preferredOf table (candidates.mergeSort byNumberAscending))

/-- The loop that drops the last block until the branch validator accepts. -/
def dropInvalidTail (env : Env) : Nat → List Block → List Block
  | 0, _ => []
  | rounds + 1, chain =>
      if Accepts env chain then chain else dropInvalidTail env rounds chain.dropLast

def bestValidChain (env : Env) (db : LevelDb) : List Block :=
  let bestChain := bestPath env db maxRebuildChainDepth
  dropInvalidTail env bestChain.length bestChain

/-! ### Writing a chain -/

def isNextEntry (key : Text) : Bool :=
  startsWith key "next_block_".toList || startsWith key "next:".toList

def eraseNextLinks (db : LevelDb) : LevelDb :=
  db.filter (fun key _ => !isNextEntry key)

def writeChainBlock (env : Env) (db : LevelDb) (block : Block) : LevelDb :=
  ((db.put (.canonical block.number) block.hash).put (.block block.hash) (blockJSON env block)).put
    (.legacyBlock block.number) (blockJSON env block)

def writeChainLink (db : LevelDb) (parent child : Block) : LevelDb :=
  (db.putLong (.nextBlock parent.number) child.number).put (.next parent.hash) child.hash

/-- The loop over a chain that writes its blocks and links. -/
def writeChain (env : Env) (db : LevelDb) : List Block → LevelDb
  | [] => db
  | [tip] => writeChainBlock env db tip
  | parent :: child :: rest =>
      writeChain env (writeChainLink (writeChainBlock env db parent) parent child) (child :: rest)

/-- The record of a changed tip. `now` is the clock of the call. -/
def writeReorg (db : LevelDb) (now : Int) (reason : String) (previousTip newTip : Block) :
    LevelDb :=
  if 0 < previousTip.number ∧ 0 < previousTip.hash.length ∧ previousTip.hash ≠ newTip.hash then
    (((((db.putLong (.reorgMeta "previous_block") previousTip.number).put
      (.reorgMeta "previous_hash") previousTip.hash).putLong
      (.reorgMeta "new_block") newTip.number).put
      (.reorgMeta "new_hash") newTip.hash).putLong
      (.reorgMeta "time") now).put
      (.reorgMeta "reason") reason.toList
  else db

/-- The writes after the chain: the tip, the connected tip, the checkpoint and the reorg. -/
def finishChain (env : Env) (db : LevelDb) (now : Int) (reason : String)
    (previousTip newTip : Block) : LevelDb :=
  let latest := setLatestBlockId env db newTip.number
  let connected := latest.putLong (.chainMeta "connected_latest") newTip.number
  writeReorg (maybeAdvanceValidatedCheckpoint env connected newTip) now reason previousTip newTip

/-- The block of the latest slot before the call. -/
def previousTipOf (env : Env) (db : LevelDb) : Block :=
  if 0 < getLatestBlockId db then getBlock env db (getLatestBlockId db) else .missing

/-- The path without the shortcut. -/
def rebuildFully (env : Env) (now : Int) (previousTip : Block) (db : LevelDb) : Int × LevelDb :=
  let bestChain := bestValidChain env db
  match bestChain.getLast? with
  | none => (-1, db)
  | some newTip =>
      (newTip.number,
        finishChain env (writeChain env (eraseNextLinks db) bestChain) now
          "best chain index rebuilt" previousTip newTip)

def rebuildBestChainIndex (env : Env) (now : Int) (db : LevelDb) : Int × LevelDb :=
  if getFirstBlockId db < 0 then (-1, db)
  else
    match tryValidatedCheckpointFastPath env db with
    | (some checkpointFastTip, after) => (checkpointFastTip, after)
    | (none, after) => rebuildFully env now (previousTipOf env db) after

/-! ### Adopting a stored branch -/

/-- The loop from the tip to the genesis block. The numbers fall along the
links, so the number of the tip bounds the rounds. -/
def collectBranch (env : Env) (db : LevelDb) (firstBlockId : Int) :
    Nat → TextSet → List Block → Block → Option (List Block)
  | 0, _, collected, _ => some collected
  | rounds + 1, visitedHashes, collected, current =>
      if current.number ≤ 0 ∨ current.hash.length = 0 then some collected
      else if current.hash ∈ visitedHashes then none
      else if blockEnvelopeIsValid env current = false then none
      else if current.previousBlockId ≤ 0 then
        if current.number ≠ firstBlockId ∨
            env.config.genesisMatches current.number current.hash = false then none
        else some (current :: collected)
      else if current.previousBlockHash.length = 0 ∨ current.number ≤ current.previousBlockId then
        none
      else
        let parent := getBlockByHash env db current.previousBlockHash
        if childConnectsToParent current parent = false then none
        else
          collectBranch env db firstBlockId rounds (visitedHashes.insert current.hash)
            (current :: collected) parent

/-- How many blocks from the front the canonical slots already hold. -/
def canonicalPart (env : Env) (db : LevelDb) (branch : List Block) : Nat :=
  (branch.takeWhile (fun block =>
    let canonicalBlock := getBlock env db block.number
    decide (canonicalBlock.number = block.number) &&
      decide (canonicalBlock.hash = block.hash))).length

/-- The adopted tip on success, with the database after the call. The rewriting
starts at the last block that is already canonical. -/
def adoptStoredChainEndingAtHash (env : Env) (now : Int) (db : LevelDb) (tipHash : Text) :
    Option Int × LevelDb :=
  let firstBlockId := getFirstBlockId db
  let previousTip := previousTipOf env db
  let current := getBlockByHash env db tipHash
  if tipHash.length = 0 ∨ firstBlockId ≤ 0 then (none, db)
  else if current.number ≤ 0 ∨ current.hash ≠ tipHash then (none, db)
  else
    match collectBranch env db firstBlockId current.number.toNat ∅ [] current with
    | none => (none, db)
    | some branch =>
        match branch.head?, branch.getLast? with
        | some genesis, some newTip =>
            if genesis.number ≠ firstBlockId then (none, db)
            else if 0 < previousTip.number ∧ 0 < previousTip.hash.length ∧
                newTip.number ≤ previousTip.number ∧ previousTip.hash = newTip.hash then
              (some previousTip.number, db)
            else
              (some newTip.number,
                finishChain env
                  (writeChain env db (branch.drop (canonicalPart env db branch - 1))) now
                  "peer hash-linked tip adopted" previousTip newTip)
        | _, _ => (none, db)

end Safire
