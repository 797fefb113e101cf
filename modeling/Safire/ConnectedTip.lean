/-
`CBlockDB::getConnectedLatestBlockId`: the last block that the links reach from
the first one, whatever the latest number says.
-/

import Safire.StoredChain
import Safire.BestChain
import Safire.StoreReads

namespace Safire

open Text

variable {env : Env} {db after : LevelDb} {chain : List Block}

/-- The number is written as a side entry before it is returned. -/
def getConnectedLatestBlockId (env : Env) (db : LevelDb) : Int × LevelDb :=
  let firstBlockId := getFirstBlockId db
  if firstBlockId < 0 then (-1, db)
  else
    let block := getBlock env db firstBlockId
    let reached := walk env db (fun _ => false) (fun _ => false) walkGuard block
    let latestConnectedBlockId := (reached.getLast?.getD block).number
    (latestConnectedBlockId,
      db.putLong (.chainMeta "connected_latest") latestConnectedBlockId)

/-! ### Block numbers that are read -/

theorem isLong_missing : IsLong Block.missing.number := by
  decide

theorem isLong_parseSingleBlockJson (env : Env) (json : Text) :
    IsLong (parseSingleBlockJson env json).number := by
  unfold parseSingleBlockJson
  cases read : parseBlockJson env json with
  | nil => exact isLong_missing
  | cons block rest =>
      have member : block ∈ parseBlockJson env json := by
        rw [read]
        exact List.mem_cons_self
      exact (mem_parseBlockSections member).2.2

theorem isLong_getBlockByHash (env : Env) (db : LevelDb) (hash : Text) :
    IsLong (getBlockByHash env db hash).number := by
  unfold getBlockByHash
  split
  · exact isLong_missing
  · exact isLong_parseSingleBlockJson env _

theorem isLong_getBlock (env : Env) (db : LevelDb) (number : Int) :
    IsLong (getBlock env db number).number := by
  unfold getBlock
  dsimp only
  split
  · exact isLong_getBlockByHash env db _
  · exact isLong_parseSingleBlockJson env _

theorem Writes.getNextBlock_side (writes : Writes StoreKey.IsSide db after) (block : Block) :
    getNextBlock env after block = getNextBlock env db block := by
  have byHash : getBlockByHash env after = getBlockByHash env db :=
    funext fun hash => writes.getBlockByHash_side hash
  have slots : getBlock env after = getBlock env db :=
    funext fun number => writes.getBlock_side number
  have link : ∀ hash, after.get (.next hash) = db.get (.next hash) :=
    fun hash => writes.chainData rfl
  have index : ∀ number, after.getLong (.nextBlock number) = db.getLong (.nextBlock number) := by
    intro number
    rw [LevelDb.getLong, LevelDb.getLong, writes.chainData rfl]
  unfold getNextBlock getNextBlockByHash linkedNextBlock getNextBlockId
  simp only [byHash, slots, link, index, writes.getStoredBlocks_side]

/-- A canonical chain stays one where the walks read the same. -/
theorem CanonicalChain.congr (canonical : CanonicalChain env db chain)
    (first : getFirstBlockId after = getFirstBlockId db)
    (latest : getLatestBlockId after = getLatestBlockId db)
    (slots : ∀ number, getBlock env after number = getBlock env db number)
    (next : ∀ block, getNextBlock env after block = getNextBlock env db block) :
    CanonicalChain env after chain where
  present := canonical.present
  ascending := canonical.ascending
  first := by
    intro genesis head
    rw [first, slots]
    exact canonical.first genesis head
  latest := by
    intro tip last
    rw [latest]
    exact canonical.latest tip last
  next := by
    intro before parent child rest place
    rw [next]
    exact canonical.next before parent child rest place

theorem CanonicalChain.side (canonical : CanonicalChain env db chain)
    (writes : Writes StoreKey.IsSide db after) : CanonicalChain env after chain :=
  canonical.congr writes.getFirstBlockId_side writes.getLatestBlockId_side
    (fun number => writes.getBlock_side number) (fun block => writes.getNextBlock_side block)

end Safire
