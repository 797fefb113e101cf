/-
The walk over the links that a rebuild writes.

The rebuild erases the links of every branch before it writes those of the
chosen chain, so a walk from the first slot cannot leave that chain, whatever
the database held before. The one thing that the chain does not fix is the block
in the first slot, where no genesis block of that number is stored.
-/

import Safire.ChainRuns

namespace Safire

open Text ChainValidator BestPath

variable {env : Env} {db : LevelDb} {chain : List Block}

/-! ### The walk from the first slot -/

/-- The blocks from the first slot on, link by link, cut at the latest number. -/
def storedWalk (env : Env) (db : LevelDb) (guard : Nat) : List Block :=
  walk env db (fun _ => false) (fun number => decide (number = getLatestBlockId db)) guard
    (getBlock env db (getFirstBlockId db))

/-- The walk is the chain under every guard that leaves room for it. -/
def WalksAs (env : Env) (db : LevelDb) (chain : List Block) : Prop :=
  ∀ guard, chain.length ≤ guard → storedWalk env db guard = chain

/-- The first slot holds the first block, and every block links to the next one. -/
structure LinksAlong (env : Env) (db : LevelDb) (chain : List Block) : Prop where
  start : ∀ genesis, chain.head? = some genesis → getBlock env db (getFirstBlockId db) = genesis
  next : ∀ before parent child rest, chain = before ++ parent :: child :: rest →
    getNextBlock env db parent = child

section Walk

variable {tooFar isLast : Int → Bool}

theorem walk_eq_cons {guard : Nat} {start block : Block} {rest : List Block}
    (visited : walk env db tooFar isLast guard start = block :: rest) :
    start = block ∧
      (rest = [] ∨ walk env db tooFar isLast (guard - 1) (getNextBlock env db block) = rest) := by
  cases guard with
  | zero => cases visited
  | succ guard =>
      rw [walk] at visited
      split at visited
      · cases visited
      · split at visited
        · cases visited
          exact ⟨rfl, .inl rfl⟩
        · dsimp only at visited
          split at visited
          · cases visited
            exact ⟨rfl, .inl rfl⟩
          · cases visited
            exact ⟨rfl, .inr rfl⟩

theorem getNextBlock_of_walk {before rest : List Block} {parent child : Block} :
    ∀ {guard : Nat} {start : Block},
      walk env db tooFar isLast guard start = before ++ parent :: child :: rest →
      getNextBlock env db parent = child := by
  induction before with
  | nil =>
      intro guard start visited
      have later := (walk_eq_cons visited).2.resolve_left (List.cons_ne_nil child rest)
      exact (walk_eq_cons later).1
  | cons block before ih =>
      intro guard start visited
      have present : before ++ parent :: child :: rest ≠ [] := by simp
      exact ih ((walk_eq_cons visited).2.resolve_left present)

theorem length_walk_le (guard : Nat) :
    ∀ start : Block, (walk env db tooFar isLast guard start).length ≤ guard := by
  induction guard with
  | zero => exact fun start => le_rfl
  | succ guard ih =>
      intro start
      rw [walk]
      split
      · exact Nat.zero_le _
      · split
        · exact Nat.le_add_left 1 guard
        · dsimp only
          split
          · exact Nat.le_add_left 1 guard
          · exact Nat.succ_le_succ (ih _)

end Walk

theorem LinksAlong.walksAs (links : LinksAlong env db chain) (ascending : Ascending chain)
    (present : chain ≠ [])
    (latest : ∀ tip, chain.getLast? = some tip → getLatestBlockId db = tip.number) :
    WalksAs env db chain := by
  obtain ⟨genesis, rest, rfl⟩ := List.exists_cons_of_ne_nil present
  intro guard enough
  rw [storedWalk, links.start genesis rfl, walk_eq_take ascending links.next]
  · have whole : (genesis :: rest).takeWhile (fun _ => !false) = genesis :: rest :=
      List.takeWhile_eq_self_iff.mpr fun _ _ => rfl
    rw [whole, List.take_of_length_le enough]
  · intro tip last
    exact .inl (decide_eq_true (latest tip last).symm)
  · intro before parent child later place isLast
    have below := ascending.below_last latest place
    rw [decide_eq_true_eq] at isLast
    omega

theorem WalksAs.linksAlong (walks : WalksAs env db chain) : LinksAlong env db chain := by
  have visited := walks chain.length le_rfl
  rw [storedWalk] at visited
  constructor
  · intro genesis head
    obtain ⟨rest, shape⟩ := List.head?_eq_some_iff.mp head
    rw [shape] at visited
    exact (walk_eq_cons visited).1
  · intro before parent child rest place
    have split := visited.trans place
    exact getNextBlock_of_walk split

theorem walksAs_iff (ascending : Ascending chain) (present : chain ≠ [])
    (latest : ∀ tip, chain.getLast? = some tip → getLatestBlockId db = tip.number) :
    WalksAs env db chain ↔ LinksAlong env db chain :=
  ⟨fun walks => walks.linksAlong, fun links => links.walksAs ascending present latest⟩

/-- `build` folds the blocks of the walk that its guard leaves. -/
theorem visitedBlocks_eq_storedWalk (env : Env) (db : LevelDb) :
    LedgerState.visitedBlocks env db 0 = storedWalk env db walkGuard := by
  rw [LedgerState.visitedBlocks, storedWalk]
  simp [LedgerState.buildLatestBlockId]

/-! ### Databases whose stored blocks read back -/

/-- Every block that an entry of the database reads to reads back from its own text. -/
def EntriesTrip (env : Env) (db : LevelDb) : Prop :=
  ∀ text value, db[text]? = some value → isBlockEntry text = true →
    ∀ block ∈ parseBlockJson env value, RoundTrips env block

/-- The first slot answers with a block of its number, unless a genesis block of
that number is stored. -/
def FirstSlotPlaced (env : Env) (db : LevelDb) : Prop :=
  (∃ genesis, StoredGenesis env db genesis) ∨
    (getBlock env db (getFirstBlockId db)).number = getFirstBlockId db

namespace EntriesTrip

variable (trip : EntriesTrip env db)
include trip

theorem parseSingleBlockJson {key : StoreKey} (entry : isBlockEntry key.text = true)
    (positive : 0 < (parseSingleBlockJson env (db.get key)).number) :
    RoundTrips env (Safire.parseSingleBlockJson env (db.get key)) := by
  rw [LevelDb.get_eq_getD] at positive ⊢
  cases found : db[key.text]? with
  | none =>
      rw [found, Option.getD_none, parseSingleBlockJson_nil] at positive
      exact absurd positive (by decide)
  | some value =>
      rw [found, Option.getD_some] at positive
      rw [Option.getD_some]
      unfold Safire.parseSingleBlockJson at positive ⊢
      cases parsed : parseBlockJson env value with
      | nil =>
          rw [parsed] at positive
          exact absurd positive (by decide)
      | cons block rest =>
          apply trip key.text value found entry
          rw [parsed]
          exact List.mem_cons_self

theorem getBlock {number : Int} (positive : 0 < (getBlock env db number).number) :
    RoundTrips env (Safire.getBlock env db number) := by
  unfold Safire.getBlock at positive ⊢
  dsimp only at positive ⊢
  split
  · rename_i byHash
    unfold getBlockByHash at byHash ⊢
    split at byHash
    · exact absurd byHash (by decide)
    · rename_i named
      rw [if_neg named]
      exact trip.parseSingleBlockJson (by rw [isBlockEntry_text]; rfl) byHash
  · rename_i missing
    rw [if_neg missing] at positive
    exact trip.parseSingleBlockJson (by rw [isBlockEntry_text]; rfl) positive

theorem of_writes {after : LevelDb} {kind : StoreKey → Prop} (writes : Writes kind db after)
    (other : ∀ key, kind key → isBlockEntry key.text = false) : EntriesTrip env after := by
  intro text value found entry
  rw [writes.getElem?_of_entry other entry] at found
  exact trip text value found entry

theorem bestValidChain : ∀ block ∈ bestValidChain env db, RoundTrips env block := by
  intro block member
  have stored : ∀ block ∈ getStoredBlocks env db, RoundTrips env block := by
    intro block member
    obtain ⟨⟨text, value⟩, entry, read⟩ :=
      List.mem_flatMap.mp ((keepFirstByHash_sublist _).subset member)
    rw [List.mem_filter, Std.ExtTreeMap.mem_toList_iff_getElem?_eq_some] at entry
    exact trip text value entry.1 entry.2 block read
  exact bestPath_all stored trip.getBlock _ block (bestValidChain_isPrefix.subset member)

end EntriesTrip

theorem Sound.entriesTrip (sound : Sound env db) : EntriesTrip env db :=
  fun _ _ found entry _ read => (sound.holds_of_entry found entry read).trips

/-! ### The rebuilt chain -/

theorem getFirstBlockId_rebuild (now : Int) (full : (tryValidatedCheckpointFastPath env db).1 = none)
    (positive : 0 < (rebuildBestChainIndex env now db).1) :
    getFirstBlockId (rebuildBestChainIndex env now db).2 = getFirstBlockId db := by
  obtain ⟨newTip, -, -, written⟩ := rebuild_full now full positive
  rw [written, getFirstBlockId_finishChain, getFirstBlockId_writeChain,
    getFirstBlockId_congr (get_eraseNextLinks rfl) (get_eraseNextLinks rfl),
    (writes_fastPath env db).getFirstBlockId_side]

/-- The path of a rebuild starts in the first slot. -/
theorem FirstSlotPlaced.head (placed : FirstSlotPlaced env db) {genesis : Block}
    (head : (bestValidChain env db).head? = some genesis) :
    genesis.number = getFirstBlockId db := by
  have first : (bestPath env db maxRebuildChainDepth).head? = some genesis := by
    obtain ⟨rest, split⟩ := @bestValidChain_isPrefix env db
    rw [← split, List.head?_append, head, Option.some_or]
  cases placed with
  | inl stored =>
      obtain ⟨known, rooted⟩ := stored
      obtain ⟨best, structural, path⟩ := bestPath_spec rooted
      obtain ⟨start, rest, shape, startsAt⟩ := pathFrom_cons structural.isPath
      rw [path, shape, maxRebuildChainDepth, List.take_succ_cons] at first
      rw [← Option.some.inj first]
      exact startsAt.2.1
  | inr slot =>
      cases bestPath_head first with
      | inl stored => exact stored.2.1
      | inr same => rw [same, slot]

/-- After a full rebuild the walk from the first slot is the chain that passed the
branch validator, and its slots hold its blocks, whatever the indexes held. -/
theorem rebuild_walks_chosen_chain (env : Env) (now : Int) (db : LevelDb)
    (trip : EntriesTrip env db) (placed : FirstSlotPlaced env db)
    (full : (tryValidatedCheckpointFastPath env db).1 = none)
    (positive : 0 < (rebuildBestChainIndex env now db).1) :
    Accepts env (bestValidChain env db) ∧
      getLatestBlockId (rebuildBestChainIndex env now db).2 = (rebuildBestChainIndex env now db).1 ∧
      WalksAs env (rebuildBestChainIndex env now db).2 (bestValidChain env db) ∧
      ∀ block ∈ bestValidChain env db,
        getBlock env (rebuildBestChainIndex env now db).2 block.number = block := by
  obtain ⟨newTip, last, number, -⟩ := rebuild_full now full positive
  have present : bestValidChain env db ≠ [] := by
    intro empty
    rw [empty] at last
    cases last
  have accepted := bestValidChain_accepts present
  have installed := installed_rebuild now full positive
  have trips := trip.bestValidChain
  have slots : ∀ block ∈ bestValidChain env db,
      getBlock env (rebuildBestChainIndex env now db).2 block.number = block :=
    fun block member => installed.getBlock_eq member (trips block member)
  have links : LinksAlong env (rebuildBestChainIndex env now db).2 (bestValidChain env db) := by
    constructor
    · intro genesis head
      rw [getFirstBlockId_rebuild now full positive, ← placed.head head]
      exact slots genesis (List.mem_of_head? head)
    · exact fun before parent child rest place =>
        installed.getNextBlock_eq trips place (connects_of_accepts accepted place)
  refine ⟨accepted, ?_, ?_, slots⟩
  · rw [installed.latest newTip last, number]
  · exact links.walksAs (ascending_of_accepts accepted) present installed.latest

/-- A stored chain that the validator accepts starts at a genesis candidate. -/
theorem Sound.exists_storedGenesis (sound : Sound env db) (present : bestValidChain env db ≠ []) :
    ∃ genesis, StoredGenesis env db genesis := by
  obtain ⟨genesis, rest, chain⟩ := List.exists_cons_of_ne_nil present
  have head : (bestValidChain env db).head? = some genesis := by
    rw [chain]
    rfl
  exact ⟨genesis, sound.storedGenesis head⟩

/-! ### A first slot that names a block of another slot -/

/-- Without a genesis block in the first slot, the rebuild follows the best path
from the stored block that the slot answers with. -/
theorem bestPath_from_slot (rootless : ∀ block, ¬ StoredGenesis env db block)
    (positive : 0 < (getBlock env db (getFirstBlockId db)).number)
    (member : getBlock env db (getFirstBlockId db) ∈ getStoredBlocks env db) :
    ∃ best, BestFrom (getStoredBlocks env db) (· = getBlock env db (getFirstBlockId db)) best ∧
      ∀ depth, bestPath env db depth = best.take depth := by
  have stored := distinct_getStoredBlocks env db
  have empty : (getStoredBlocks env db).filter (isGenesisCandidate (getFirstBlockId db)) = [] := by
    apply List.filter_eq_nil_iff.mpr
    intro block listed candidate
    rw [isGenesisCandidate, Bool.and_eq_true, decide_eq_true_eq, decide_eq_true_eq] at candidate
    exact rootless block ⟨listed, candidate⟩
  have index : (indexByHash (getStoredBlocks env db)).insert
      (getBlock env db (getFirstBlockId db)).hash (getBlock env db (getFirstBlockId db)) =
      indexByHash (getStoredBlocks env db) := by
    apply Std.ExtTreeMap.ext_getElem?
    intro hash
    rw [Std.ExtTreeMap.getElem?_insert]
    split
    · rename_i same
      rw [← Std.LawfulEqCmp.compare_eq_iff_eq.mp same, indexByHash_of_mem stored member]
    · rfl
  have found : genesisCandidates env db (getStoredBlocks env db) (getFirstBlockId db) =
      ([getBlock env db (getFirstBlockId db)], indexByHash (getStoredBlocks env db)) := by
    rw [genesisCandidates, empty]
    dsimp only
    rw [if_pos List.length_nil, if_pos positive, index]
  obtain ⟨best, optimal, -⟩ := hasEntry_bestTable stored member
  refine ⟨best, optimal, fun depth => ?_⟩
  rw [bestPath, found]
  dsimp only
  have only : preferredOf (bestTable (getStoredBlocks env db))
      ([getBlock env db (getFirstBlockId db)].mergeSort byNumberAscending) =
      getBlock env db (getFirstBlockId db) := by
    have chosen := bestFrom_preferredOf (bestTable (getStoredBlocks env db)) stored
      (fun block listed => List.mem_singleton.mp listed ▸ member)
      (List.cons_ne_nil (getBlock env db (getFirstBlockId db)) [])
      (fun block listed => hasEntry_bestTable stored (List.mem_singleton.mp listed ▸ member))
    rw [List.mergeSort_singleton]
    exact List.mem_singleton.mp chosen.1
  rw [only]
  exact followBestChildren_eq stored depth ∅ _ best member optimal
    fun _ _ => Std.ExtTreeSet.not_mem_empty

namespace Sample

/-- The store of the genesis block and its child, with the slot of the child for
the first one and the genesis block named by it. -/
def misplacedStore : LevelDb :=
  setFirstBlockId ((extended emptyBlock).db.put (.canonical emptyBlock.number) genesis.hash)
    emptyBlock.number

theorem writes_misplacedStore : Writes (fun key => key = .canonical emptyBlock.number ∨
    key = .firstBlockId ∨ key = .chainMeta "first_block") (extended emptyBlock).db
    misplacedStore := by
  have slot : Writes (fun key => key = .canonical emptyBlock.number ∨
      key = .firstBlockId ∨ key = .chainMeta "first_block") (extended emptyBlock).db
      ((extended emptyBlock).db.put (.canonical emptyBlock.number) genesis.hash) :=
    (Writes.refl _).put (.inl rfl)
  exact slot.trans ((writes_setFirstBlockId _ _).mono fun _ => .inr)

theorem misplaced_other {key : StoreKey} (written : key = .canonical emptyBlock.number ∨
    key = .firstBlockId ∨ key = .chainMeta "first_block") : isBlockEntry key.text = false := by
  rw [isBlockEntry_text]
  rcases written with rfl | rfl | rfl <;> rfl

theorem misplaced_first : getFirstBlockId misplacedStore = emptyBlock.number :=
  getFirstBlockId_setFirstBlockId
    (roundTrips (List.mem_iff_getElem?.mpr ⟨4, rfl⟩)).facts.2.2

theorem misplaced_slot : getBlock Sample.env misplacedStore emptyBlock.number = genesis := by
  have held := (tracked_emptyBlock.holds genesis).mpr (List.mem_cons_of_mem _ List.mem_cons_self)
  have kept : misplacedStore.get (.block genesis.hash) =
      (extended emptyBlock).db.get (.block genesis.hash) :=
    writes_misplacedStore.get_eq (by simp)
  apply (held.congr kept).getBlock_eq
  rw [misplacedStore, setFirstBlockId, LevelDb.get_putLong_of_ne (by simp),
    LevelDb.get_putLong_of_ne (by simp), LevelDb.get_put_self]

theorem misplaced_stored {block : Block} :
    block ∈ getStoredBlocks Sample.env misplacedStore ↔ block ∈ [emptyBlock, genesis] := by
  rw [writes_misplacedStore.getStoredBlocks_eq fun _ => misplaced_other]
  exact tracked_emptyBlock.mem_getStoredBlocks

theorem misplaced_latest : getLatestBlockId misplacedStore = emptyBlock.number := by
  rw [misplacedStore, getLatestBlockId_setFirstBlockId]
  have kept : ∀ key : StoreKey, key ≠ .canonical emptyBlock.number →
      ((extended emptyBlock).db.put (.canonical emptyBlock.number) genesis.hash).get key =
        (extended emptyBlock).db.get key :=
    fun key other => LevelDb.get_put_of_ne (Ne.symm other)
  rw [getLatestBlockId_congr (kept _ (by simp)) (kept _ (by simp)), tracked_emptyBlock.latest]

theorem misplaced_full : (tryValidatedCheckpointFastPath Sample.env misplacedStore).1 = none := by
  cases attempt : (tryValidatedCheckpointFastPath Sample.env misplacedStore).1 with
  | none => rfl
  | some tip =>
      obtain ⟨latest, -, number⟩ := fastPath_tip attempt
      rw [← latest, misplaced_latest, misplaced_slot] at number
      exact absurd number (by decide)

theorem misplaced_path :
    bestPath Sample.env misplacedStore maxRebuildChainDepth = [genesis, emptyBlock] := by
  have slot := misplaced_slot
  rw [← misplaced_first] at slot
  have rootless : ∀ block, ¬ StoredGenesis Sample.env misplacedStore block := by
    have parents : ∀ block ∈ [emptyBlock, genesis], block.number = emptyBlock.number →
        ¬ block.previousBlockId ≤ 0 := by decide
    intro block rooted
    refine parents block (misplaced_stored.mp rooted.1) ?_ rooted.2.2
    rw [rooted.2.1, misplaced_first]
  have listed : genesis ∈ getStoredBlocks Sample.env misplacedStore :=
    misplaced_stored.mpr (List.mem_cons_of_mem _ List.mem_cons_self)
  obtain ⟨best, optimal, path⟩ := bestPath_from_slot rootless (by rw [slot]; decide)
    (by rw [slot]; exact listed)
  rw [slot] at optimal
  have branch : PathFrom (Edge (getStoredBlocks Sample.env misplacedStore)) (· = genesis)
      [genesis, emptyBlock] := by
    have edge : Edge (getStoredBlocks Sample.env misplacedStore) genesis emptyBlock :=
      ⟨misplaced_stored.mpr List.mem_cons_self, by decide⟩
    exact pathFrom_cons_cons.mpr ⟨rfl, List.isChain_singleton _, emptyBlock, rfl, edge⟩
  have long : 2 ≤ best.length := by
    rcases optimal.best _ branch with rfl | longer | same
    · exact le_rfl
    · exact longer.le
    · exact same.1.le
  obtain ⟨first, second, rest, rfl⟩ : ∃ first second rest, best = first :: second :: rest := by
    match best with
    | [] | [_] => exact absurd long (by simp)
    | first :: second :: rest => exact ⟨first, second, rest, rfl⟩
  obtain ⟨rfl, later⟩ := pathFrom_cons_cons.mp optimal.isPath
  obtain ⟨_, head, secondStored, secondJoins⟩ := later.begins
  obtain rfl := Option.some.inj head
  have joined : ∀ second ∈ [emptyBlock, genesis], childConnectsToParent second genesis = true →
      second = emptyBlock := by
    intro second member joins
    rcases List.mem_pair.mp member with same | rfl
    · exact same
    · exact absurd joins (by decide)
  obtain rfl := joined second (misplaced_stored.mp secondStored) secondJoins
  have last : ∀ third ∈ [emptyBlock, genesis],
      ¬ childConnectsToParent third emptyBlock = true := by
    intro third member
    rcases List.mem_pair.mp member with rfl | rfl
    · decide
    · decide
  cases rest with
  | nil =>
      rw [path, maxRebuildChainDepth]
      rfl
  | cons third rest =>
      obtain ⟨-, further⟩ := pathFrom_cons_cons.mp later
      obtain ⟨_, head, thirdStored, thirdJoins⟩ := further.begins
      obtain rfl := Option.some.inj head
      exact absurd thirdJoins (last third (misplaced_stored.mp thirdStored))

theorem misplaced_chain :
    Safire.bestValidChain Sample.env misplacedStore = [genesis, emptyBlock] := by
  rw [Safire.bestValidChain, misplaced_path]
  dsimp only [List.length_cons, List.length_nil]
  rw [dropInvalidTail, if_pos accepts_emptyBlock]

/-- The rebuild puts the child into the first slot, so the walk misses the genesis block. -/
theorem misplaced_walk_differs :
    EntriesTrip Sample.env misplacedStore ∧
      (tryValidatedCheckpointFastPath Sample.env misplacedStore).1 = none ∧
      0 < (rebuildBestChainIndex Sample.env 0 misplacedStore).1 ∧
      ¬ WalksAs Sample.env (rebuildBestChainIndex Sample.env 0 misplacedStore).2
        (bestValidChain Sample.env misplacedStore) := by
  have trip : EntriesTrip Sample.env misplacedStore :=
    tracked_emptyBlock.sound.entriesTrip.of_writes writes_misplacedStore fun _ => misplaced_other
  have positive : 0 < (rebuildBestChainIndex Sample.env 0 misplacedStore).1 := by
    apply rebuild_positive 0 _ misplaced_full
    · rw [misplaced_chain]
      exact List.cons_ne_nil _ _
    · rw [misplaced_first]
      decide
  refine ⟨trip, misplaced_full, positive, fun walks => ?_⟩
  have start := walks.linksAlong.start genesis (by rw [misplaced_chain]; rfl)
  have installed := installed_rebuild 0 misplaced_full positive
  have member : emptyBlock ∈ bestValidChain Sample.env misplacedStore := by
    rw [misplaced_chain]
    exact List.mem_cons_of_mem _ List.mem_cons_self
  have slot := installed.getBlock_eq member (roundTrips (List.mem_iff_getElem?.mpr ⟨4, rfl⟩))
  rw [getFirstBlockId_rebuild 0 misplaced_full positive, misplaced_first, slot] at start
  exact absurd (congrArg Block.number start) (by decide)

theorem rebuild_walks_forked :
    EntriesTrip Sample.env forkedNode.db ∧ FirstSlotPlaced Sample.env forkedNode.db ∧
      (tryValidatedCheckpointFastPath Sample.env forkedNode.db).1 = none ∧
      0 < (rebuildBestChainIndex Sample.env 0 forkedNode.db).1 ∧
      WalksAs Sample.env (rebuildBestChainIndex Sample.env 0 forkedNode.db).2
        (bestValidChain Sample.env forkedNode.db) :=
  have trip := tracked_forkedNode.sound.entriesTrip
  have placed := .inl ⟨genesis, storedGenesis_forked⟩
  ⟨trip, placed, forked_full, forked_positive,
    (rebuild_walks_chosen_chain Sample.env 0 forkedNode.db trip placed forked_full
      forked_positive).2.2.1⟩

end Sample

end Safire
