/-
The creator that the block builder selects for its time slot.

The builder reads the stored chain alone: it rebuilds the ledger at the selection
boundary and at the tip, and counts the recovery run along the stored parent
hashes. The storage validator and the branch validator require a creator for the
block that the builder would add; on a stored chain the three are one.
-/

import Safire.CreatorSelection
import Safire.StorageAgreement

namespace Safire.BlockBuilder

open Text ChainValidator

def configuredRecoveryPublicKey (env : Env) (db : LevelDb) : Text :=
  if 0 < env.config.recoveryPublicKey.length then env.config.recoveryPublicKey
  else
    let firstBlockId := getFirstBlockId db
    if 0 < firstBlockId then (getBlock env db firstBlockId).creatorKey else []

/-- The loop of the storage validator, under the name it has in the builder. -/
def consecutiveRecoveryBlocks (env : Env) (db : LevelDb) (parent : Block)
    (recoveryPublicKey : Text) : Int :=
  if recoveryPublicKey.length = 0 then 0
  else recoveryRunInStore env db recoveryPublicKey Selector.getRecoveryWindowBlocks.toNat parent

/-- The time slot at each call of `build` in one round. -/
structure RoundClock where
  walletTimeBlock : Int
  selectionTimeBlock : Int
  latestTimeBlock : Int

/-- The selection of one round of `blockBuilderThread` with the ledger cache after
it. There is none where the tip is not before the time slot. -/
def selectCreator (env : Env) (db : LevelDb) (cache : LedgerState.Cache) (clock : RoundClock)
    (publicKey : Text) (timeBlock : Int) : Option Selector.Authorization × LedgerState.Cache :=
  let previousBlock := getBlock env db (getLatestBlockId db)
  let (_, cache) := LedgerState.build env db cache clock.walletTimeBlock publicKey (-1)
  if 0 < previousBlock.number ∧ previousBlock.number < timeBlock then
    let selectionBoundary := Selector.getSelectionBoundaryBlock timeBlock (getFirstBlockId db)
    let (selectionState, cache) :=
      LedgerState.build env db cache clock.selectionTimeBlock [] selectionBoundary
    let (latestState, cache) :=
      LedgerState.build env db cache clock.latestTimeBlock [] previousBlock.number
    let recoveryPublicKey := configuredRecoveryPublicKey env db
    let recoveryRun := consecutiveRecoveryBlocks env db previousBlock recoveryPublicKey
    (some (Selector.getAuthorizedCreatorForBlock env timeBlock selectionState.latestBlock.hash
      (LedgerState.activeMemberKeysAt selectionState timeBlock) previousBlock.hash
      (LedgerState.activeMemberKeysAt latestState timeBlock) recoveryPublicKey recoveryRun), cache)
  else (none, cache)

/-! ### The creators that the validators require -/

/-- `selectedCreator` of `validateBlockForStorage` for a block on the tip. -/
def storageSelectedCreator (env : Env) (ambient : Ambient) (db : LevelDb) (caches : Caches)
    (parent block : Block) : Text :=
  let (parentState, afterParent) := parentStateFor env ambient db caches parent
  let (selectionState, _) := selectionStateFor env ambient db afterParent parentState block
  (storageAuthorization env db parent parentState selectionState block.number).creator

/-! ### One creator for a slot -/

section Stored

variable {env : Env} {db : LevelDb} {chain : List Block} {genesis tip : Block} {state : BranchState}
variable (accepted : Accepts env chain) (shaped : BuilderShaped chain)
variable (stored : StoredAs env db chain) (connected : connectChain env chain = .ok state)
include accepted shaped stored connected

/-- The builder selects the creator that the branch validator requires next. -/
theorem selectCreator_eq {cache : LedgerState.Cache}
    (coherent : LedgerState.CacheCoherent env db cache) (head : chain.head? = some genesis)
    (last : chain.getLast? = some tip) {timeBlock : Int} (later : tip.number < timeBlock)
    {snapshot : BranchSnapshot}
    (found : selectionSnapshotForBlock state.snapshots timeBlock genesis.number = some snapshot)
    (clock : RoundClock) (publicKey : Text) :
    (selectCreator env db cache clock publicKey timeBlock).1 =
      some (branchAuthorization env chain state tip genesis snapshot timeBlock) := by
  have tipPositive := (ascending_of_accepts accepted).positive tip (List.mem_of_getLast? last)
  have firstPositive := (LedgerState.ends_of_stored stored accepted).1
  have firstId := stored.first genesis head
  obtain ⟨same, alsoFound, -, selects⟩ :=
    selectsAs_build accepted stored head connected shaped timeBlock
  obtain rfl : snapshot = same := Option.some.inj (found.symm.trans alsoFound)
  have atWallet := LedgerState.build_coherent coherent clock.walletTimeBlock publicKey (-1)
  have selected := selects _ clock.selectionTimeBlock atWallet
  have atBoundary := LedgerState.build_coherent atWallet clock.selectionTimeBlock []
    (Selector.getSelectionBoundaryBlock timeBlock (getFirstBlockId db))
  have latest := parentMatches_build accepted shaped stored connected atBoundary last
    clock.latestTimeBlock
  have recoveryKey : configuredRecoveryPublicKey env db =
      Safire.configuredRecoveryPublicKey env genesis.creatorKey := by
    have genesisPositive : 0 < genesis.number := firstId ▸ firstPositive
    rw [configuredRecoveryPublicKey, Safire.configuredRecoveryPublicKey, firstId]
    dsimp only
    rw [stored.bySlot genesis (List.mem_of_mem_head? head)]
    simp only [genesisPositive, if_true]
  have run : consecutiveRecoveryBlocks env db tip (configuredRecoveryPublicKey env db) =
      consecutiveRecoveryBlocksInBranch chain (configuredRecoveryPublicKey env db) :=
    consecutiveRecoveryBlocks_eq stored last connected _
  unfold selectCreator
  dsimp only
  rw [stored.latest tip last, stored.bySlot tip (List.mem_of_getLast? last),
    if_pos ⟨tipPositive, later⟩]
  dsimp only
  rw [run, recoveryKey, selected.hash,
    activeMemberKeysAt_eq selected.members selected.flag (tipPositive.trans later),
    activeMemberKeysAt_eq latest.members latest.flag (tipPositive.trans later), branchAuthorization]

end Stored

/-- On a stored chain the storage validator, the branch validator and the builder
find one creator for every slot after the tip. -/
theorem one_creator_per_slot (env : Env) (db : LevelDb) (chain : List Block)
    (accepted : Accepts env chain) (shaped : BuilderShaped chain) (stored : StoredAs env db chain)
    (tip : Block) (last : chain.getLast? = some tip) (block : Block)
    (later : tip.number < block.number) (ambient : Ambient) (clock : RoundClock)
    (publicKey : Text) :
    ∃ state creator, connectChain env chain = .ok state ∧
      storageSelectedCreator env ambient db .empty tip block = creator ∧
      branchSelectedCreator env chain state block.number = some creator ∧
      (selectCreator env db ∅ clock publicKey block.number).1.map Selector.Authorization.creator =
        some creator := by
  obtain ⟨present, state, connected⟩ := accepts_iff.mp accepted
  obtain ⟨genesis, rest, rfl⟩ := List.exists_cons_of_ne_nil present
  have head : (genesis :: rest).head? = some genesis := rfl
  have positive := ((ascending_of_accepts accepted).positive tip (List.mem_of_getLast? last)).trans
    later
  have fetched : (parentStateFor env ambient db .empty tip).1 =
      (LedgerState.build env db ∅ ambient.parentTimeBlock [] tip.number).1 := rfl
  have parent := parentMatches_build accepted shaped stored connected
    LedgerState.cacheCoherent_empty last ambient.parentTimeBlock
  rw [← fetched] at parent
  have coherent : LedgerState.CacheCoherent env db
      (parentStateFor env ambient db .empty tip).2.ledgerStateCache :=
    LedgerState.build_coherent LedgerState.cacheCoherent_empty _ _ _
  obtain ⟨snapshot, found, -, authorization⟩ := storageAuthorization_eq accepted stored head
    connected shaped last positive ambient coherent parent.members parent.flag
  refine ⟨state, (branchAuthorization env (genesis :: rest) state tip genesis snapshot
    block.number).creator, connected, ?_, ?_, ?_⟩
  · rw [storageSelectedCreator, ← authorization]
  · rw [branchSelectedCreator, head, last]
    dsimp only
    rw [found, Option.map_some]
  · rw [selectCreator_eq accepted shaped stored connected LedgerState.cacheCoherent_empty head last
      later found, Option.map_some]

/-- A heartbeat and two blocks of the only member in its turn. -/
def turnChain : List Block :=
  [Sample.beatBlock] ++ Sample.idleBlocks.take 2

theorem turnChain_checks : Accepts Sample.env (Sample.genesis :: turnChain) ∧
    ∀ block ∈ Sample.genesis :: turnChain,
      BlockReadable Sample.env block ∧ RecordsFit Sample.env 2 block.records := by
  decide +kernel

theorem storedAs_turnChain :
    StoredAs Sample.env (canonicalStore Sample.env Sample.genesis turnChain)
      (Sample.genesis :: turnChain) := by
  obtain ⟨accepted, readable⟩ := turnChain_checks
  refine storedAs_canonicalStore accepted ⟨?_, ?_⟩ ?_ (by decide)
  · decide +kernel
  · decide +kernel
  · intro block member
    obtain ⟨read, fit⟩ := readable block member
    exact roundTrips_of_fit read fit

/-- The block after the chain. -/
def turnBlock : Block :=
  Sample.idleBlocks.get ⟨2, by decide⟩

theorem one_creator_of_turnChain :
    ∃ state creator, connectChain Sample.env (Sample.genesis :: turnChain) = .ok state ∧
      storageSelectedCreator Sample.env sampleAmbient
        (canonicalStore Sample.env Sample.genesis turnChain) .empty
        (Sample.idleBlocks.get ⟨1, by decide⟩) turnBlock = creator ∧
      branchSelectedCreator Sample.env (Sample.genesis :: turnChain) state turnBlock.number =
        some creator ∧
      (selectCreator Sample.env (canonicalStore Sample.env Sample.genesis turnChain) ∅
        ⟨104, 104, 104⟩ Sample.genesis.creatorKey turnBlock.number).1.map
          Selector.Authorization.creator = some creator :=
  one_creator_per_slot Sample.env (canonicalStore Sample.env Sample.genesis turnChain)
    (Sample.genesis :: turnChain) turnChain_checks.1 (LedgerState.sample_builderShaped turnChain)
    storedAs_turnChain (Sample.idleBlocks.get ⟨1, by decide⟩) rfl turnBlock (by decide)
    sampleAmbient ⟨104, 104, 104⟩ Sample.genesis.creatorKey

end Safire.BlockBuilder
