/-
How a block comes into the store: beside the tip by its own content, on the tip
under the state rules. A node whose blocks are known is followed through the
blocks that it admits.
-/

import Safire.SoundStore
import Safire.StorageAgreement

namespace Safire

open Text ChainValidator

variable {env : Env} {db : LevelDb} {node : Node} {block : Block}

/-! ### Beside the tip -/

/-- The record rules without a chain: no state rule and no record hash below. -/
def contentRules : StorageRules where
  enforceStateRules := false
  isGenesis := false
  parentState := unassignedState ⟨0, false, 0, 0⟩
  duplicateRecordInParent := fun _ => false

theorem storeRecord_sideRules {ambient : Ambient} {parent : Block} {record : Record}
    (unseen : recordExistsInChain env db record.hash parent.number = false)
    (temporary : Temporary) :
    storeRecord env (sideRules env ambient db parent) block temporary record =
      storeRecord env contentRules block temporary record := by
  have typed : ∀ temporary, storeTyped (sideRules env ambient db parent) block temporary record =
      storeTyped contentRules block temporary record := by
    intro temporary
    unfold storeTyped
    cases record.transactionType <;>
      simp [storeTransfer, storeVote, storeJoin, storeUpdateName, storeHeartBeat, sideRules,
        contentRules]
  have below : (sideRules env ambient db parent).duplicateRecordInParent record.hash =
      contentRules.duplicateRecordInParent record.hash := unseen
  rw [storeRecord, storeRecord, below, typed]

/-- Beside the tip a block of unseen records is judged by its content alone. -/
theorem storeOffTip_eq_content {ambient : Ambient} {parent : Block}
    (unseen : ∀ record ∈ block.records,
      recordExistsInChain env db record.hash parent.number = false) :
    storeOffTip env ambient db parent block = storeRecords env contentRules block := by
  have loops : ∀ (records : List Record) (temporary : Temporary),
      (∀ record ∈ records, recordExistsInChain env db record.hash parent.number = false) →
      records.foldlM (storeRecord env (sideRules env ambient db parent) block) temporary =
        records.foldlM (storeRecord env contentRules block) temporary := by
    intro records
    induction records with
    | nil => exact fun _ _ => rfl
    | cons record later ih =>
        intro temporary fresh
        rw [List.foldlM_cons, List.foldlM_cons,
          storeRecord_sideRules (fresh record List.mem_cons_self)]
        exact bind_congr fun next =>
          ih next fun other member => fresh other (List.mem_cons_of_mem _ member)
  rw [storeOffTip, storeRecords, storeRecords, loops block.records _ unseen]
  rfl

theorem storageParent_ok_iff {parent : Block} :
    storageParent env db block = .ok parent ↔
      block.previousBlockHash ≠ [] ∧ getBlockByHash env db block.previousBlockHash = parent ∧
        0 < parent.number ∧ parent.number = block.previousBlockId ∧
        block.previousBlockId < block.number := by
  unfold storageParent
  by_cases missing : block.previousBlockHash = []
  · simp [missing]
  · rw [if_neg (by rwa [List.length_eq_zero_iff])]
    dsimp only
    generalize getBlockByHash env db block.previousBlockHash = found
    by_cases positive : found.number ≤ 0
    · rw [if_pos positive]
      simp only [reduceCtorEq, false_iff]
      rintro ⟨-, rfl, above, -⟩
      omega
    · rw [if_neg positive]
      by_cases ids : found.number = block.previousBlockId
      · rw [if_neg (not_ne_iff.mpr ids)]
        by_cases order : block.number ≤ block.previousBlockId
        · rw [if_pos order]
          simp only [reduceCtorEq, false_iff]
          rintro ⟨-, rfl, -, -, above⟩
          omega
        · rw [if_neg order, Except.ok.injEq]
          constructor
          · rintro rfl
            exact ⟨missing, rfl, by omega, ids, by omega⟩
          · exact fun facts => facts.2.1
      · rw [if_pos ids]
        simp only [reduceCtorEq, false_iff]
        rintro ⟨-, rfl, -, same, -⟩
        exact ids same

/-- A linked block that the state rules are not enforced on. -/
theorem validate_off_tip {ambient : Ambient} {caches : Caches} {parent : Block}
    (envelope : checkEnvelope env block = .ok ()) (later : 0 < block.previousBlockId)
    (found : storageParent env db block = .ok parent)
    (free : enforcesStateRules env db parent block = false)
    (unseen : ∀ record ∈ block.records,
      recordExistsInChain env db record.hash parent.number = false)
    (content : storeRecords env contentRules block = .ok ()) :
    validateBlockForStorage env ambient db caches block = (.ok (), caches) := by
  rw [validateBlockForStorage, envelope]
  dsimp only
  rw [if_neg (not_le.mpr later), found]
  dsimp only
  rw [free, storeOffTip_eq_content unseen, content]
  rfl

/-- A linked block that does not name the tip as its parent. -/
theorem validate_beside_tip {ambient : Ambient} {caches : Caches} {parent : Block}
    (envelope : checkEnvelope env block = .ok ()) (later : 0 < block.previousBlockId)
    (found : storageParent env db block = .ok parent)
    (beside : block.previousBlockId ≠ getLatestBlockId db)
    (unseen : ∀ record ∈ block.records,
      recordExistsInChain env db record.hash parent.number = false)
    (content : storeRecords env contentRules block = .ok ()) :
    validateBlockForStorage env ambient db caches block = (.ok (), caches) := by
  refine validate_off_tip envelope later found ?_ unseen content
  rw [enforcesStateRules]
  simp [beside]

/-! ### Stored blocks along a walk -/

namespace Sound

variable (sound : Sound env db)
include sound

theorem holds_linkedNextBlock (found : 0 < (linkedNextBlock env db block).number) :
    Holds env db (linkedNextBlock env db block) := by
  revert found
  apply linkedNextBlock_of_lookups (motive := fun block => 0 < block.number → Holds env db block)
  · intro positive
    exact absurd positive (by decide)
  · intro hash positive
    exact (sound.holds_getBlockByHash positive).1
  · intro number positive
    exact (sound.holds_getBlock positive).1

theorem holds_getNextBlock (found : 0 < (getNextBlock env db block).number) :
    Holds env db (getNextBlock env db block) := by
  revert found
  apply getNextBlock_of_lookups (motive := fun block => 0 < block.number → Holds env db block)
  · intro positive
    exact absurd positive (by decide)
  · intro hash positive
    exact (sound.holds_getBlockByHash positive).1
  · intro number positive
    exact (sound.holds_getBlock positive).1
  · intro stored member _
    exact sound.mem_getStoredBlocks.mp member
  · intro unfound _ positive
    exact absurd positive (not_lt.mpr (by simp))

theorem holds_walk {tooFar isLast : Int → Bool} (guard : Nat) :
    ∀ {start : Block}, (0 < start.number → Holds env db start) →
      ∀ visited ∈ walk env db tooFar isLast guard start, Holds env db visited := by
  induction guard with
  | zero =>
      intro start _ visited member
      cases member
  | succ guard ih =>
      intro start held visited member
      rw [walk] at member
      split at member
      · cases member
      · rename_i usable
        rw [not_or] at usable
        have own := held (not_le.mp usable.1)
        split at member
        · rw [List.mem_singleton.mp member]
          exact own
        · dsimp only at member
          split at member
          · rw [List.mem_singleton.mp member]
            exact own
          · rcases List.mem_cons.mp member with rfl | later
            · exact own
            · exact ih sound.holds_getNextBlock visited later

/-- A record that no stored block has is not in the chain. -/
theorem recordExistsInChain_eq_false {recordHash : Text}
    (absent : ∀ other, Holds env db other → ∀ record ∈ other.records, record.hash ≠ recordHash)
    (stopBlock : Int) : recordExistsInChain env db recordHash stopBlock = false := by
  unfold recordExistsInChain
  dsimp only
  split
  · rfl
  · rw [List.any_eq_false]
    intro visited member
    have held := sound.holds_walk walkGuard (fun positive => (sound.holds_getBlock positive).1)
      visited member
    rw [Bool.not_eq_true, List.any_eq_false]
    intro record listed
    simpa using absent visited held record listed

end Sound

/-! ### On the tip -/

/-- A block without records on the stored tip needs only its envelope, its link
and its creator. -/
theorem validate_empty_on_tip {chain : List Block} (accepted : Accepts env chain)
    (shaped : BuilderShaped chain) (stored : StoredAs env db chain) {state : BranchState}
    (connected : connectChain env chain = .ok state) {tip : Block}
    (last : chain.getLast? = some tip) (free : SlotFree env db block) (empty : block.records = [])
    (extended : Accepts env (chain ++ [block])) {ambient : Ambient} {caches : Caches}
    (coherent : LedgerState.CacheCoherent env db
      (parentStateFor env ambient db caches tip).2.ledgerStateCache)
    (members : (parentStateFor env ambient db caches tip).1.members.map
      LedgerState.MemberState.toBranchMember = state.members)
    (flag : (parentStateFor env ambient db caches tip).1.chainHasHeartbeatRecords =
      state.chainHasHeartbeatRecords) :
    (validateBlockForStorage env ambient db caches block).1 = .ok () := by
  have tipMember := List.mem_of_getLast? last
  have tipPositive := (ascending_of_accepts accepted).positive tip tipMember
  obtain ⟨envelope, link, -⟩ := (accepts_snoc_iff connected).mp extended
  obtain ⟨genesis, head, sameLink⟩ := checkLink_of_parent env last state block
  rw [sameLink] at link
  obtain ⟨ids, above, hashes, snapshot, selected, -, creator⟩ := checkParentLink_ok_iff.mp link
  obtain ⟨found, sameFound, -, authorization⟩ := storageAuthorization_eq accepted stored head
    connected shaped last (tipPositive.trans above) ambient coherent members flag
  obtain rfl : snapshot = found := Option.some.inj (selected.symm.trans sameFound)
  have records : ∀ rules, storeRecords env rules block = .ok () := by
    intro rules
    rw [storeRecords, empty]
    rfl
  have onTip : (storeOnTip env ambient db caches tip block).1 = .ok () := by
    unfold storeOnTip
    dsimp only
    rw [authorization, creator]
    exact storeUnderRules_ok_iff.mpr (records _)
  unfold validateBlockForStorage
  rw [envelope]
  dsimp only
  rw [if_neg (by omega), storageParent_of_stored stored tipMember tipPositive
    (hashes_of_connected connected tip tipMember) hashes, if_neg (not_ne_iff.mpr ids.symm),
    if_neg (by omega)]
  dsimp only
  rw [if_pos (enforcesStateRules_of_stored stored last free ids)]
  exact onTip

/-! ### The highest stored block -/

/-- The key holds a number of at least `least`. -/
def HighestAtLeast (db : LevelDb) (least : Int) : Prop :=
  ∃ highest, db.getLong highestKey = some highest ∧ least ≤ highest

def StoreKey.IsNotHighest (key : StoreKey) : Prop :=
  key ≠ highestKey

theorem HighestAtLeast.of_writes {after : LevelDb} {least : Int} (highest : HighestAtLeast db least)
    (writes : Writes StoreKey.IsNotHighest db after) : HighestAtLeast after least := by
  obtain ⟨value, found, above⟩ := highest
  refine ⟨value, ?_, above⟩
  rw [LevelDb.getLong, writes.get_eq (fun other => other rfl)]
  exact found

theorem StoreKey.IsPlacing.notHighest {key : StoreKey} (placing : key.IsPlacing block) :
    key.IsNotHighest := by
  rcases placing with rfl | rfl | (rfl | rfl) | ((rfl | rfl) | rfl) | quiet
  case inr.inr.inr.inr => exact quiet.2.1
  all_goals simp [StoreKey.IsNotHighest]

/-- After the keys of a block the highest number is at least as large as before
and as the number of the block. -/
theorem highest_writeStored {least : Int} (range : IsLong block.number)
    (positive : 0 < block.number)
    (before : HighestAtLeast db least ∨ least ≤ block.number) :
    HighestAtLeast (writeStored env db block) (max least block.number) := by
  have entries : Writes StoreKey.IsNotHighest db ((db.put (.block block.hash)
      (blockJSON env block)).put (.slot block.number block.hash) block.hash) :=
    ((Writes.refl db).put (by simp [StoreKey.IsNotHighest])).put (by simp [StoreKey.IsNotHighest])
  have own : ∀ db : LevelDb, (db.putLong highestKey block.number).getLong highestKey =
      some block.number := fun db => LevelDb.getLong_putLong_self range
  unfold writeStored maybeUpdateHighestStoredBlock
  rw [if_neg (not_le.mpr positive)]
  rcases before with highest | small
  · obtain ⟨value, found, above⟩ := highest.of_writes entries
    rw [found]
    dsimp only
    split
    · exact ⟨_, own _, by omega⟩
    · exact ⟨value, found, by omega⟩
  · split
    · rename_i value found
      split
      · exact ⟨_, own _, by omega⟩
      · exact ⟨value, found, by omega⟩
    · exact ⟨_, own _, by omega⟩

theorem highest_writeBlock {least : Int} (range : IsLong block.number) (positive : 0 < block.number)
    (before : HighestAtLeast db least ∨ least ≤ block.number) :
    HighestAtLeast (writeBlock env db block) (max least block.number) := by
  have stored : HighestAtLeast (writeStored env db block) (max least block.number) :=
    highest_writeStored range positive before
  exact stored.of_writes ((placing_writeBlock env db block).mono fun _ => StoreKey.IsPlacing.notHighest)

/-- A tip below the highest stored block leaves no shortcut. -/
theorem fastPath_none {least : Int} (highest : HighestAtLeast db least)
    (below : getLatestBlockId db < least) : (tryValidatedCheckpointFastPath env db).1 = none := by
  obtain ⟨value, found, above⟩ := highest
  unfold tryValidatedCheckpointFastPath
  dsimp only
  split
  · rfl
  · split
    · rfl
    · split
      · rfl
      · have scanned : highestStoredBlock env db = (value, db) := by
          rw [highestStoredBlock, found]
        rw [scanned]
        dsimp only
        rw [if_pos (by omega)]

/-! ### A store whose blocks are known -/

theorem holds_writeBlock {other : Block} (sound : Sound env db) (trips : RoundTrips env block)
    (fresh : db.get (.block block.hash) = [])
    (below : block.previousBlockId < block.number ∨ block.previousBlockId = -1) :
    Holds env (writeBlock env db block) other ↔ other = block ∨ Holds env db other := by
  have written := written_writeBlock sound trips fresh below
  constructor
  · rintro ⟨otherTrips, stored⟩
    rw [written.contents] at stored
    split at stored
    · exact .inl (otherTrips.eq_of_json trips stored.symm)
    · exact .inr ⟨otherTrips, stored⟩
  · rintro (rfl | holds)
    · exact ⟨trips, by rw [written.contents, if_pos rfl]⟩
    · refine ⟨holds.trips, ?_⟩
      rw [written.contents, if_neg, holds.stored]
      intro same
      rw [← same, holds.stored] at fresh
      exact blockJSON_ne_nil env other fresh

/-- A sound store with its blocks, its chain ends and a bound on its highest number. -/
structure Tracked (env : Env) (db : LevelDb) (held : List Block) (first : Int) (tip : Block)
    (least : Int) : Prop where
  sound : Sound env db
  holds : ∀ block, Holds env db block ↔ block ∈ held
  first : getFirstBlockId db = first
  latest : getLatestBlockId db = tip.number
  tipSlot : getBlock env db tip.number = tip
  highest : HighestAtLeast db least

/-- The checks of a block beside the tip that read the block alone. -/
structure PassesAlone (env : Env) (block : Block) : Prop where
  added : checkAddedBlock env block = .ok ()
  envelope : checkEnvelope env block = .ok ()
  content : storeRecords env contentRules block = .ok ()

/-- A block with a stored parent other than the tip, whose records no stored block has. -/
structure FitsBeside (env : Env) (held : List Block) (parent tip block : Block) : Prop where
  known : parent ∈ held
  hashes : block.previousBlockHash = parent.hash
  ids : block.previousBlockId = parent.number
  above : parent.number < block.number
  beside : parent.number ≠ tip.number
  unknown : ∀ other ∈ held, other.hash ≠ block.hash
  unseen : ∀ other ∈ held, ∀ old ∈ other.records, ∀ record ∈ block.records, old.hash ≠ record.hash
  alone : PassesAlone env block

namespace Tracked

variable {held : List Block} {first least : Int} {tip : Block}
variable (tracked : Tracked env db held first tip least)
include tracked

theorem fresh (unknown : ∀ other ∈ held, other.hash ≠ block.hash) :
    db.get (.block block.hash) = [] := by
  by_contra present
  obtain ⟨other, holds, named⟩ := tracked.sound.blocks block.hash present
  exact unknown other ((tracked.holds other).mp holds) named

theorem mem_getStoredBlocks : block ∈ getStoredBlocks env db ↔ block ∈ held :=
  tracked.sound.mem_getStoredBlocks.trans (tracked.holds block)

theorem getBlock_unused {number : Int} (unused : ∀ other ∈ held, other.number ≠ number) :
    getBlock env db number = .missing := by
  rcases tracked.sound.getBlock_cases number with ⟨missing, -⟩ | ⟨holds, numbered, -⟩
  · exact missing
  · exact absurd numbered (unused _ ((tracked.holds _).mp holds))

theorem takesSlot (unused : ∀ other ∈ held, other.number ≠ block.number) :
    TakesSlot env db block := by
  refine .inl ?_
  rw [tracked.getBlock_unused unused]
  decide

/-- A parent in the store. -/
theorem storageParent_eq {parent : Block} (known : parent ∈ held)
    (hashes : block.previousBlockHash = parent.hash) (ids : block.previousBlockId = parent.number)
    (above : parent.number < block.number) : storageParent env db block = .ok parent := by
  have holds := (tracked.holds parent).mpr known
  obtain ⟨positive, hashed, -⟩ := holds.trips.facts
  refine storageParent_ok_iff.mpr ⟨by rwa [hashes], ?_, positive, ids.symm, by rwa [ids]⟩
  rw [hashes, holds.getBlockByHash_eq]

theorem recordExistsInChain_eq_false {recordHash : Text}
    (absent : ∀ other ∈ held, ∀ record ∈ other.records, record.hash ≠ recordHash)
    (stopBlock : Int) : recordExistsInChain env db recordHash stopBlock = false :=
  tracked.sound.recordExistsInChain_eq_false
    (fun other holds => absent other ((tracked.holds other).mp holds)) stopBlock

theorem validate_beside {parent : Block} (fits : FitsBeside env held parent tip block)
    (ambient : Ambient) (caches : Caches) :
    validateBlockForStorage env ambient db caches block = (.ok (), caches) := by
  have positive := ((tracked.holds parent).mpr fits.known).trips.facts.1
  have ids := fits.ids
  refine validate_beside_tip fits.alone.envelope (by omega)
    (tracked.storageParent_eq fits.known fits.hashes fits.ids fits.above) ?_
    (fun record member => ?_) fits.alone.content
  · rw [tracked.latest, ids]
    exact fits.beside
  · exact tracked.recordExistsInChain_eq_false
      (fun other listed old inside => fits.unseen other listed old inside record member) _

section Write

variable (trips : RoundTrips env block) (unknown : ∀ other ∈ held, other.hash ≠ block.hash)
variable (below : block.previousBlockId < block.number)
include trips unknown below

theorem written : Written env db block (writeBlock env db block) :=
  written_writeBlock tracked.sound trips (tracked.fresh unknown) (.inl below)

/-- The block becomes the tip, in an own slot or in the one of the old tip. -/
theorem write_tip (takes : TakesSlot env db block)
    (moves : ExtendsTip env db block ∨ ¬ ExtendsTip env db block ∧ block.number = tip.number) :
    Tracked env (writeBlock env db block) (block :: held) first block (max least block.number) := by
  have written := tracked.written trips unknown below
  refine ⟨written.sound, fun other => ?_, written.first.trans tracked.first, ?_,
    written.taken takes, highest_writeBlock trips.facts.2.2 trips.facts.1 (.inl tracked.highest)⟩
  · rw [holds_writeBlock tracked.sound trips (tracked.fresh unknown) (.inl below), tracked.holds,
      List.mem_cons]
  · rcases moves with extended | ⟨stays, same⟩
    · exact written.extended takes extended
    · rw [written.latest fun both => stays both.2, tracked.latest, same]

/-- The tip stays where the block does not extend it and has another number. -/
theorem write_beside (stays : ¬ ExtendsTip env db block) (other : tip.number ≠ block.number) :
    Tracked env (writeBlock env db block) (block :: held) first tip (max least block.number) := by
  have written := tracked.written trips unknown below
  refine ⟨written.sound, fun other => ?_, written.first.trans tracked.first, ?_, ?_,
    highest_writeBlock trips.facts.2.2 trips.facts.1 (.inl tracked.highest)⟩
  · rw [holds_writeBlock tracked.sound trips (tracked.fresh unknown) (.inl below), tracked.holds,
      List.mem_cons]
  · rw [written.latest fun both => stays both.2, tracked.latest]
  · rw [written.kept tip.number (.inl other), tracked.tipSlot]

end Write

/-- A block with another parent number leaves the tip. -/
theorem not_extendsTip (later : 0 < block.previousBlockId)
    (beside : block.previousBlockId ≠ tip.number) : ¬ ExtendsTip env db block := by
  rintro (⟨genesis, -⟩ | ⟨same, -⟩)
  · omega
  · rw [tracked.latest] at same
    exact beside same

theorem extendsTip (hashed : tip.hash ≠ []) (hashes : block.previousBlockHash = tip.hash)
    (ids : block.previousBlockId = tip.number) : ExtendsTip env db block := by
  refine .inr ?_
  rw [tracked.latest, tracked.tipSlot]
  exact ⟨ids, rfl, List.length_pos_iff.mpr hashed, hashes.symm⟩

end Tracked

/-- A block beside the tip in a slot of its own. -/
theorem Tracked.write_fitting {held : List Block} {first least : Int} {parent tip : Block}
    (tracked : Tracked env db held first tip least) (trips : RoundTrips env block)
    (fits : FitsBeside env held parent tip block) (other : tip.number ≠ block.number) :
    Tracked env (writeBlock env db block) (block :: held) first tip (max least block.number) := by
  have positive := ((tracked.holds parent).mpr fits.known).trips.facts.1
  have ids := fits.ids
  have above := fits.above
  refine tracked.write_beside trips fits.unknown (by omega)
    (tracked.not_extendsTip (by omega) ?_) other
  rw [ids]
  exact fits.beside

/-! ### Calls that admit a block -/

theorem addBlock_admitted {ambient : Ambient} (added : checkAddedBlock env block = .ok ())
    (fresh : node.db.get (.block block.hash) = [])
    (valid : (validateBlockForStorage env ambient node.db node.caches block).1 = .ok ()) :
    addBlock env ambient node block = (.ok (), ⟨writeBlock env node.db block,
      (validateBlockForStorage env ambient node.db node.caches block).2⟩) := by
  unfold addBlock
  rw [added]
  dsimp only
  rw [if_neg (by simp [fresh])]
  generalize validateBlockForStorage env ambient node.db node.caches block = verdict at valid ⊢
  obtain ⟨outcome, caches⟩ := verdict
  dsimp only at valid
  subst valid
  rfl

/-- The node after a block beside the tip: no state is cached for it. -/
def besideNode (env : Env) (node : Node) (block : Block) : Node :=
  ⟨writeBlock env node.db block, node.caches⟩

theorem Tracked.addBlock_fitting {held : List Block} {first least : Int} {parent tip : Block}
    (tracked : Tracked env node.db held first tip least)
    (fits : FitsBeside env held parent tip block) (ambient : Ambient) :
    addBlock env ambient node block = (.ok (), besideNode env node block) := by
  have valid := tracked.validate_beside fits ambient node.caches
  rw [addBlock_admitted fits.alone.added (tracked.fresh fits.unknown) (by rw [valid]), valid,
    besideNode]

theorem storeBlock_added {ambient : Ambient} {next : Node} (positive : 0 < block.number)
    (fresh : node.db.get (.block block.hash) = [])
    (added : addBlock env ambient node block = (.ok (), next)) :
    storeBlock env ambient node block = (true,
      if getFirstBlockId next.db = -1 ∧ block.previousBlockId ≤ 0 then
        { next with db := setFirstBlockId next.db block.number }
      else next) := by
  have unknown : ¬ 0 < (getBlockByHash env node.db block.hash).number := by
    rw [getBlockByHash, fresh, parseSingleBlockJson_nil, ite_self]
    decide
  rw [storeBlock, if_neg (not_le.mpr positive), if_neg unknown, added]

theorem storeBlock_later {ambient : Ambient} {next : Node} (positive : 0 < block.number)
    (later : 0 < block.previousBlockId) (fresh : node.db.get (.block block.hash) = [])
    (added : addBlock env ambient node block = (.ok (), next)) :
    storeBlock env ambient node block = (true, next) := by
  rw [storeBlock_added positive fresh added, if_neg fun first => not_le.mpr later first.2]

/-- A node that stored its genesis block and set the first number. -/
def startedNode (env : Env) (ambient : Ambient) (genesis : Block) : Node where
  db := setFirstBlockId (writeBlock env ∅ genesis) genesis.number
  caches := (validateBlockForStorage env ambient ∅ .empty genesis).2

theorem startedNode_added {ambient : Ambient} {genesis : Block}
    (added : checkAddedBlock env genesis = .ok ())
    (valid : (validateBlockForStorage env ambient ∅ .empty genesis).1 = .ok ()) :
    addBlock env ambient .empty genesis =
      (.ok (), ⟨writeBlock env ∅ genesis, (startedNode env ambient genesis).caches⟩) :=
  @addBlock_admitted env Node.empty genesis ambient added (LevelDb.get_empty _) valid

theorem tracked_startedNode {ambient : Ambient} {genesis : Block} (trips : RoundTrips env genesis)
    (parentless : genesis.previousBlockId = -1) :
    Tracked env (startedNode env ambient genesis).db [genesis] genesis.number genesis
      genesis.number := by
  have fresh : (∅ : LevelDb).get (.block genesis.hash) = [] := LevelDb.get_empty _
  have written := written_writeBlock (sound_empty env) trips fresh (.inr parentless)
  have takes : TakesSlot env ∅ genesis := by
    refine .inl ?_
    rw [getBlock, LevelDb.get_empty, LevelDb.get_empty]
    exact (by decide : (-1 : Int) ≤ 0)
  have extended : ExtendsTip env ∅ genesis := by
    refine .inl ⟨by omega, ?_⟩
    rw [getLatestBlockId, LevelDb.get_empty, LevelDb.get_empty]
    decide
  refine ⟨written.sound.setFirstBlockId _, fun other => ?_,
    getFirstBlockId_setFirstBlockId trips.facts.2.2, ?_, ?_, ?_⟩
  · have same : Holds env (startedNode env ambient genesis).db other ↔
        Holds env (writeBlock env ∅ genesis) other :=
      ⟨fun holds => holds.congr (setFirstBlockId_blockData _ _ rfl).symm,
        fun holds => holds.congr (setFirstBlockId_blockData _ _ rfl)⟩
    rw [same, holds_writeBlock (sound_empty env) trips fresh (.inr parentless), List.mem_singleton]
    refine or_iff_left fun holds => ?_
    have stored := holds.stored
    rw [LevelDb.get_empty] at stored
    exact blockJSON_ne_nil env other stored.symm
  · rw [startedNode, getLatestBlockId_setFirstBlockId, written.extended takes extended]
  · rw [startedNode, getBlock_setFirstBlockId, written.taken takes]
  · have highest : HighestAtLeast (writeBlock env ∅ genesis) (max genesis.number genesis.number) :=
      highest_writeBlock trips.facts.2.2 trips.facts.1 (.inr le_rfl)
    rw [max_self] at highest
    refine highest.of_writes ((writes_setFirstBlockId _ _).mono ?_)
    rintro key (rfl | rfl) <;> simp [StoreKey.IsNotHighest]

theorem Tracked.storedAs_tip {held : List Block} {tip : Block} {least : Int}
    (tracked : Tracked env db held tip.number tip least) (known : tip ∈ held) :
    StoredAs env db [tip] where
  first := by
    intro genesis head
    rw [tracked.first, ← Option.some.inj head]
  latest := by
    intro last found
    obtain rfl : tip = last := by simpa using found
    exact tracked.latest
  bySlot := by
    intro other member
    rw [List.mem_singleton.mp member]
    exact tracked.tipSlot
  byHash := by
    intro other member
    rw [List.mem_singleton.mp member]
    exact ((tracked.holds tip).mpr known).getBlockByHash_eq
  next := by
    intro before parent child after place
    have lengths := congrArg List.length place
    simp at lengths
    omega
  bounded := by simp [walkGuard]

theorem validate_genesis_caches {ambient : Ambient} {caches : Caches}
    (parentless : block.previousBlockId ≤ 0)
    (valid : (validateBlockForStorage env ambient db caches block).1 = .ok ()) :
    (validateBlockForStorage env ambient db caches block).2 =
      { caches with
        validationStateByBlockHash :=
          cacheLedgerStateForBlock caches.validationStateByBlockHash block
            (applyBlockToCachedState env db (unassignedState ambient.indeterminate) block) } := by
  revert valid
  unfold validateBlockForStorage storeUnderRules
  rw [if_pos parentless]
  split
  · exact fun valid => absurd valid (by simp)
  · split
    · exact fun valid => absurd valid (by simp)
    · split
      · exact fun valid => absurd valid (by simp)
      · exact fun _ => rfl

/-- A state in the cache is the parent state of the next block. -/
theorem parentStateFor_cached {ambient : Ambient} {caches : Caches} {parent : Block}
    {state : LedgerState.State}
    (cached : caches.validationStateByBlockHash = cacheLedgerStateForBlock ∅ parent state)
    (hashed : parent.hash ≠ []) (positive : 0 < parent.number)
    (number : state.latestBlockId = parent.number) (hash : state.latestBlock.hash = parent.hash) :
    parentStateFor env ambient db caches parent = (state, caches) := by
  have found : cachedLedgerStateForBlock caches.validationStateByBlockHash parent = some state := by
    have small : ¬ 2048 < ((∅ : TextMap LedgerState.State).insert parent.hash state).size := by
      simp [Std.ExtTreeMap.size_insert]
    rw [cached, cacheLedgerStateForBlock, if_neg (by simp [hashed, positive])]
    dsimp only
    rw [if_neg small, cachedLedgerStateForBlock, Std.ExtTreeMap.getElem?_insert_self]
    dsimp only
    rw [if_neg (by simp [number, hash])]
  rw [parentStateFor, found]

/-! ### The sample genesis block in an empty store -/

namespace Sample

def started : Node :=
  startedNode Sample.env sampleAmbient genesis

theorem blocks_alone : ∀ block ∈ [genesis, emptyBlock, laterBlock, duplicateBlock, heirBlock,
    repeatBlock],
    checkAddedBlock Sample.env block = .ok () ∧ checkEnvelope Sample.env block = .ok () ∧
      storeRecords Sample.env contentRules block = .ok () := by
  simp only [List.forall_mem_cons, List.not_mem_nil, false_implies, implies_true, and_true]
  refine ⟨?_, ?_, ?_, ?_, ?_, ?_⟩ <;> decide +kernel

/-- Each of these blocks passes the checks that need no store. -/
theorem block_alone {block : Block} (place : Nat) (listed : [genesis, emptyBlock, laterBlock,
    duplicateBlock, heirBlock, repeatBlock][place]? = some block) : PassesAlone Sample.env block := by
  obtain ⟨added, envelope, content⟩ := blocks_alone block (List.mem_of_getElem? listed)
  exact ⟨added, envelope, content⟩

theorem genesis_valid :
    (validateBlockForStorage Sample.env sampleAmbient ∅ .empty genesis).1 = .ok () := by
  decide +kernel

theorem tracked_started : Tracked Sample.env started.db [genesis] 100 genesis 100 :=
  tracked_startedNode (roundTrips (List.mem_iff_getElem?.mpr ⟨0, rfl⟩)) rfl

/-- The state that storing the genesis block leaves in the cache. -/
def startedState : LedgerState.State :=
  applyBlockToCachedState Sample.env ∅ (unassignedState sampleAmbient.indeterminate) genesis

theorem started_caches : started.caches = { Caches.empty with
    validationStateByBlockHash := cacheLedgerStateForBlock ∅ genesis startedState } := by
  have stored : started.caches =
      (validateBlockForStorage Sample.env sampleAmbient ∅ .empty genesis).2 := by
    simp only [started, startedNode]
  rw [stored, validate_genesis_caches (by decide) genesis_valid]
  simp only [startedState, Caches.empty]

theorem parentState_started (ambient : Ambient) :
    parentStateFor Sample.env ambient started.db started.caches genesis =
      (startedState, started.caches) := by
  refine parentStateFor_cached (by rw [started_caches]) (by decide) (by decide) ?_ ?_
  · decide +kernel
  · decide +kernel

theorem started_matches {state : BranchState}
    (connected : connectChain Sample.env [genesis] = .ok state) :
    startedState.members.map LedgerState.MemberState.toBranchMember = state.members ∧
      startedState.chainHasHeartbeatRecords = state.chainHasHeartbeatRecords := by
  have shown : (connectChain Sample.env [genesis]).map
      (fun state => (state.members, state.chainHasHeartbeatRecords)) =
        .ok (startedState.members.map LedgerState.MemberState.toBranchMember,
          startedState.chainHasHeartbeatRecords) := by
    decide +kernel
  rw [connected] at shown
  injection shown with same
  injection same with members flag
  exact ⟨members.symm, flag.symm⟩

/-- A child without records is admitted on the stored genesis block. -/
theorem child_valid {child : Block} (empty : child.records = [])
    (accepted : Accepts Sample.env [genesis, child]) (ambient : Ambient) :
    (validateBlockForStorage Sample.env ambient started.db started.caches child).1 = .ok () := by
  have other : ∀ held ∈ [genesis], held.number ≠ child.number := by
    intro held member
    rw [List.mem_singleton.mp member]
    exact (List.rel_of_pairwise_cons (ascending_of_accepts accepted).sorted
      (List.mem_singleton_self child)).ne
  have free : SlotFree Sample.env started.db child := by
    intro taken
    rw [tracked_started.getBlock_unused other] at taken ⊢
    have positive := (ascending_of_accepts accepted).positive child (by simp)
    exact absurd taken (by simp only [Block.missing]; omega)
  obtain ⟨-, state, connected⟩ := accepts_iff.mp accepts_genesis
  obtain ⟨members, flag⟩ := started_matches connected
  have last : [genesis].getLast? = some genesis := rfl
  refine validate_empty_on_tip accepts_genesis (LedgerState.sample_builderShaped [])
    (tracked_started.storedAs_tip List.mem_cons_self) connected last free empty accepted ?_ ?_ ?_
  · rw [parentState_started, started_caches]
    exact LedgerState.cacheCoherent_empty
  · rw [parentState_started]
    exact members
  · rw [parentState_started]
    exact flag

theorem genesis_added : addBlock Sample.env sampleAmbient .empty genesis =
    (.ok (), ⟨writeBlock Sample.env ∅ genesis, started.caches⟩) :=
  startedNode_added (block_alone 0 rfl).added genesis_valid

/-- The node with a child without records on its genesis block. -/
def extended (child : Block) : Node :=
  ⟨writeBlock Sample.env started.db child,
    (validateBlockForStorage Sample.env sampleAmbient started.db started.caches child).2⟩

section Child

variable {child : Block} (accepted : Accepts Sample.env [genesis, child])
variable (other : genesis.hash ≠ child.hash)
include accepted other

theorem child_added (empty : child.records = []) (added : checkAddedBlock Sample.env child = .ok ()) :
    addBlock Sample.env sampleAmbient started child = (.ok (), extended child) := by
  refine addBlock_admitted added (tracked_started.fresh ?_) (child_valid empty accepted _)
  intro held member
  rwa [List.mem_singleton.mp member]

theorem tracked_extended (listed : child ∈ blocks) :
    Tracked Sample.env (extended child).db [child, genesis] 100 child (max 100 child.number) := by
  have above : genesis.number < child.number :=
    List.rel_of_pairwise_cons (ascending_of_accepts accepted).sorted (List.mem_singleton_self child)
  obtain ⟨ids, -, hashes⟩ := link_of_accepts accepted (show [genesis, child] =
    [] ++ genesis :: child :: [] from rfl)
  refine tracked_started.write_tip (roundTrips listed) ?_ (by omega) (tracked_started.takesSlot ?_)
    (.inl (tracked_started.extendsTip (by decide) hashes ids))
  · intro held member
    rwa [List.mem_singleton.mp member]
  · intro held member
    rw [List.mem_singleton.mp member]
    exact above.ne

end Child

theorem accepts_emptyBlock : Accepts Sample.env [genesis, emptyBlock] :=
  accepts_child 1 rfl

theorem tracked_emptyBlock :
    Tracked Sample.env (extended emptyBlock).db [emptyBlock, genesis] 100 emptyBlock 101 :=
  tracked_extended accepts_emptyBlock (by decide) (List.mem_iff_getElem?.mpr ⟨4, rfl⟩)

theorem emptyBlock_added :
    addBlock Sample.env sampleAmbient started emptyBlock = (.ok (), extended emptyBlock) :=
  child_added accepts_emptyBlock (by decide) rfl (block_alone 1 rfl).added

theorem accepts_laterBlock : Accepts Sample.env [genesis, laterBlock] :=
  accepts_child 2 rfl

theorem tracked_laterBlock :
    Tracked Sample.env (extended laterBlock).db [laterBlock, genesis] 100 laterBlock 102 :=
  tracked_extended accepts_laterBlock (by decide) (List.mem_iff_getElem?.mpr ⟨5, rfl⟩)

theorem laterBlock_added :
    addBlock Sample.env sampleAmbient started laterBlock = (.ok (), extended laterBlock) :=
  child_added accepts_laterBlock (by decide) rfl (block_alone 2 rfl).added

/-! ### A block beside a later tip -/

theorem emptyBlock_fits : FitsBeside Sample.env [laterBlock, genesis] genesis laterBlock
    emptyBlock :=
  ⟨List.mem_cons_of_mem _ List.mem_cons_self, rfl, rfl, by decide, by decide, by decide,
    by decide, block_alone 1 rfl⟩

theorem tracked_emptyBeside : Tracked Sample.env
    (besideNode Sample.env (extended laterBlock) emptyBlock).db
    [emptyBlock, laterBlock, genesis] 100 laterBlock 102 := by
  have highest : max 102 emptyBlock.number = 102 := by decide
  have placed := tracked_laterBlock.write_fitting
    (roundTrips (List.mem_iff_getElem?.mpr ⟨4, rfl⟩)) emptyBlock_fits (by decide)
  rw [highest] at placed
  simp only [besideNode]
  exact placed

end Sample

end Safire
