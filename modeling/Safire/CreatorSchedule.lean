/-
The creators that a node announces: `getUpcomingCreatorSchedule` for the next
slots, and `handoffJson` for the slot after its block.

Both pick among the members that are active at the selection boundary. The
validator picks among those that are still active at the slot, and has two
creators to fall back on where there are none.
-/

import Safire.ChainReplay
import Safire.Handoff
import Safire.LedgerDeltas
import Safire.Library.Places

namespace Safire

open ChainValidator
open LedgerState (State Cache Query build cacheAfter computeState activeMemberKeysAt)

namespace LocalPeerClient

structure CreatorScheduleSlot where
  blockId : Int
  selectionBoundaryBlock : Int
  selectionCheckpointBlock : Int
  selectionCheckpointHash : Text
  creatorKey : Text
  creatorPeerUrl : Text

/-- The local variables of the loop. The state belongs to the boundary beside it. -/
structure ScheduleProgress where
  cachedSelectionBoundary : Int
  cachedSelectionState : State
  cache : Cache
  schedule : List CreatorScheduleSlot

section Schedule

variable (env : Env) (db : LevelDb) (clock : Nat → Int) (peerUrlOf : Text → Text)

/-- One round of the loop. The clock gives the time slot in which a state is built,
and the search of the peer table is a parameter. -/
def scheduleRound (currentSlot : Int) (progress : ScheduleProgress) (i : Nat) : ScheduleProgress :=
  let slot := currentSlot + i
  let selectionBoundary := Selector.getSelectionBoundaryBlock slot (getFirstBlockId db)
  let selected :=
    if selectionBoundary ≠ progress.cachedSelectionBoundary then
      build env db progress.cache (clock i) [] selectionBoundary
    else (progress.cachedSelectionState, progress.cache)
  let activeMemberKeys := activeMemberKeysAt selected.1 selectionBoundary
  let creatorKey := Selector.getSelectedUserForBlock env slot selected.1.latestBlock.hash
    activeMemberKeys
  { cachedSelectionBoundary := selectionBoundary
    cachedSelectionState := selected.1
    cache := selected.2
    schedule := progress.schedule ++
      [{ blockId := slot
         selectionBoundaryBlock := selectionBoundary
         selectionCheckpointBlock := selected.1.latestBlock.number
         selectionCheckpointHash := selected.1.latestBlock.hash
         creatorKey := creatorKey
         creatorPeerUrl := if 0 < creatorKey.length then peerUrlOf creatorKey else [] }] }

/-- The schedule with the ledger's cache after the call. -/
def getUpcomingCreatorSchedule (cache : Cache) (currentSlot slotCount : Int) :
    List CreatorScheduleSlot × Cache :=
  if slotCount ≤ 0 then ([], cache)
  else if getFirstBlockId db ≤ 0 then ([], cache)
  else
    let progress := (List.range (min slotCount 200).toNat).foldl
      (scheduleRound env db clock peerUrlOf currentSlot)
      { cachedSelectionBoundary := -1
        cachedSelectionState := .start (-1) (-1)
        cache := cache
        schedule := [] }
    (progress.schedule, progress.cache)

end Schedule

end LocalPeerClient

namespace ChainValidator

/-- The creator that the validator compares with the one of the block. -/
def requiredCreator (env : Env) (ambient : Ambient) (db : LevelDb) (caches : Caches)
    (parent block : Block) : Text :=
  let parentState := parentStateFor env ambient db caches parent
  let selectionState := selectionStateFor env ambient db parentState.2 parentState.1 block
  (storageAuthorization env db parent parentState.1 selectionState.1 block.number).creator

end ChainValidator

/-! ### The state at a stop block -/

namespace LedgerState

variable {env : Env} {db : LevelDb} {chain : List Block} {wallet : Text}

theorem latestBlockId_finish (progress : Progress) (now : Int) :
    (finish progress wallet now).latestBlockId = progress.result.latestBlockId := by
  unfold finish finishTotals finishHeartbeat
  dsimp only
  split_ifs <;> rfl

theorem latestBlockId_computeState (now stop : Int) :
    (computeState env db now wallet stop).latestBlockId = buildLatestBlockId db stop := by
  rw [computeState_of_visited rfl]
  dsimp only
  rw [latestBlockId_finish, walkedProgress]
  have ends : Progress.start (getFirstBlockId db) (buildLatestBlockId db stop) =
      (Progress.start (getFirstBlockId db) (buildLatestBlockId db stop)).withEnds
        (getFirstBlockId db) (buildLatestBlockId db stop) := rfl
  rw [ends, walkEntries_withEnds]
  rfl

/-- The time slot decides who counts as active now, and nothing about other slots. -/
theorem activeMemberKeysAt_computeState (now later stop number : Int) :
    activeMemberKeysAt (computeState env db now [] stop) number =
      activeMemberKeysAt (computeState env db later [] stop) number := by
  rw [activeMemberKeysAt, activeMemberKeysAt, latestBlockId_computeState,
    latestBlockId_computeState, computeState_of_visited rfl, computeState_of_visited rfl]
  dsimp only
  rw [(finish_members _ [] now).1, (finish_members _ [] now).2.2, (finish_members _ [] later).1,
    (finish_members _ [] later).2.2, finishMembers, finishMembers]
  dsimp only
  rw [List.filter_map, List.filter_map, List.map_map, List.map_map]
  rfl

theorem latestBlock_computeState (now later stop : Int) :
    (computeState env db now wallet stop).latestBlock =
      (computeState env db later wallet stop).latestBlock := by
  rw [computeState_of_visited rfl, computeState_of_visited rfl]

theorem mem_of_blocksAtMost {stop : Int} {block : Block}
    (member : block ∈ blocksAtMost stop chain) : block ∈ chain := by
  rw [blocksAtMost] at member
  split at member
  · exact List.mem_of_mem_filter member
  · exact member

/-- The members of an accepted chain have keys. -/
theorem key_ne_nil_of_active (accepted : ChainValidator.Accepts env chain)
    (canonical : CanonicalChain env db chain) {now stop number : Int} {key : Text}
    (active : key ∈ activeMemberKeysAt (computeState env db now wallet stop) number) :
    key ≠ [] := by
  obtain ⟨-, state, connected⟩ := ChainValidator.accepts_iff.mp accepted
  obtain ⟨member, listed, rfl⟩ := List.mem_map.mp active
  have inside := List.mem_of_mem_filter listed
  rw [computeState_of_visited (visitedBlocks_of_canonical canonical stop)] at inside
  have keyed : member.publicKey ∈ memberKeys (walkedProgress env db wallet stop
      ((blocksAtMost stop chain).take walkGuard)) := by
    rw [← @keys_finish wallet]
    exact List.mem_map_of_mem inside
  obtain ⟨entry, walked, same⟩ := List.mem_map.mp (memberKeys_walkEntries rfl keyed)
  have held : entry ∈ ChainValidator.chainEntries chain := by
    obtain ⟨block, visited, own⟩ := List.mem_flatMap.mp walked
    have kept := mem_of_blocksAtMost (List.mem_of_mem_take visited)
    exact List.mem_flatMap.mpr ⟨block, kept, own⟩
  obtain ⟨_, _, _, own⟩ := ChainValidator.entry_connected connected held
  rw [← same]
  exact signed_of_connected own

/-- The walk to the boundary of a slot ends on a block with a hash. -/
theorem latestBlock_of_boundary (accepted : ChainValidator.Accepts env chain)
    (canonical : CanonicalChain env db chain) (now slot : Int) :
    (computeState env db now wallet
      (Selector.getSelectionBoundaryBlock slot (getFirstBlockId db))).latestBlock.hash ≠ [] := by
  obtain ⟨-, state, connected⟩ := ChainValidator.accepts_iff.mp accepted
  obtain ⟨genesis, rest, whole⟩ := List.exists_cons_of_ne_nil canonical.present
  have first := (canonical.first genesis (by rw [whole]; rfl)).1
  have positive := canonical.ascending.positive genesis (by rw [whole]; exact List.mem_cons_self)
  have covered : genesis.number ≤
      Selector.getSelectionBoundaryBlock slot (getFirstBlockId db) := by
    rw [first]
    exact ChainValidator.getSelectionBoundaryBlock_ge positive
  generalize Selector.getSelectionBoundaryBlock slot (getFirstBlockId db) = boundary at covered ⊢
  have visited : genesis ∈ (blocksAtMost boundary chain).take walkGuard := by
    rw [blocksAtMost, if_pos (lt_of_lt_of_le positive covered), whole,
      List.filter_cons_of_pos (by simpa using covered), walkGuard, List.take_succ_cons]
    exact List.mem_cons_self
  rw [computeState_of_visited (visitedBlocks_of_canonical canonical boundary)]
  obtain ⟨last, found⟩ := Option.isSome_iff_exists.mp
    (List.getLast?_isSome.mpr (List.ne_nil_of_mem visited))
  dsimp only
  rw [found, Option.getD_some]
  apply hashes_of_connected connected
  exact mem_of_blocksAtMost (List.mem_of_mem_take (List.mem_of_getLast? found))

end LedgerState

/-! ### Picks -/

/-- The entry that the digest of a slot picks from a list of keys. -/
def pickAt (env : Env) (blockNumber : Int) (selectionSeedHash : Text) (users : List Text) :
    Option Text :=
  users[Selector.selectionValue env blockNumber selectionSeedHash % users.length]?

theorem getSelectedUserForBlock_eq (env : Env) (blockNumber : Int) (selectionSeedHash : Text)
    (users : List Text) :
    Selector.getSelectedUserForBlock env blockNumber selectionSeedHash users =
      (pickAt env blockNumber selectionSeedHash users).getD [] := by
  rw [Selector.getSelectedUserForBlock, Selector.getSelectedIndexForBlock, pickAt]
  cases users with
  | nil => rfl
  | cons first rest =>
      rw [if_neg (by simp)]
      exact List.getD_eq_getElem?_getD

local instance userKey_lawfulBEq : LawfulBEq Text := inferInstance

/-- The key at the place of a digest in one list is kept in the other, and the kept keys
before it are as many as the place of the digest there. -/
def KeepsPlace (value : Nat) (users remaining : List Text) : Prop :=
  ∃ key, users[value % users.length]? = some key ∧ key ∈ remaining ∧
    ((users.take (value % users.length)).filter (fun user => user ∈ remaining)).length =
      value % remaining.length

/-- The configured recovery key, or the creator of the genesis block, while its run
below the tip is short. -/
def recoveryCreator (env : Env) (db : LevelDb) (tip : Block) : Option Text :=
  let recoveryPublicKey :=
    configuredRecoveryPublicKey env (getBlock env db (getFirstBlockId db)).creatorKey
  if recoveryPublicKey ≠ [] ∧ consecutiveRecoveryBlocksInStore env db tip recoveryPublicKey <
      Selector.getRecoveryWindowBlocks then some recoveryPublicKey
  else none

section Slot

variable (env : Env) (db : LevelDb) (tip : Block) (slot : Int)

def selectionState : State :=
  computeState env db 0 [] (Selector.getSelectionBoundaryBlock slot (getFirstBlockId db))

/-- The members at the selection boundary that are active at a slot. -/
def checkpointUsersAt (number : Int) : List Text :=
  activeMemberKeysAt (selectionState env db slot) number

/-- The members at the tip that are active at the slot. -/
def latestUsersAt : List Text :=
  activeMemberKeysAt (computeState env db 0 [] tip.number) slot

/-- The member at the place of the digest among those active at `number` is still active
at the slot, and has the place of the digest there too. Where nobody is active at the
slot, that member is the one whom the tip or the recovery gives the slot to. -/
def SamePick (number : Int) : Prop :=
  let seed := (selectionState env db slot).latestBlock.hash
  let users := checkpointUsersAt env db slot number
  if checkpointUsersAt env db slot slot ≠ [] then
    KeepsPlace (Selector.selectionValue env slot seed) users (checkpointUsersAt env db slot slot)
  else if latestUsersAt env db tip slot ≠ [] then
    pickAt env slot seed users = pickAt env slot tip.hash (latestUsersAt env db tip slot)
  else pickAt env slot seed users = recoveryCreator env db tip

end Slot

variable {env : Env} {db : LevelDb} {chain : List Block} {tip block : Block}

theorem keepsPlace_self {value : Nat} {users : List Text} (present : users ≠ []) :
    KeepsPlace value users users := by
  have inside : value % users.length < users.length :=
    Nat.mod_lt _ (List.length_pos_iff.mpr present)
  refine ⟨_, List.getElem?_eq_getElem inside, List.getElem_mem inside, ?_⟩
  rw [List.filter_eq_self.mpr fun user member => decide_eq_true (List.mem_of_mem_take member),
    List.length_take, min_eq_left inside.le]

/-- Nobody whose heartbeat ends on the way, and somebody active: the picks agree. -/
theorem samePick_of_same {slot number : Int}
    (same : checkpointUsersAt env db slot number = checkpointUsersAt env db slot slot)
    (active : checkpointUsersAt env db slot slot ≠ []) : SamePick env db tip slot number := by
  rw [SamePick, if_pos active, same]
  exact keepsPlace_self active

theorem distinct_selectionState (slot : Int) :
    ((selectionState env db slot).members.map (fun member => member.publicKey)).Nodup := by
  rw [selectionState, LedgerState.computeState_of_visited rfl]
  dsimp only
  rw [LedgerState.keys_finish]
  obtain ⟨tables, silent⟩ := LedgerState.start_invariants (getFirstBlockId db)
    (LedgerState.buildLatestBlockId db _)
  exact (LedgerState.replay_invariants _ tables silent _).1.distinct

/-- Whoever is active at the slot was active before, so the pick at the boundary is the
one of the slot exactly where it keeps its place. -/
theorem pickAt_eq_iff {slot number : Int} {seed : Text} (positive : 0 < number)
    (before : number ≤ slot) (active : checkpointUsersAt env db slot slot ≠ []) :
    pickAt env slot seed (checkpointUsersAt env db slot number) =
        pickAt env slot seed (checkpointUsersAt env db slot slot) ↔
      KeepsPlace (Selector.selectionValue env slot seed) (checkpointUsersAt env db slot number)
        (checkpointUsersAt env db slot slot) := by
  have distinct := @distinct_selectionState env db slot
  have remaining : checkpointUsersAt env db slot slot =
      (checkpointUsersAt env db slot number).filter
        (fun user => user ∈ checkpointUsersAt env db slot slot) := by
    rw [checkpointUsersAt, checkpointUsersAt, activeMemberKeysAt, activeMemberKeysAt,
      if_neg (not_le.mpr positive), if_neg (not_le.mpr (lt_of_lt_of_le positive before))]
    apply Places.map_filter_stricter distinct
    intro member beats
    rw [decide_eq_true_iff] at beats ⊢
    apply beats.imp_right
    intro recent
    omega
  have known : checkpointUsersAt env db slot number ≠ [] := by
    intro none
    rw [none, List.filter_nil] at remaining
    exact active remaining
  have inside := Nat.mod_lt (Selector.selectionValue env slot seed) (List.length_pos_iff.mpr known)
  have keys : (checkpointUsersAt env db slot number).Nodup := by
    apply List.Nodup.sublist _ distinct
    exact List.filter_sublist.map _
  have places := @Places.getElem?_eq_filter_iff Text (checkpointUsersAt env db slot number)
    (fun user => user ∈ checkpointUsersAt env db slot slot) _
    (Selector.selectionValue env slot seed % (checkpointUsersAt env db slot slot).length) _
    keys (List.getElem?_eq_getElem inside)
  rw [← remaining, decide_eq_true_iff] at places
  rw [pickAt, pickAt, places, KeepsPlace]
  constructor
  · intro kept
    exact ⟨_, List.getElem?_eq_getElem inside, kept⟩
  · intro kept
    obtain ⟨key, found, kept⟩ := kept
    rw [List.getElem?_eq_getElem inside] at found
    rw [Option.some.inj found]
    exact kept

theorem build_of_coherent (canonical : CanonicalChain env db chain) {cache : Cache}
    (coherent : LedgerState.CacheCoherent env db cache) (now stop : Int) :
    (build env db cache now [] stop).1 = computeState env db now [] stop := by
  obtain ⟨first, latest⟩ := canonical.ends_positive
  apply LedgerState.build_eq_computeState coherent first.le
  rw [LedgerState.buildLatestBlockId]
  split <;> omega

section Canonical

variable (accepted : Accepts env chain) (canonical : CanonicalChain env db chain)
include accepted canonical

theorem pickAt_ne_nil {now stop number slot : Int} {seed : Text} :
    pickAt env slot seed (activeMemberKeysAt (computeState env db now [] stop) number) ≠
      some [] := by
  intro empty
  have member := List.mem_of_getElem? empty
  exact LedgerState.key_ne_nil_of_active accepted canonical member rfl

/-- The creator that the validator asks for, read off the two states. -/
theorem requiredCreator_eq (last : chain.getLast? = some tip) (ambient : Ambient)
    (queries : List Query) :
    requiredCreator env ambient db ⟨∅, cacheAfter env db queries⟩ tip block =
      (if checkpointUsersAt env db block.number block.number ≠ [] then
        pickAt env block.number (selectionState env db block.number).latestBlock.hash
          (checkpointUsersAt env db block.number block.number)
      else if latestUsersAt env db tip block.number ≠ [] then
        pickAt env block.number tip.hash (latestUsersAt env db tip block.number)
      else recoveryCreator env db tip).getD [] := by
  have coherent := @LedgerState.cacheAfter_coherent env db queries
  have parent : parentStateFor env ambient db ⟨∅, cacheAfter env db queries⟩ tip =
      (computeState env db ambient.parentTimeBlock [] tip.number,
        ⟨cacheLedgerStateForBlock ∅ tip (computeState env db ambient.parentTimeBlock [] tip.number),
          (build env db (cacheAfter env db queries) ambient.parentTimeBlock [] tip.number).2⟩) := by
    rw [parentStateFor, cachedLedgerStateForBlock, Std.ExtTreeMap.getElem?_empty]
    dsimp only
    rw [build_of_coherent canonical coherent]
  have after := LedgerState.build_coherent coherent ambient.parentTimeBlock [] tip.number
  have selected : (selectionStateFor env ambient db
      (parentStateFor env ambient db ⟨∅, cacheAfter env db queries⟩ tip).2
      (parentStateFor env ambient db ⟨∅, cacheAfter env db queries⟩ tip).1 block).1 =
        computeState env db ambient.selectionTimeBlock []
          (Selector.getSelectionBoundaryBlock block.number (getFirstBlockId db)) := by
    have seeded := @LedgerState.latestBlock_of_boundary env db chain [] accepted canonical
      ambient.selectionTimeBlock block.number
    rw [parent, selectionStateFor]
    dsimp only
    rw [build_of_coherent canonical after, if_neg (by simpa using seeded)]
  obtain ⟨-, state, connected⟩ := accepts_iff.mp accepted
  have hashed := hashes_of_connected connected tip (List.mem_of_getLast? last)
  have seeded := @LedgerState.latestBlock_of_boundary env db chain [] accepted canonical 0
    block.number
  rw [requiredCreator, selected, parent, storageAuthorization]
  dsimp only
  rw [LedgerState.activeMemberKeysAt_computeState ambient.selectionTimeBlock 0,
    LedgerState.activeMemberKeysAt_computeState ambient.parentTimeBlock 0,
    LedgerState.latestBlock_computeState ambient.selectionTimeBlock 0]
  change (Selector.getAuthorizedCreatorForBlock env block.number
    (selectionState env db block.number).latestBlock.hash
    (checkpointUsersAt env db block.number block.number) tip.hash
    (latestUsersAt env db tip block.number) _ _).creator = _
  rw [Selector.getAuthorizedCreatorForBlock]
  by_cases checkpoint : checkpointUsersAt env db block.number block.number = []
  · rw [if_neg (by simp [checkpoint]), if_neg (not_not_intro checkpoint)]
    by_cases latest : latestUsersAt env db tip block.number = []
    · rw [if_neg (by simp [latest]), if_neg (not_not_intro latest), recoveryCreator]
      by_cases recovers : configuredRecoveryPublicKey env
          (getBlock env db (getFirstBlockId db)).creatorKey ≠ [] ∧
            consecutiveRecoveryBlocksInStore env db tip (configuredRecoveryPublicKey env
              (getBlock env db (getFirstBlockId db)).creatorKey) < Selector.getRecoveryWindowBlocks
      · rw [if_pos ⟨List.length_pos_iff.mpr recovers.1, recovers.2⟩, if_pos recovers]
        rfl
      · rw [if_neg fun open' => recovers ⟨List.length_pos_iff.mp open'.1, open'.2⟩, if_neg recovers]
        rfl
    · rw [if_pos ⟨List.length_pos_iff.mpr latest, List.length_pos_iff.mpr hashed⟩, if_pos latest,
        getSelectedUserForBlock_eq]
  · rw [if_pos ⟨List.length_pos_iff.mpr checkpoint, List.length_pos_iff.mpr seeded⟩,
      if_pos checkpoint, getSelectedUserForBlock_eq]

end Canonical

/-! ### The announced creators -/

/-- The creator that is announced for a slot, by the members active at `number`. -/
def announcedKey (env : Env) (db : LevelDb) (slot number : Int) : Text :=
  (pickAt env slot (selectionState env db slot).latestBlock.hash
    (checkpointUsersAt env db slot number)).getD []

theorem announcedKey_of_computeState (now slot number : Int) :
    Selector.getSelectedUserForBlock env slot
        (computeState env db now []
          (Selector.getSelectionBoundaryBlock slot (getFirstBlockId db))).latestBlock.hash
        (activeMemberKeysAt (computeState env db now []
          (Selector.getSelectionBoundaryBlock slot (getFirstBlockId db))) number) =
      announcedKey env db slot number := by
  rw [LedgerState.latestBlock_computeState now 0,
    LedgerState.activeMemberKeysAt_computeState now 0, getSelectedUserForBlock_eq]
  rfl

namespace LocalPeerClient

/-- Holds at the head of every round: the state is the one of the boundary beside
it, and the slots listed so far have their announced creators. -/
structure ScheduleKept (env : Env) (db : LevelDb) (progress : ScheduleProgress) : Prop where
  coherent : LedgerState.CacheCoherent env db progress.cache
  cached : progress.cachedSelectionBoundary = -1 ∨
    ∃ now, progress.cachedSelectionState =
      computeState env db now [] progress.cachedSelectionBoundary
  listed : ∀ item ∈ progress.schedule,
    item.selectionBoundaryBlock =
        Selector.getSelectionBoundaryBlock item.blockId (getFirstBlockId db) ∧
      item.creatorKey = announcedKey env db item.blockId item.selectionBoundaryBlock

variable {clock : Nat → Int} {peerUrlOf : Text → Text}

theorem scheduleRound_kept (canonical : CanonicalChain env db chain) {progress : ScheduleProgress}
    (kept : ScheduleKept env db progress) (currentSlot : Int) (i : Nat) :
    ScheduleKept env db (scheduleRound env db clock peerUrlOf currentSlot progress i) := by
  -- the boundary of a slot is never the `-1` that the loop starts with
  have bounded := @ChainValidator.getSelectionBoundaryBlock_ge (currentSlot + i) _
    canonical.ends_positive.1
  have positive := canonical.ends_positive.1
  have selected : ∃ now,
      (scheduleRound env db clock peerUrlOf currentSlot progress i).cachedSelectionState =
          computeState env db now []
            (Selector.getSelectionBoundaryBlock (currentSlot + i) (getFirstBlockId db)) ∧
        LedgerState.CacheCoherent env db
          (scheduleRound env db clock peerUrlOf currentSlot progress i).cache := by
    rw [scheduleRound]
    dsimp only
    by_cases moved : Selector.getSelectionBoundaryBlock (currentSlot + i) (getFirstBlockId db) ≠
        progress.cachedSelectionBoundary
    · rw [if_pos moved]
      exact ⟨clock i, build_of_coherent canonical kept.coherent _ _,
        LedgerState.build_coherent kept.coherent _ _ _⟩
    · rw [if_neg moved]
      have stays := not_not.mp moved
      cases kept.cached with
      | inl unset => omega
      | inr known =>
          obtain ⟨now, state⟩ := known
          exact ⟨now, stays ▸ state, kept.coherent⟩
  obtain ⟨now, state, coherent⟩ := selected
  constructor
  · exact coherent
  · right
    exact ⟨now, state⟩
  · intro item member
    cases List.mem_append.mp member with
    | inl earlier => exact kept.listed item earlier
    | inr own =>
        cases List.mem_singleton.mp own
        constructor
        · rfl
        · change (scheduleRound env db clock peerUrlOf currentSlot progress
            i).cachedSelectionState = _ at state
          rw [← announcedKey_of_computeState now, ← state]
          rfl

theorem scheduleRounds_kept (canonical : CanonicalChain env db chain) (currentSlot : Int)
    (rounds : List Nat) :
    ∀ progress, ScheduleKept env db progress →
      ScheduleKept env db (rounds.foldl (scheduleRound env db clock peerUrlOf currentSlot)
        progress) := by
  induction rounds with
  | nil =>
      intro progress kept
      exact kept
  | cons i rest ih =>
      intro progress kept
      exact ih _ (scheduleRound_kept canonical kept currentSlot i)

theorem getUpcomingCreatorSchedule_listed (canonical : CanonicalChain env db chain)
    {cache : Cache} (coherent : LedgerState.CacheCoherent env db cache)
    {currentSlot slotCount : Int} {item : CreatorScheduleSlot}
    (listed : item ∈
      (getUpcomingCreatorSchedule env db clock peerUrlOf cache currentSlot slotCount).1) :
    item.selectionBoundaryBlock =
        Selector.getSelectionBoundaryBlock item.blockId (getFirstBlockId db) ∧
      item.creatorKey = announcedKey env db item.blockId item.selectionBoundaryBlock := by
  rw [getUpcomingCreatorSchedule] at listed
  split_ifs at listed
  · cases listed
  · cases listed
  · apply (scheduleRounds_kept canonical currentSlot _ _ _).listed item listed
    exact ⟨coherent, Or.inl rfl, by simp⟩

theorem nextCreator_eq (canonical : CanonicalChain env db chain) {cache : Cache}
    (coherent : LedgerState.CacheCoherent env db cache) (now : Int) :
    (handoffFields env ((handoffCall db now tip).build env cache).1 tip).nextCreator =
      announcedKey env db (tip.number + 1) (LedgerState.buildLatestBlockId db
        (Selector.getSelectionBoundaryBlock (tip.number + 1) (getFirstBlockId db))) := by
  have state : ((handoffCall db now tip).build env cache).1 =
      computeState env db now []
        (Selector.getSelectionBoundaryBlock (tip.number + 1) (getFirstBlockId db)) :=
    build_of_coherent canonical coherent _ _
  rw [handoffFields, state]
  dsimp only
  rw [LedgerState.latestBlockId_computeState]
  exact announcedKey_of_computeState now _ _

end LocalPeerClient

theorem recoveryCreator_ne_nil : recoveryCreator env db tip ≠ some [] := by
  rw [recoveryCreator]
  split_ifs with recovers
  · intro empty
    exact recovers.1 (Option.some.inj empty)
  · intro missing
    cases missing

theorem getD_nil_inj {left right : Option Text} (leftKeyed : left ≠ some [])
    (rightKeyed : right ≠ some []) : left.getD [] = right.getD [] ↔ left = right := by
  cases left with
  | none =>
      cases right with
      | none => simp
      | some key =>
          have keyed : key ≠ [] := fun empty => rightKeyed (congrArg some empty)
          simp [keyed.symm]
  | some key =>
      have keyed : key ≠ [] := fun empty => leftKeyed (congrArg some empty)
      cases right with
      | none => simp [keyed]
      | some other => simp

/-- The key that a node announces is the one that the validator asks for exactly
where the two picks agree. -/
theorem announcedKey_eq_iff (accepted : Accepts env chain)
    (canonical : CanonicalChain env db chain) (last : chain.getLast? = some tip)
    (ambient : Ambient) (queries : List Query) {number : Int} (positive : 0 < number)
    (before : number ≤ block.number) :
    announcedKey env db block.number number =
        requiredCreator env ambient db ⟨∅, cacheAfter env db queries⟩ tip block ↔
      SamePick env db tip block.number number := by
  rw [requiredCreator_eq accepted canonical last, announcedKey, SamePick]
  have announced : pickAt env block.number (selectionState env db block.number).latestBlock.hash
      (checkpointUsersAt env db block.number number) ≠ some [] :=
    pickAt_ne_nil accepted canonical
  split_ifs with checkpoint latest
  · have required : pickAt env block.number (selectionState env db block.number).latestBlock.hash
        (checkpointUsersAt env db block.number block.number) ≠ some [] :=
      pickAt_ne_nil accepted canonical
    rw [getD_nil_inj announced required]
    exact pickAt_eq_iff positive before checkpoint
  · exact getD_nil_inj announced (pickAt_ne_nil accepted canonical)
  · exact getD_nil_inj announced recoveryCreator_ne_nil

/-- Above the tip the boundary of a slot is not behind the slot. -/
theorem selectionBoundary_bounds (canonical : CanonicalChain env db chain)
    (last : chain.getLast? = some tip) {slot : Int} (later : tip.number < slot) :
    0 < Selector.getSelectionBoundaryBlock slot (getFirstBlockId db) ∧
      Selector.getSelectionBoundaryBlock slot (getFirstBlockId db) ≤ slot := by
  obtain ⟨genesis, rest, whole⟩ := List.exists_cons_of_ne_nil canonical.present
  have first := (canonical.first genesis (by rw [whole]; rfl)).1
  have reached : genesis.number ≤ tip.number :=
    canonical.ascending.le_last last (by rw [whole]; exact List.mem_cons_self)
  have positive := canonical.ends_positive.1
  constructor
  · exact lt_of_lt_of_le positive (getSelectionBoundaryBlock_ge positive)
  · rw [first] at positive ⊢
    rw [Selector.getSelectionBoundaryBlock, if_neg (not_le.mpr positive),
      Selector.getEpochForBlock,
      if_neg (not_or.mpr ⟨not_le.mpr positive, not_le.mpr (lt_of_le_of_lt reached later)⟩)]
    have order := lt_of_le_of_lt reached later
    dsimp only
    split
    · exact order.le
    · dsimp only [Selector.getSelectionLagEpochs, Selector.getEpochSizeBlocks]
      omega

/-- On the tip of an accepted chain, the creator that the schedule lists for a slot,
and the one that the handoff announces for the next slot, are the creator that the
validator asks for exactly where the picks agree. -/
theorem announced_creators_required_iff (accepted : Accepts env chain)
    (canonical : CanonicalChain env db chain) (last : chain.getLast? = some tip)
    (later : tip.number < block.number) (ambient : Ambient) (queries : List Query)
    (clock : Nat → Int) (peerUrlOf : Text → Text) (earlier : List Query)
    (currentSlot slotCount now : Int) :
    (∀ item ∈ (LocalPeerClient.getUpcomingCreatorSchedule env db clock peerUrlOf
        (cacheAfter env db earlier) currentSlot slotCount).1, item.blockId = block.number →
      (item.creatorKey =
          requiredCreator env ambient db ⟨∅, cacheAfter env db queries⟩ tip block ↔
        SamePick env db tip block.number
          (Selector.getSelectionBoundaryBlock block.number (getFirstBlockId db)))) ∧
    (block.number = tip.number + 1 →
      ((LocalPeerClient.handoffFields env ((LocalPeerClient.handoffCall db now tip).build env
            (cacheAfter env db earlier)).1 tip).nextCreator =
          requiredCreator env ambient db ⟨∅, cacheAfter env db queries⟩ tip block ↔
        SamePick env db tip block.number (LedgerState.buildLatestBlockId db
          (Selector.getSelectionBoundaryBlock block.number (getFirstBlockId db))))) := by
  have coherent := @LedgerState.cacheAfter_coherent env db earlier
  have bounds := selectionBoundary_bounds canonical last later
  constructor
  · intro item listed slot
    obtain ⟨boundary, key⟩ :=
      LocalPeerClient.getUpcomingCreatorSchedule_listed canonical coherent listed
    rw [key, boundary, slot]
    exact announcedKey_eq_iff accepted canonical last ambient queries bounds.1 bounds.2
  · intro next
    rw [LocalPeerClient.nextCreator_eq canonical coherent, ← next]
    apply announcedKey_eq_iff accepted canonical last ambient queries
    · rw [LedgerState.buildLatestBlockId]
      split
      · exact bounds.1
      · exact canonical.ends_positive.2
    · rw [LedgerState.buildLatestBlockId, canonical.latest tip last]
      split
      · exact bounds.2
      · exact later.le

/-! ### A slot where the heartbeats have ended -/

namespace Sample

@[irreducible]
def joinedStore : LevelDb :=
  canonicalStore Sample.env genesis [joinedBlock]

def emptySlot (number : Int) : Block :=
  { laterBlock with number := number }

theorem canonical_joinedStore :
    CanonicalChain Sample.env joinedStore [genesis, joinedBlock] := by
  have stored : StoredAs Sample.env joinedStore [genesis, joinedBlock] := by
    unfold joinedStore
    exact Sample.storedAs (List.mem_iff_getElem?.mpr ⟨7, rfl⟩) LedgerState.accepts_joinedBlock
      (by decide)
  exact stored.canonical (ascending_of_accepts LedgerState.accepts_joinedBlock)
    (List.cons_ne_nil _ _)

/-- The active members of a connected part of the chain, at a stop block that covers it. -/
theorem activeMemberKeysAt_joinedStore (visited rest : List Block) (stop number : Int)
    (users : List Text) (place : [genesis, joinedBlock] = visited ++ rest)
    (walked : (LedgerState.blocksAtMost stop [genesis, joinedBlock]).take walkGuard = visited)
    (positive : 0 < number)
    (active : (connectChain Sample.env visited).map (fun state =>
      activeMemberKeysForBlock state.members state.chainHasHeartbeatRecords number) = .ok users) :
    activeMemberKeysAt (computeState Sample.env joinedStore 0 [] stop) number = users ∧
      (computeState Sample.env joinedStore 0 [] stop).latestBlock =
        visited.getLast?.getD .missing := by
  cases connected : connectChain Sample.env visited with
  | error reason =>
      rw [connected] at active
      cases active
  | ok state =>
      rw [connected] at active
      have visits : LedgerState.visitedBlocks Sample.env joinedStore stop = visited := by
        rw [LedgerState.visitedBlocks_of_canonical canonical_joinedStore, walked]
      obtain ⟨members, flag, latest⟩ := computeState_members
        (LedgerState.sample_builderShaped [joinedBlock]) place connected visits 0
      constructor
      · rw [activeMemberKeysAt_eq members flag positive]
        exact Except.ok.inj active
      · exact latest

theorem getFirstBlockId_joinedStore : getFirstBlockId joinedStore = 100 :=
  (canonical_joinedStore.first genesis rfl).1

theorem checkpointUsersAt_joinedStore {number : Int} (positive : 0 < number)
    (active : (connectChain Sample.env [genesis]).map (fun state =>
      activeMemberKeysForBlock state.members state.chainHasHeartbeatRecords number) =
        .ok [sender]) :
    checkpointUsersAt Sample.env joinedStore 102 number = [sender] := by
  have boundary : Selector.getSelectionBoundaryBlock 102 (getFirstBlockId joinedStore) = 100 := by
    rw [getFirstBlockId_joinedStore]
    decide
  rw [checkpointUsersAt, selectionState, boundary]
  exact (activeMemberKeysAt_joinedStore [genesis] [joinedBlock] 100 number [sender] rfl rfl positive
    active).1

/-- Two slots after the genesis block its creator is the only member. -/
theorem announced_creators_of_next_slot :
    (∀ item ∈ (LocalPeerClient.getUpcomingCreatorSchedule Sample.env joinedStore (fun _ => 102)
        (fun _ => []) ∅ 102 1).1, item.blockId = 102 →
      item.creatorKey = requiredCreator Sample.env sampleAmbient joinedStore ⟨∅, ∅⟩ joinedBlock
        (emptySlot 102)) ∧
    (LocalPeerClient.handoffFields Sample.env
        ((LocalPeerClient.handoffCall joinedStore 102 joinedBlock).build Sample.env ∅).1
          joinedBlock).nextCreator =
      requiredCreator Sample.env sampleAmbient joinedStore ⟨∅, ∅⟩ joinedBlock (emptySlot 102) := by
  obtain ⟨scheduled, handed⟩ := @announced_creators_required_iff Sample.env joinedStore
    [genesis, joinedBlock] joinedBlock (emptySlot 102) LedgerState.accepts_joinedBlock
    canonical_joinedStore rfl (by decide) sampleAmbient [] (fun _ => 102) (fun _ => []) [] 102 1 102
  have boundary : Selector.getSelectionBoundaryBlock 102 (getFirstBlockId joinedStore) = 100 := by
    rw [getFirstBlockId_joinedStore]
    decide
  have latest : LedgerState.buildLatestBlockId joinedStore 100 = 100 := by
    rw [LedgerState.buildLatestBlockId, canonical_joinedStore.latest joinedBlock rfl]
    exact if_pos ⟨by decide, Or.inr (by decide)⟩
  have atBoundary := checkpointUsersAt_joinedStore (by decide : (0 : Int) < 100) (by decide +kernel)
  have atSlot := checkpointUsersAt_joinedStore (by decide : (0 : Int) < 102) (by decide +kernel)
  have same : SamePick Sample.env joinedStore joinedBlock 102 100 := by
    apply samePick_of_same
    · rw [atBoundary, atSlot]
    · rw [atSlot]
      exact List.cons_ne_nil _ _
  have slot : (emptySlot 102).number = 102 := rfl
  rw [slot, boundary] at scheduled handed
  rw [latest] at handed
  constructor
  · intro item listed slot
    exact (scheduled item listed slot).mpr same
  · exact (handed rfl).mpr same

theorem selectionBoundary_joinedStore :
    Selector.getSelectionBoundaryBlock 5862 (getFirstBlockId joinedStore) = 5699 := by
  rw [getFirstBlockId_joinedStore]
  decide

/-- At the boundary the digest picks the second member. At the slot nobody is active,
and the recovery key is the one of the first. -/
theorem not_samePick_joinedStore : ¬ SamePick Sample.env joinedStore joinedBlock 5862 5699 := by
  have ended := activeMemberKeysAt_joinedStore [genesis, joinedBlock] [] 5699 5862 []
    rfl rfl (by decide) (by decide +kernel)
  have active := activeMemberKeysAt_joinedStore [genesis, joinedBlock] [] 5699 5699
    [sender, recipient] rfl rfl (by decide) (by decide +kernel)
  have latest := activeMemberKeysAt_joinedStore [genesis, joinedBlock] [] 101 5862 []
    rfl rfl (by decide) (by decide +kernel)
  have tip : joinedBlock.number = 101 := rfl
  have picked : pickAt Sample.env 5862 joinedBlockHash [sender, recipient] = some recipient := by
    decide +kernel
  have creator : (getBlock Sample.env joinedStore (getFirstBlockId joinedStore)).creatorKey =
      sender := by
    rw [getFirstBlockId_joinedStore]
    exact congrArg Block.creatorKey (canonical_joinedStore.first genesis rfl).2
  have configured : configuredRecoveryPublicKey Sample.env sender = sender := rfl
  rw [SamePick, checkpointUsersAt, checkpointUsersAt, latestUsersAt, selectionState,
    selectionBoundary_joinedStore, ended.1, active.1, active.2, tip, latest.1,
    if_neg (not_not_intro rfl), if_neg (not_not_intro rfl)]
  intro same
  have recovers : recoveryCreator Sample.env joinedStore joinedBlock = some recipient :=
    same.symm.trans picked
  rw [recoveryCreator, creator, configured] at recovers
  split at recovers
  · exact absurd recovers (by decide +kernel)
  · cases recovers

/-- The heartbeat of the second block holds at the boundary of a late slot, and no
longer at the slot: the schedule lists the second member, and only the creator of
the genesis block may recover the chain. -/
theorem announced_creator_refused :
    Accepts Sample.env [genesis, joinedBlock] ∧
      CanonicalChain Sample.env joinedStore [genesis, joinedBlock] ∧
      joinedBlock.number < (emptySlot 5862).number ∧
      ∃ item ∈ (LocalPeerClient.getUpcomingCreatorSchedule Sample.env joinedStore
          (fun _ => 5862) (fun _ => []) ∅ 5862 1).1,
        item.blockId = (emptySlot 5862).number ∧
          item.creatorKey ≠ requiredCreator Sample.env sampleAmbient joinedStore ⟨∅, ∅⟩ joinedBlock
            (emptySlot 5862) := by
  refine ⟨LedgerState.accepts_joinedBlock, canonical_joinedStore, by decide, ?_⟩
  have scheduled : ∃ item, item ∈ (LocalPeerClient.getUpcomingCreatorSchedule Sample.env joinedStore
      (fun _ => 5862) (fun _ => []) ∅ 5862 1).1 ∧ item.blockId = 5862 := by
    rw [LocalPeerClient.getUpcomingCreatorSchedule, if_neg (by decide),
      if_neg (by rw [getFirstBlockId_joinedStore]; decide)]
    exact ⟨_, List.mem_singleton_self _, rfl⟩
  obtain ⟨item, listed, slot⟩ := scheduled
  refine ⟨item, listed, slot, ?_⟩
  intro same
  have coherent := @LedgerState.cacheAfter_coherent Sample.env joinedStore []
  obtain ⟨bound, key⟩ :=
    LocalPeerClient.getUpcomingCreatorSchedule_listed canonical_joinedStore coherent listed
  rw [key, bound, slot, selectionBoundary_joinedStore] at same
  apply not_samePick_joinedStore
  exact (@announcedKey_eq_iff Sample.env joinedStore [genesis, joinedBlock] joinedBlock
    (emptySlot 5862) LedgerState.accepts_joinedBlock canonical_joinedStore rfl sampleAmbient []
    5699 (by decide) (by decide)).mp same

end Sample

end Safire
