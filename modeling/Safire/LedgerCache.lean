/-
The cache of `CLedgerState::build` over the life of a node.

The key of an entry names the wallet, the ends of the chain, the stop block, the time
slot and the hash in the slot of the last block. It does not name the blocks of the
walk, so two calls share a key when their walks differ below an empty slot, or do not
follow the block in the slot.
-/

import Safire.AdoptedWalk
import Safire.ChainReplay
import Safire.StoreGrowth

namespace Safire.LedgerState

open Text ChainValidator

variable {env : Env} {db left right : LevelDb}

/-! ### What a state depends on -/

theorem near_of_mem_walk {tooFar isLast : Int → Bool} {target : Block} (guard : Nat) :
    ∀ start : Block, target ∈ walk env db tooFar isLast guard start →
      0 < target.number ∧ tooFar target.number = false := by
  induction guard with
  | zero =>
      intro start member
      cases member
  | succ guard ih =>
      intro start member
      rw [walk] at member
      dsimp only at member
      split at member
      · cases member
      · rename_i near
        have first : 0 < start.number ∧ tooFar start.number = false := by
          simpa only [not_or, not_le, Bool.not_eq_true] using near
        split at member
        · rwa [List.mem_singleton.mp member]
        · split at member
          · rwa [List.mem_singleton.mp member]
          · cases List.mem_cons.mp member with
            | inl own => rwa [own]
            | inr later => exact ih _ later

/-- Up to a block of one walk, a walk that stops at a lower number visits the same blocks. -/
theorem walk_eq_takeWhile_of_mem {tooFar isLast lower : Int → Bool} {limit : Int} {target : Block}
    (above : limit < target.number) (guard : Nat) :
    ∀ start : Block, target ∈ walk env db tooFar isLast guard start →
      (∀ block ∈ walk env db tooFar isLast guard start,
        lower block.number = true → isLast block.number = true) →
      walk env db (fun number => decide (limit < number)) lower guard start =
        (walk env db tooFar isLast guard start).takeWhile
          (fun block => !decide (limit < block.number)) := by
  induction guard with
  | zero =>
      intro start member
      cases member
  | succ guard ih =>
      intro start member ends
      by_cases far : limit < start.number
      · have nothing : walk env db (fun number => decide (limit < number)) lower (guard + 1) start =
            [] := by
          rw [walk, if_pos (.inr (by simpa using far))]
        cases visited : walk env db tooFar isLast (guard + 1) start with
        | nil => exact nothing
        | cons block rest =>
            rw [nothing, ← (walk_eq_cons visited).1, List.takeWhile_cons_of_neg (by simpa using far)]
      · have other : target ∉ [start] := by
          intro own
          rw [List.mem_singleton.mp own] at above
          exact far above
        rw [walk.eq_2 env db tooFar isLast] at member ends ⊢
        dsimp only at member ends ⊢
        split at member
        · cases member
        · rename_i near
          split at member
          · exact absurd member other
          · rename_i inner
            split at member
            · exact absurd member other
            · rename_i followed
              rw [if_neg near, if_neg inner, if_neg followed] at ends
              have continues : ¬ lower start.number = true :=
                fun low => inner (ends start List.mem_cons_self low)
              have below : ¬ (start.number ≤ 0 ∨ decide (limit < start.number) = true) := by
                rw [not_or] at near ⊢
                exact ⟨near.1, by simpa using far⟩
              have later : target ∈ walk env db tooFar isLast guard (getNextBlock env db start) :=
                (List.mem_cons.mp member).resolve_left fun own => other (List.mem_singleton.mpr own)
              rw [if_neg near, if_neg inner, if_neg followed, walk, if_neg below, if_neg continues]
              dsimp only
              rw [if_neg followed, List.takeWhile_cons_of_pos (by simpa using far),
                ih _ later fun block rest => ends block (List.mem_cons_of_mem _ rest)]

/-- What a state shows of its database: the ends, the blocks of the walk, and whether
the latest number is set. -/
structure SameView (env : Env) (left right : LevelDb) (stop : Int) : Prop where
  first : getFirstBlockId left = getFirstBlockId right
  latest : buildLatestBlockId left stop = buildLatestBlockId right stop
  visited : visitedBlocks env left stop = visitedBlocks env right stop
  unset : getLatestBlockId left < 0 ↔ getLatestBlockId right < 0

/-- Balances below a visited block are those of the visited blocks. -/
theorem balancesThroughBlock_of_visited {stop checkpoint : Int} {block : Block}
    (member : block ∈ visitedBlocks env db stop) (below : checkpoint < block.number) :
    balancesThroughBlock env db checkpoint =
      if getFirstBlockId db < 0 ∨ getLatestBlockId db < 0 ∨ checkpoint < getFirstBlockId db then ∅
      else
        (((visitedBlocks env db stop).takeWhile
          (fun block => !decide (checkpoint < block.number))).foldl
            (fun progress block => block.records.foldl (balanceRound block) progress) (∅, ∅)).1 := by
  have ends : ∀ visited ∈ visitedBlocks env db stop,
      decide (visited.number = getLatestBlockId db) = true →
        decide (visited.number = buildLatestBlockId db stop) = true := by
    intro visited walked latest
    obtain ⟨positive, within⟩ := near_of_mem_walk walkGuard _ walked
    rw [decide_eq_false_iff_not] at within
    rw [decide_eq_true_eq] at latest ⊢
    rw [buildLatestBlockId, if_neg (by omega), latest]
  have lowered : walk env db (fun number => decide (checkpoint < number))
      (fun number => decide (number = getLatestBlockId db)) walkGuard
      (getBlock env db (getFirstBlockId db)) =
        (visitedBlocks env db stop).takeWhile (fun block => !decide (checkpoint < block.number)) :=
    walk_eq_takeWhile_of_mem below walkGuard _ member ends
  unfold balancesThroughBlock
  dsimp only
  rw [lowered]

theorem SameView.computeState {stop : Int} (same : SameView env left right stop) (now : Int)
    (wallet : Text) :
    LedgerState.computeState env left now wallet stop =
      LedgerState.computeState env right now wallet stop := by
  have replayed : walkedProgress env left wallet stop (visitedBlocks env left stop) =
      walkedProgress env right wallet stop (visitedBlocks env left stop) := by
    rw [walkedProgress, walkedProgress, same.first, same.latest]
    apply walkEntries_congr
    intro entry listed basic
    have member := (mem_chainEntries.mp listed).1
    have below := (basicCarryForward_of_check basic).below
    unfold carryForwardSnapshotMatches
    dsimp only
    rw [balancesThroughBlock_of_visited member below,
      balancesThroughBlock_of_visited (same.visited ▸ member) below, same.first, same.visited]
    simp only [same.unset]
  rw [computeState_of_visited rfl, computeState_of_visited same.visited.symm, replayed]

/-! ### What a key shows -/

/-- A number before a separator is read off the text. -/
theorem ofLong_append_inj {first second : Int} {rest others : Text} {separator : Char}
    (notMinus : separator ≠ '-') (notDigit : separator.isDigit = false)
    (same : ofLong first ++ separator :: rest = ofLong second ++ separator :: others) :
    first = second ∧ rest = others := by
  have free : ∀ number, separator ∉ ofLong number := by
    intro number member
    cases mem_ofLong member with
    | inl minus => exact notMinus minus
    | inr digit =>
        rw [notDigit] at digit
        cases digit
  have found : ofLong first ++ separator :: rest <+: ofLong second ++ separator :: others := by
    rw [same]
  have texts := (Search.eq_of_separated (free first) (free second) found).1
  rw [texts, List.append_cancel_left_eq] at same
  exact ⟨ofLong_injective texts, (List.cons.inj same).2⟩

/-- Under one wallet key, a cache key shows the rest of the call and of the database. -/
theorem buildCacheKey_fields {now now' stop stop' : Int} {wallet : Text}
    (same : buildCacheKey env left now wallet stop = buildCacheKey env right now' wallet stop') :
    now = now' ∧ stop = stop' ∧ getFirstBlockId left = getFirstBlockId right ∧
      buildLatestBlockId left stop = buildLatestBlockId right stop' ∧
      (getBlock env left (buildLatestBlockId left stop)).hash =
        (getBlock env right (buildLatestBlockId right stop')).hash := by
  unfold buildCacheKey ledgerStateCacheKey at same
  dsimp only at same
  obtain ⟨beforeNow, sameNow⟩ := append_ofLong_inj (by decide) (by decide) same
  obtain ⟨beforeStop, sameStop⟩ := append_ofLong_inj (by decide) (by decide) beforeNow
  simp only [List.append_assoc, List.append_cancel_left_eq] at beforeStop
  obtain ⟨first, afterFirst⟩ := ofLong_append_inj (by decide) (by decide) beforeStop
  obtain ⟨latest, hashes⟩ := ofLong_append_inj (by decide) (by decide) afterFirst
  exact ⟨sameNow, sameStop, first, latest, hashes⟩

/-- The walk follows the block in the slot of the last block. -/
structure Anchored (env : Env) (db : LevelDb) (stop : Int) : Prop where
  latest : 0 ≤ getLatestBlockId db
  placed : 0 < (getBlock env db (buildLatestBlockId db stop)).number
  follows : Lineage env db (getBlock env db (buildLatestBlockId db stop)) (visitedBlocks env db stop)

/-- The branch of a block is the same in a later database that keeps the blocks. -/
theorem lineage_mono {block : Block} {chain : List Block} (sound : Sound env left)
    (kept : ∀ block, Holds env left block → Holds env right block)
    (lineage : Lineage env left block chain) : Lineage env right block chain := by
  induction lineage with
  | genesis first => exact .genesis first
  | @child block chain later connects below ih =>
      have parent := sound.holds_getBlockByHash (childConnectsToParent_iff.mp connects).1
      have lookup : getBlockByHash env right block.previousBlockHash =
          getBlockByHash env left block.previousBlockHash := by
        have found := (kept _ parent.1).getBlockByHash_eq
        rwa [parent.2] at found
      apply Lineage.child later
      · rw [lookup]
        exact connects
      · rw [lookup]
        exact ih

/-- Where both walks follow the block in the slot, the hash in the key fixes the view. -/
theorem Anchored.sameView {stop : Int} (leftAnchored : Anchored env left stop)
    (rightAnchored : Anchored env right stop) (leftReached : Reached env left)
    (rightReached : Reached env right)
    (kept : ∀ block, Holds env left block → Holds env right block)
    (first : getFirstBlockId left = getFirstBlockId right)
    (latest : buildLatestBlockId left stop = buildLatestBlockId right stop)
    (hashes : (getBlock env left (buildLatestBlockId left stop)).hash =
      (getBlock env right (buildLatestBlockId right stop)).hash) :
    SameView env left right stop := by
  have leftHolds := (leftReached.sound.holds_getBlock leftAnchored.placed).1
  have rightHolds := (rightReached.sound.holds_getBlock rightAnchored.placed).1
  have block := (kept _ leftHolds).unique rightHolds hashes
  have lineage := lineage_mono leftReached.sound kept leftAnchored.follows
  rw [block] at lineage
  exact
    { first := first
      latest := latest
      visited := lineage.unique rightAnchored.follows
      unset := iff_of_false (not_lt.mpr leftAnchored.latest) (not_lt.mpr rightAnchored.latest) }

/-! ### Calls -/

/-- A call of `build` with the database that it reads. -/
structure Call where
  db : LevelDb
  currentTimeBlock : Int
  walletPublicKey : Text
  stopBlock : Int

namespace Call

variable (env : Env) (call : Call)

/-- The ends of the chain are set, so the cache is read. -/
def Keyed : Prop :=
  0 ≤ getFirstBlockId call.db ∧ 0 ≤ buildLatestBlockId call.db call.stopBlock

def key : Text :=
  buildCacheKey env call.db call.currentTimeBlock call.walletPublicKey call.stopBlock

def build (cache : Cache) : State × Cache :=
  LedgerState.build env call.db cache call.currentTimeBlock call.walletPublicKey call.stopBlock

def state : State :=
  computeState env call.db call.currentTimeBlock call.walletPublicKey call.stopBlock

/-- An earlier call under the same key is one of the same wallet, and the walk follows
the block in the slot at both calls or did not change. -/
def Unclashed (earlier : List Call) : Prop :=
  ∀ other ∈ earlier, other.Keyed → other.key env = call.key env →
    other.walletPublicKey = call.walletPublicKey ∧
      (Anchored env other.db other.stopBlock ∧ Anchored env call.db call.stopBlock ∨
        SameView env other.db call.db call.stopBlock)

end Call

/-- The cache after some calls. -/
def buildAll (env : Env) (cache : Cache) (calls : List Call) : Cache :=
  calls.foldl (fun cache call => (call.build env cache).2) cache

theorem buildAll_concat (cache : Cache) (calls : List Call) (call : Call) :
    buildAll env cache (calls ++ [call]) = (call.build env (buildAll env cache calls)).2 := by
  rw [buildAll, List.foldl_append, buildAll, List.foldl_cons, List.foldl_nil]

section Built

variable {call : Call} {cache : Cache} {calls : List Call} {key : Text} {state : State}

theorem build_of_unkeyed (unkeyed : ¬ call.Keyed) :
    call.build env cache =
      (State.start (getFirstBlockId call.db) (buildLatestBlockId call.db call.stopBlock), cache) := by
  have unset : getFirstBlockId call.db < 0 ∨ buildLatestBlockId call.db call.stopBlock < 0 := by
    rw [Call.Keyed, not_and_or, not_le, not_le] at unkeyed
    exact unkeyed
  rw [Call.build, LedgerState.build]
  dsimp only
  rw [if_pos unset]

theorem build_of_keyed (keyed : call.Keyed) :
    call.build env cache =
      match cache[call.key env]? with
      | some state => (state, cache)
      | none => (call.state env, cacheLedgerState cache (call.key env) (call.state env)) := by
  have set : ¬ (getFirstBlockId call.db < 0 ∨ buildLatestBlockId call.db call.stopBlock < 0) := by
    rw [not_or, not_lt, not_lt]
    exact keyed
  rw [Call.build, LedgerState.build]
  dsimp only
  rw [if_neg set]
  rfl

/-- An empty cache leaves the state that the walk computes. -/
theorem build_of_empty (keyed : call.Keyed) : (call.build env ∅).1 = call.state env := by
  rw [build_of_keyed keyed, Std.ExtTreeMap.getElem?_empty]

/-- An entry after a call is the one of the call, or was there before it. -/
theorem getElem?_of_build (found : (call.build env cache).2[key]? = some state) :
    call.Keyed ∧ call.key env = key ∧ call.state env = state ∨ cache[key]? = some state := by
  by_cases keyed : call.Keyed
  · rw [build_of_keyed keyed] at found
    cases stored : cache[call.key env]? with
    | some old =>
        rw [stored] at found
        exact .inr found
    | none =>
        rw [stored] at found
        dsimp only at found
        cases getElem?_of_cacheLedgerState found with
        | inl written => exact .inl ⟨keyed, written⟩
        | inr old => exact .inr old
  · rw [build_of_unkeyed keyed] at found
    exact .inr found

/-- Every entry is the state of a call that had its key. -/
def CachedFrom (env : Env) (calls : List Call) (cache : Cache) : Prop :=
  ∀ key state, cache[key]? = some state →
    ∃ call ∈ calls, call.Keyed ∧ call.key env = key ∧ call.state env = state

theorem CachedFrom.build (cached : CachedFrom env calls cache) (call : Call) :
    CachedFrom env (calls ++ [call]) (call.build env cache).2 := by
  intro key state found
  cases getElem?_of_build found with
  | inl own => exact ⟨call, by simp, own⟩
  | inr old =>
      obtain ⟨other, listed, facts⟩ := cached key state old
      exact ⟨other, List.mem_append_left _ listed, facts⟩

theorem CachedFrom.buildAll (cached : CachedFrom env calls cache) (more : List Call) :
    CachedFrom env (calls ++ more) (LedgerState.buildAll env cache more) := by
  induction more using List.reverseRecOn with
  | nil =>
      rw [List.append_nil]
      exact cached
  | append_singleton front last ih =>
      rw [buildAll_concat, ← List.append_assoc]
      exact ih.build last

end Built

/-! ### The calls of the validator -/

section Storage

variable (env : Env) (ambient : Ambient) (db : LevelDb) (caches : Caches)

def parentCalls (parent : Block) : List Call :=
  match cachedLedgerStateForBlock caches.validationStateByBlockHash parent with
  | some _ => []
  | none => [⟨db, ambient.parentTimeBlock, [], parent.number⟩]

def selectionCall (block : Block) : Call :=
  ⟨db, ambient.selectionTimeBlock, [],
    Selector.getSelectionBoundaryBlock block.number (getFirstBlockId db)⟩

/-- The calls that `validateBlockForStorage` makes. -/
def storageCalls (block : Block) : List Call :=
  match checkEnvelope env block with
  | .error _ => []
  | .ok () =>
      if block.previousBlockId ≤ 0 then []
      else
        match storageParent env db block with
        | .error _ => []
        | .ok parent =>
            if enforcesStateRules env db parent block then
              parentCalls ambient db caches parent ++ [selectionCall ambient db block]
            else []

def addBlockCalls (node : Node) (block : Block) : List Call :=
  match checkAddedBlock env block with
  | .error _ => []
  | .ok () =>
      if 0 < (node.db.get (.block block.hash)).length then []
      else storageCalls env ambient node.db node.caches block

end Storage

section Validator

variable {ambient : Ambient} {caches : Caches} {block : Block}

theorem ledgerStateCache_storeUnderRules {isGenesis : Bool} {parentState : State} :
    (storeUnderRules env db caches isGenesis parentState block).2.ledgerStateCache =
      caches.ledgerStateCache := by
  unfold storeUnderRules
  split
  · rfl
  · rfl

theorem ledgerStateCache_selectionStateFor {parentState : State} :
    (selectionStateFor env ambient db caches parentState block).2.ledgerStateCache =
      ((selectionCall ambient db block).build env caches.ledgerStateCache).2 := rfl

theorem ledgerStateCache_parentStateFor {parent : Block} :
    (parentStateFor env ambient db caches parent).2.ledgerStateCache =
      buildAll env caches.ledgerStateCache (parentCalls ambient db caches parent) := by
  unfold parentStateFor parentCalls
  cases cachedLedgerStateForBlock caches.validationStateByBlockHash parent with
  | some state => rfl
  | none => rfl

theorem ledgerStateCache_storeOnTip {parent : Block} :
    (storeOnTip env ambient db caches parent block).2.ledgerStateCache =
      buildAll env caches.ledgerStateCache
        (parentCalls ambient db caches parent ++ [selectionCall ambient db block]) := by
  rw [buildAll_concat, ← ledgerStateCache_parentStateFor]
  unfold storeOnTip
  generalize parentStateFor env ambient db caches parent = built
  cases built with
  | mk parentState afterParent =>
  dsimp only
  have selected := @ledgerStateCache_selectionStateFor env db ambient afterParent block parentState
  generalize (selectionCall ambient db block).build env afterParent.ledgerStateCache = wanted
    at selected ⊢
  generalize selectionStateFor env ambient db afterParent parentState block = picked at selected ⊢
  cases picked with
  | mk selectionState afterSelection =>
  dsimp only at selected ⊢
  rw [← selected]
  split
  · rfl
  · exact ledgerStateCache_storeUnderRules

theorem ledgerStateCache_validate :
    (validateBlockForStorage env ambient db caches block).2.ledgerStateCache =
      buildAll env caches.ledgerStateCache (storageCalls env ambient db caches block) := by
  unfold validateBlockForStorage storageCalls
  cases checkEnvelope env block with
  | error reason => rfl
  | ok checked =>
      dsimp only
      split
      · split
        · rfl
        · exact ledgerStateCache_storeUnderRules
      · cases storageParent env db block with
        | error reason => rfl
        | ok parent =>
            dsimp only
            split
            · exact ledgerStateCache_storeOnTip
            · rfl

theorem ledgerStateCache_addBlock {node : Node} :
    (addBlock env ambient node block).2.caches.ledgerStateCache =
      buildAll env node.caches.ledgerStateCache (addBlockCalls env ambient node block) := by
  unfold addBlock addBlockCalls
  cases checkAddedBlock env block with
  | error reason => rfl
  | ok checked =>
      dsimp only
      split
      · rfl
      · rw [← ledgerStateCache_validate]
        generalize validateBlockForStorage env ambient node.db node.caches block = verdict
        obtain ⟨outcome, caches⟩ := verdict
        cases outcome with
        | error reason => rfl
        | ok accepted => rfl

theorem db_of_storageCalls {call : Call} (made : call ∈ storageCalls env ambient db caches block) :
    call.db = db := by
  unfold storageCalls at made
  split at made
  · cases made
  · split at made
    · cases made
    · split at made
      · cases made
      · split at made
        · cases List.mem_append.mp made with
          | inl parent =>
              unfold parentCalls at parent
              split at parent
              · cases parent
              · rw [List.mem_singleton.mp parent]
          | inr selection => rw [List.mem_singleton.mp selection, selectionCall]
        · cases made

theorem db_of_addBlockCalls {node : Node} {call : Call}
    (made : call ∈ addBlockCalls env ambient node block) : call.db = node.db := by
  unfold addBlockCalls at made
  split at made
  · cases made
  · split at made
    · cases made
    · exact db_of_storageCalls made

end Validator

/-! ### Runs -/

/-- A store operation, or a call of `build` by any other part of the node. -/
inductive LedgerStep where
  | store (step : ChainStep)
  | build (currentTimeBlock : Int) (walletPublicKey : Text) (stopBlock : Int)

/-- A node with the calls of `build` that it made so far. -/
structure LedgerRun where
  node : Node
  calls : List Call

/-- A node that opens a database has no cached ledger states. -/
def LedgerRun.start (db : LevelDb) (validationStateByBlockHash : TextMap State) : LedgerRun where
  node := ⟨db, ⟨validationStateByBlockHash, ∅⟩⟩
  calls := []

namespace LedgerStep

def calls (env : Env) (node : Node) : LedgerStep → List Call
  | .store (.addBlock ambient block) => addBlockCalls env ambient node block
  | .store _ => []
  | .build currentTimeBlock walletPublicKey stopBlock =>
      [⟨node.db, currentTimeBlock, walletPublicKey, stopBlock⟩]

def node (env : Env) (node : Node) : LedgerStep → Node
  | .store step => step.apply env node
  | .build currentTimeBlock walletPublicKey stopBlock =>
      { node with
        caches := { node.caches with
          ledgerStateCache :=
            (LedgerState.build env node.db node.caches.ledgerStateCache currentTimeBlock
              walletPublicKey stopBlock).2 } }

def apply (env : Env) (run : LedgerRun) (step : LedgerStep) : LedgerRun where
  node := step.node env run.node
  calls := run.calls ++ step.calls env run.node

def Adds (allowed : Block → Prop) : LedgerStep → Prop
  | .store step => step.Adds allowed
  | .build _ _ _ => True

end LedgerStep

def runLedger (env : Env) (run : LedgerRun) (steps : List LedgerStep) : LedgerRun :=
  steps.foldl (LedgerStep.apply env) run

section Runs

variable {node : Node} {step : LedgerStep} {run : LedgerRun}

theorem ledgerStateCache_step : (step.node env node).caches.ledgerStateCache =
    buildAll env node.caches.ledgerStateCache (step.calls env node) := by
  cases step with
  | store step =>
      cases step with
      | addBlock ambient block => exact ledgerStateCache_addBlock
      | setFirstBlockId number => rfl
      | rebuildBestChainIndex now => rfl
      | adoptStoredChainEndingAtHash now tipHash => rfl
  | build now wallet stop => rfl

/-- The calls of a step read the database from before the step. -/
theorem db_of_calls {call : Call} (made : call ∈ step.calls env node) : call.db = node.db := by
  cases step with
  | build now wallet stop => rw [List.mem_singleton.mp made]
  | store step =>
      cases step with
      | setFirstBlockId number => cases made
      | rebuildBestChainIndex now => cases made
      | adoptStoredChainEndingAtHash now tipHash => cases made
      | addBlock ambient block =>
          exact db_of_addBlockCalls made

/-- What holds of a run: its blocks are those of the stores before it, and each cached
state comes from a call. -/
structure Traced (env : Env) (run : LedgerRun) : Prop where
  reached : Reached env run.node.db
  earlier : ∀ call ∈ run.calls, Reached env call.db ∧
    ∀ block, Holds env call.db block → Holds env run.node.db block
  cached : CachedFrom env run.calls run.node.caches.ledgerStateCache

theorem traced_start {db : LevelDb} (reached : Reached env db)
    (validationStateByBlockHash : TextMap State) :
    Traced env (.start db validationStateByBlockHash) where
  reached := reached
  earlier := by
    intro call made
    cases made
  cached := by
    intro key state found
    rw [LedgerRun.start, Std.ExtTreeMap.getElem?_empty] at found
    cases found

theorem Traced.apply (traced : Traced env run) (reads : step.Adds (RoundTrips env)) :
    Traced env (step.apply env run) := by
  have grows : Reached env (step.node env run.node).db ∧
      ∀ block, Holds env run.node.db block → Holds env (step.node env run.node).db block := by
    cases step with
    | build now wallet stop => exact ⟨traced.reached, fun _ holds => holds⟩
    | store step =>
        exact ⟨traced.reached.step reads, fun block => ChainStep.keeps_holds traced.reached step⟩
  refine ⟨grows.1, fun call made => ?_, ?_⟩
  · cases List.mem_append.mp made with
    | inl before =>
        obtain ⟨reached, kept⟩ := traced.earlier call before
        exact ⟨reached, fun block holds => grows.2 block (kept block holds)⟩
    | inr own =>
        rw [db_of_calls own]
        exact ⟨traced.reached, grows.2⟩
  · rw [LedgerStep.apply]
    dsimp only
    rw [ledgerStateCache_step]
    exact traced.cached.buildAll _

theorem Traced.runLedger (traced : Traced env run) {steps : List LedgerStep}
    (reads : ∀ step ∈ steps, step.Adds (RoundTrips env)) :
    Traced env (LedgerState.runLedger env run steps) := by
  have keeps : ∀ (run : LedgerRun) (step : LedgerStep), Traced env run →
      step.Adds (RoundTrips env) → Traced env (step.apply env run) :=
    fun _ _ traced reads => traced.apply reads
  exact Runs.invariant keeps traced (Runs.meets_of_forall run reads)

/-- The state of an earlier call with the key is the state of the call. -/
theorem Call.Unclashed.state_eq {call other : Call} {calls : List Call}
    (unclashed : call.Unclashed env calls) (listed : other ∈ calls) (keyed : other.Keyed)
    (same : other.key env = call.key env) (before : Reached env other.db)
    (reached : Reached env call.db)
    (kept : ∀ block, Holds env other.db block → Holds env call.db block) :
    other.state env = call.state env := by
  obtain ⟨wallets, either⟩ := unclashed other listed keyed same
  unfold Call.key at same
  rw [wallets] at same
  obtain ⟨now, stop, first, latest, hashes⟩ := buildCacheKey_fields same
  have view : SameView env other.db call.db call.stopBlock := by
    cases either with
    | inl anchored =>
        rw [stop] at anchored latest hashes
        exact anchored.1.sameView anchored.2 before reached kept first latest hashes
    | inr unchanged => exact unchanged
  unfold Call.state
  rw [now, wallets, stop]
  exact view.computeState call.currentTimeBlock call.walletPublicKey

theorem sameView_refl (env : Env) (db : LevelDb) (stop : Int) : SameView env db db stop :=
  ⟨rfl, rfl, rfl, Iff.rfl⟩

/-- Two calls of one step do not clash. -/
theorem unclashed_append {call : Call} {calls own : List Call}
    (unclashed : call.Unclashed env calls) (sameDb : ∀ other ∈ own, other.db = call.db) :
    call.Unclashed env (calls ++ own) := by
  intro other listed keyed same
  cases List.mem_append.mp listed with
  | inl before => exact unclashed other before keyed same
  | inr here =>
      have db := sameDb other here
      unfold Call.key at same
      rw [db] at same
      refine ⟨(buildCacheKey_injective same).2.1, .inr ?_⟩
      rw [db]
      exact sameView_refl env call.db call.stopBlock

end Runs

/-- In every run a call that clashes with no earlier one returns what it would return
with an empty cache, be it made for a step of its own or inside `AddBlock`. -/
theorem ledger_cache_transparent (env : Env) (setup : List ChainStep)
    (reads : ∀ step ∈ setup, step.Adds (RoundTrips env))
    (validationStateByBlockHash : TextMap State) (steps : List LedgerStep)
    (readsLater : ∀ step ∈ steps, step.Adds (RoundTrips env)) (step : LedgerStep)
    (before after : List Call) (call : Call) :
    let run := runLedger env (.start (runSteps env .empty setup).db validationStateByBlockHash) steps
    step.calls env run.node = before ++ call :: after → call.Unclashed env run.calls →
      (call.build env (buildAll env run.node.caches.ledgerStateCache before)).1 =
        (call.build env ∅).1 := by
  intro run made unclashed
  have traced : Traced env run := (traced_start (reached_of_run reads) _).runLedger readsLater
  have dbs : ∀ other ∈ before ++ call :: after, other.db = run.node.db := by
    rw [← made]
    exact fun other => db_of_calls
  have callDb := dbs call (by simp)
  have beforeDb : ∀ other ∈ before, other.db = call.db := fun other member =>
    (dbs other (List.mem_append_left _ member)).trans callDb.symm
  have cached := traced.cached.buildAll before
  generalize buildAll env run.node.caches.ledgerStateCache before = cache at cached
  by_cases keyed : call.Keyed
  · rw [build_of_empty keyed, build_of_keyed keyed]
    cases found : cache[call.key env]? with
    | none => rfl
    | some state =>
        obtain ⟨other, listed, otherKeyed, same, computed⟩ := cached _ state found
        dsimp only
        rw [← computed]
        have facts : Reached env other.db ∧
            ∀ block, Holds env other.db block → Holds env call.db block := by
          cases List.mem_append.mp listed with
          | inl early =>
              rw [callDb]
              exact traced.earlier other early
          | inr own =>
              rw [beforeDb other own, callDb]
              exact ⟨traced.reached, fun _ holds => holds⟩
        exact (unclashed_append unclashed beforeDb).state_eq listed otherKeyed same facts.1
          (callDb ▸ traced.reached) facts.2
  · rw [build_of_unkeyed keyed, build_of_unkeyed keyed]

theorem latestBlock_of_walks {chain : List Block} (walks : WalksAs env db chain)
    (room : chain.length ≤ walkGuard) (now : Int) (wallet : Text) :
    (computeState env db now wallet 0).latestBlock = chain.getLast?.getD .missing := by
  have visited : visitedBlocks env db 0 = chain :=
    (visitedBlocks_eq_storedWalk env db).trans (walks walkGuard room)
  rw [computeState_of_visited visited]

/-- The first call leaves its state. -/
theorem getElem?_first_build {call : Call} (keyed : call.Keyed) :
    (call.build env ∅).2[call.key env]? = some (call.state env) := by
  rw [build_of_keyed keyed, Std.ExtTreeMap.getElem?_empty]
  dsimp only
  have small : ((∅ : Cache).insert (call.key env) (call.state env)).size - 256 = 0 := by
    simp [Std.ExtTreeMap.size_insert]
  rw [cacheLedgerState, trimCache, small, Function.iterate_zero, id,
    Std.ExtTreeMap.getElem?_insert_self]

/-- The first state answers a later call with the same ends and the same hash in the
last slot, though the walk now ends in another block. -/
theorem build_stale {db later : LevelDb} {chain moved : List Block}
    (walks : WalksAs env db chain) (room : chain.length ≤ walkGuard)
    (walksLater : WalksAs env later moved) (roomLater : moved.length ≤ walkGuard)
    (differ : chain.getLast?.getD .missing ≠ moved.getLast?.getD .missing)
    (started : 0 ≤ getFirstBlockId db) (ended : 0 ≤ getLatestBlockId db)
    (first : getFirstBlockId later = getFirstBlockId db)
    (latest : getLatestBlockId later = getLatestBlockId db)
    (hashes : (getBlock env later (getLatestBlockId db)).hash =
      (getBlock env db (getLatestBlockId db)).hash) :
    (build env later (Call.build env ⟨db, 0, [], 0⟩ ∅).2 0 [] 0).1 ≠ (build env later ∅ 0 [] 0).1 := by
  have stopless : ∀ db : LevelDb, buildLatestBlockId db 0 = getLatestBlockId db := fun _ => rfl
  have keyed : Call.Keyed ⟨db, 0, [], 0⟩ := ⟨started, ended⟩
  have keyedLater : Call.Keyed ⟨later, 0, [], 0⟩ := by
    rw [Call.Keyed, stopless, first, latest]
    exact keyed
  have key : Call.key env ⟨later, 0, [], 0⟩ = Call.key env ⟨db, 0, [], 0⟩ := by
    unfold Call.key buildCacheKey
    dsimp only
    rw [stopless, stopless, first, latest, hashes]
  intro same
  change (Call.build env ⟨later, 0, [], 0⟩ _).1 = (Call.build env ⟨later, 0, [], 0⟩ ∅).1 at same
  rw [build_of_empty keyedLater, build_of_keyed keyedLater, key, getElem?_first_build keyed] at same
  apply differ
  rw [← latestBlock_of_walks walks room 0 [], ← latestBlock_of_walks walksLater roomLater 0 []]
  exact congrArg State.latestBlock same

/-- A call, and two adoptions. -/
def clashSteps (first second : Text) : List LedgerStep :=
  [.build 0 [] 0, .store (.adoptStoredChainEndingAtHash 0 first),
    .store (.adoptStoredChainEndingAtHash 0 second)]

theorem run_clashSteps (env : Env) (db : LevelDb) (first second : Text) :
    runLedger env (.start db ∅) (clashSteps first second) =
      { node :=
          { db := (adoptStoredChainEndingAtHash env 0
              (adoptStoredChainEndingAtHash env 0 db first).2 second).2
            caches := ⟨∅, (Call.build env ⟨db, 0, [], 0⟩ ∅).2⟩ }
        calls := [⟨db, 0, [], 0⟩] } := rfl

theorem clashed_stale {db later : LevelDb} {firstHash secondHash : Text} {chain moved : List Block}
    (made : (adoptStoredChainEndingAtHash env 0
      (adoptStoredChainEndingAtHash env 0 db firstHash).2 secondHash).2 = later)
    (walks : WalksAs env db chain) (room : chain.length ≤ walkGuard)
    (walksLater : WalksAs env later moved) (roomLater : moved.length ≤ walkGuard)
    (differ : chain.getLast?.getD .missing ≠ moved.getLast?.getD .missing)
    (started : 0 ≤ getFirstBlockId db) (ended : 0 ≤ getLatestBlockId db)
    (first : getFirstBlockId later = getFirstBlockId db)
    (latest : getLatestBlockId later = getLatestBlockId db)
    (hashes : (getBlock env later (getLatestBlockId db)).hash =
      (getBlock env db (getLatestBlockId db)).hash) :
    let run := runLedger env (.start db ∅) (clashSteps firstHash secondHash)
    (build env run.node.db run.node.caches.ledgerStateCache 0 [] 0).1 ≠
      (build env run.node.db ∅ 0 [] 0).1 := by
  dsimp only
  rw [run_clashSteps]
  dsimp only
  rw [made]
  exact build_stale walks room walksLater roomLater differ started ended first latest hashes

end Safire.LedgerState

namespace Safire

/-! ### A walk that leaves the slot of its tip -/

theorem canonicalPart_pair_le {env : Env} {db : LevelDb} {first last : Block}
    (apart : (getBlock env db last.number).hash ≠ last.hash) :
    canonicalPart env db [first, last] ≤ 1 := by
  have stops : [last].takeWhile (fun block =>
      decide ((getBlock env db block.number).number = block.number) &&
        decide ((getBlock env db block.number).hash = block.hash)) = [] := by
    apply List.takeWhile_cons_of_neg
    simp [apart]
  rw [canonicalPart, List.takeWhile_cons]
  dsimp only
  split
  · rw [stops, List.length_singleton]
  · exact Nat.zero_le 1

namespace Sample

open LedgerState ChainValidator

theorem reads_variantSteps : ∀ step ∈ variantSteps, step.Adds (RoundTrips Sample.env) :=
  fun step member => (adds_variantSteps step member).reads

theorem genesis_slot_variantSteps :
    getBlock Sample.env (runSteps Sample.env .empty variantSteps).db 100 = genesis := by
  have early : (extended emptyBlock).db = writeBlock Sample.env started.db emptyBlock := by
    simp only [extended]
  have first := written_writeBlock tracked_started.sound
    (roundTrips (List.mem_iff_getElem?.mpr ⟨4, rfl⟩)) (tracked_started.fresh (by decide))
    (.inl (by decide : emptyBlock.previousBlockId < emptyBlock.number))
  have second := written_writeBlock tracked_emptyBlock.sound
    (roundTrips (List.mem_iff_getElem?.mpr ⟨2, rfl⟩))
    (tracked_emptyBlock.fresh duplicateBlock_fits.unknown)
    (.inl (by decide : duplicateBlock.previousBlockId < duplicateBlock.number))
  rw [run_variantSteps, second.kept 100 (.inl (by decide)), early,
    first.kept 100 (.inl (by decide))]
  exact tracked_started.tipSlot

theorem walks_variantSteps :
    WalksAs Sample.env (runSteps Sample.env .empty variantSteps).db [genesis, emptyBlock] := by
  have tracked := tracked_variantSteps
  have link := link_variantSteps
  have slot := genesis_slot_variantSteps
  generalize (runSteps Sample.env .empty variantSteps).db = db at tracked link slot ⊢
  have emptyHolds := (tracked.holds emptyBlock).mpr (by simp)
  have links : LinksAlong Sample.env db [genesis, emptyBlock] := by
    constructor
    · intro block head
      rw [tracked.first, slot]
      exact Option.some.inj head
    · intro before parent child rest place
      cases before with
      | nil =>
          cases place
          exact emptyHolds.getNextBlock_eq link (by decide)
      | cons block before =>
          have short := congrArg List.length place
          simp only [List.length_cons, List.length_append, List.length_nil] at short
          omega
  have ascending : Ascending [genesis, emptyBlock] := ascending_of_accepts accepts_emptyBlock
  apply links.walksAs ascending (by simp)
  intro tip last
  rw [tracked.latest, ← Option.some.inj last]
  rfl

/-- Both blocks of the slot can be adopted in turn, and the walk then follows the variant. -/
theorem readopted_variantSteps :
    let adopted := (adoptStoredChainEndingAtHash Sample.env 0
      (runSteps Sample.env .empty variantSteps).db emptyBlock.hash).2
    let again := (adoptStoredChainEndingAtHash Sample.env 0 adopted duplicateBlock.hash).2
    getFirstBlockId again = 100 ∧ getLatestBlockId again = 101 ∧
      TipIs Sample.env again duplicateBlock ∧
      WalksAs Sample.env again [genesis, duplicateBlock] := by
  have tracked := tracked_variantSteps
  have lineage := lineage_duplicateBlock
  have slot := genesis_slot_variantSteps
  have reached := reached_of_run reads_variantSteps
  generalize (runSteps Sample.env .empty variantSteps).db = db at tracked lineage reached slot ⊢
  have known : ∀ block ∈ [genesis, emptyBlock], block ∈ [duplicateBlock, emptyBlock, genesis] := by
    simp
  have success := tracked.adopts reached accepts_emptyBlock known rfl rfl 0
  have rewritten := rewritten_adoptStoredChainEndingAtHash reached.sound 0 emptyBlock.hash
  have again := reached.adoptStoredChainEndingAtHash 0 emptyBlock.hash
  have emptyHolds := (tracked.holds emptyBlock).mpr (by simp)
  have rival : TipIs Sample.env (adoptStoredChainEndingAtHash Sample.env 0 db emptyBlock.hash).2
      emptyBlock := by
    obtain ⟨tip, branch, adoptable, -, tipIs⟩ := reached.adopted success
    rwa [adoptable.holds.unique emptyHolds adoptable.named] at tipIs
  have holds := rewritten.holds ((tracked.holds duplicateBlock).mpr List.mem_cons_self)
  have first := rewritten.first.trans tracked.first
  have branch := (Lineage.of_rewritten rewritten).mpr lineage
  generalize (adoptStoredChainEndingAtHash Sample.env 0 db emptyBlock.hash).2 = adopted
    at again rival holds first branch ⊢
  dsimp only
  have readopts : (adoptStoredChainEndingAtHash Sample.env 0 adopted
      duplicateBlock.hash).1.isSome = true := by
    apply again.adopts branch holds
    · rw [first]
      decide
    · intro block head
      rw [first, ← Option.some.inj head]
      decide
  have other : ¬ TipIs Sample.env adopted duplicateBlock := by
    intro same
    have blocks := same.2.symm.trans rival.2
    exact absurd (congrArg (fun block => block.records.length) blocks) (by decide)
  have slotted : getBlock Sample.env adopted duplicateBlock.number = emptyBlock := by
    have numbers : duplicateBlock.number = emptyBlock.number := by decide
    rw [numbers, ← rival.2, again.tip rival.1]
  have early : canonicalPart Sample.env adopted [genesis, duplicateBlock] ≤ 1 := by
    apply canonicalPart_pair_le
    rw [slotted]
    exact duplicateBlock_fits.unknown emptyBlock List.mem_cons_self
  have tipIs : TipIs Sample.env (adoptStoredChainEndingAtHash Sample.env 0 adopted
      duplicateBlock.hash).2 duplicateBlock := by
    obtain ⟨tip, below, adoptable, -, tipIs⟩ := again.adopted readopts
    rwa [adoptable.holds.unique holds adoptable.named] at tipIs
  refine ⟨(rewritten_adoptStoredChainEndingAtHash again.sound 0 _).first.trans first, ?_, tipIs, ?_⟩
  · rw [← (again.adoptStoredChainEndingAtHash 0 duplicateBlock.hash).tip tipIs.1, tipIs.2]
    rfl
  · apply (adopt_walks_iff again readopts (by rwa [holds.getBlockByHash_eq])).mpr
    rw [holds.getBlockByHash_eq]
    refine ⟨fun same => absurd same other, fun _ before parent child rest place inside => ?_⟩
    omega

/-- After both blocks of the slot were adopted in turn, a call under the same key returns
the cached walk, whose last block is no longer canonical. -/
theorem stale_state_returned :
    (∀ step ∈ variantSteps, step.Adds (RoundTrips Sample.env)) ∧
      let run := runLedger Sample.env (.start (runSteps Sample.env .empty variantSteps).db ∅)
        (clashSteps emptyBlock.hash duplicateBlock.hash)
      (build Sample.env run.node.db run.node.caches.ledgerStateCache 0 [] 0).1 ≠
        (build Sample.env run.node.db ∅ 0 [] 0).1 := by
  refine ⟨reads_variantSteps, ?_⟩
  have tracked := tracked_variantSteps
  have walks := walks_variantSteps
  obtain ⟨first, latest, tipIs, walksLater⟩ := readopted_variantSteps
  have apart : ([genesis, emptyBlock].getLast?.getD .missing) ≠
      ([genesis, duplicateBlock].getLast?.getD .missing) := by
    intro same
    exact absurd (congrArg (fun block => block.records.length) same) (by decide)
  have number : duplicateBlock.number = 101 := by decide
  apply clashed_stale rfl walks (by decide) walksLater (by decide) apart
  · rw [tracked.first]
    decide
  · rw [tracked.latest]
    decide
  · rw [first, tracked.first]
  · rw [latest, tracked.latest, number]
  · rw [tracked.latest, tracked.tipSlot, number, ← latest, tipIs.2]

theorem unclashed_repeated (env : Env) (db : LevelDb) (states : TextMap State) :
    let run := runLedger env (.start db states) [.build 7 [] 0]
    Call.Unclashed env ⟨run.node.db, 7, [], 0⟩ run.calls := by
  intro run other listed keyed same
  rw [List.mem_singleton.mp listed]
  exact ⟨rfl, .inr (sameView_refl env db 0)⟩

/-- The second of two equal calls on one store. -/
theorem ledger_cache_transparent_repeated :
    let run := runLedger Sample.env (.start (runSteps Sample.env .empty (tipSteps emptyBlock)).db ∅)
      [.build 7 [] 0]
    (Call.build Sample.env ⟨run.node.db, 7, [], 0⟩ (buildAll Sample.env
        run.node.caches.ledgerStateCache [])).1 =
      (Call.build Sample.env ⟨run.node.db, 7, [], 0⟩ ∅).1 := by
  apply ledger_cache_transparent Sample.env (tipSteps emptyBlock)
    (fun step member => (adds_tipSteps (List.mem_iff_getElem?.mpr ⟨4, rfl⟩) step member).reads) ∅
    [.build 7 [] 0] _ (.build 7 [] 0) [] [] _ rfl
  · exact unclashed_repeated Sample.env _ ∅
  · intro step member
    rw [List.mem_singleton.mp member]
    exact trivial

end Sample

end Safire
