/-
The walk of `CLedgerState::build` as a fold over the history of the chain, and
the cache: on one database, a cached state is the state of the query.
-/

import Safire.StoredChain

namespace Safire.LedgerState

open ChainValidator Text

variable {env : Env} {db : LevelDb}

/-! ### The walk over a history -/

section Walk

variable (snapshotMatches : Record → Bool) (walletPublicKey : Text)

def walkEntries (start : Progress) (entries : List Entry) : Progress :=
  entries.foldl
    (fun progress entry => recordRound snapshotMatches walletPublicKey entry.1 progress entry.2)
    start

theorem walkEntries_snoc (start : Progress) (entries : List Entry) (entry : Entry) :
    walkEntries snapshotMatches walletPublicKey start (entries ++ [entry]) =
      recordRound snapshotMatches walletPublicKey entry.1
        (walkEntries snapshotMatches walletPublicKey start entries) entry.2 := by
  simp [walkEntries]

theorem foldl_blockRound (start : Progress) (chain : List Block) :
    chain.foldl (blockRound snapshotMatches walletPublicKey) start =
      walkEntries snapshotMatches walletPublicKey start (chainEntries chain) := by
  rw [walkEntries, chainEntries, List.foldl_flatMap]
  congr 1
  funext progress block
  rw [blockRound, List.foldl_map]

/-- The marking of a hash before a record is applied. -/
def Progress.markHash (progress : Progress) (record : Record) : Progress :=
  { progress with
    result := { progress.result with
      acceptedRecordHashes := progress.result.acceptedRecordHashes.insert record.hash } }

/-- A record with a new hash is marked and applied. -/
theorem recordRound_of_new {block : Block} {progress : Progress} {record : Record}
    (hashed : record.hash ≠ []) (unseen : record.hash ∉ progress.result.acceptedRecordHashes) :
    recordRound snapshotMatches walletPublicKey block progress record =
      applyRecord snapshotMatches walletPublicKey (progress.markHash record) block record := by
  rw [recordRound, if_neg (fun again => unseen again.2)]
  simp only [List.length_pos_of_ne_nil hashed, if_true]
  rfl

end Walk

/-! ### The cache -/

/-- Every entry that a query on the database can meet is the state that the
query computes. -/
def CacheCoherent (env : Env) (db : LevelDb) (cache : Cache) : Prop :=
  ∀ now wallet stop state, cache[buildCacheKey env db now wallet stop]? = some state →
    state = computeState env db now wallet stop

/-- The key shows the query: its last two fields are numbers, and the rest is
the wallet key before a text that the stop block fixes. -/
theorem buildCacheKey_injective {now now' stop stop' : Int} {wallet wallet' : Text}
    (same : buildCacheKey env db now wallet stop = buildCacheKey env db now' wallet' stop') :
    now = now' ∧ wallet = wallet' ∧ stop = stop' := by
  unfold buildCacheKey ledgerStateCacheKey at same
  obtain ⟨beforeNow, sameNow⟩ := append_ofLong_inj (by decide) (by decide) same
  obtain ⟨beforeStop, sameStop⟩ :=
    append_ofLong_inj (by decide) (by decide) beforeNow
  subst sameStop
  refine ⟨sameNow, ?_, rfl⟩
  simpa only [List.append_assoc, List.append_cancel_right_eq] using beforeStop

theorem getElem?_of_eraseSmallest {β : Type} {cache : TextMap β} {key : Text} {value : β}
    (found : (eraseSmallest cache)[key]? = some value) : cache[key]? = some value := by
  unfold eraseSmallest at found
  split at found
  · exact found
  · rw [Std.ExtTreeMap.getElem?_erase] at found
    split at found
    · cases found
    · exact found

theorem getElem?_of_trimCache {β : Type} {limit : Nat} {cache : TextMap β} {key : Text} {value : β}
    (found : (trimCache limit cache)[key]? = some value) : cache[key]? = some value := by
  unfold trimCache at found
  generalize cache.size - limit = rounds at found
  induction rounds generalizing cache with
  | zero => exact found
  | succ rounds ih =>
      rw [Function.iterate_succ_apply] at found
      exact getElem?_of_eraseSmallest (ih found)

theorem getElem?_of_cacheLedgerState {cache : Cache} {stored : Text} {state : State} {key : Text}
    {value : State} (found : (cacheLedgerState cache stored state)[key]? = some value) :
    stored = key ∧ state = value ∨ cache[key]? = some value := by
  have inserted : (cache.insert stored state)[key]? = some value :=
    @getElem?_of_trimCache State 256 (cache.insert stored state) key value found
  rw [Std.ExtTreeMap.getElem?_insert] at inserted
  split at inserted
  · rename_i same
    exact .inl ⟨Std.LawfulEqCmp.compare_eq_iff_eq.mp same, Option.some.inj inserted⟩
  · exact .inr inserted

theorem cacheCoherent_empty : CacheCoherent env db ∅ := by
  intro now wallet stop state found
  rw [Std.ExtTreeMap.getElem?_empty] at found
  cases found

theorem build_coherent {cache : Cache} (coherent : CacheCoherent env db cache)
    (now : Int) (wallet : Text) (stop : Int) :
    CacheCoherent env db (build env db cache now wallet stop).2 := by
  unfold build
  dsimp only
  split
  · exact coherent
  · split
    · exact coherent
    · intro now' wallet' stop' state found
      dsimp only at found
      rcases getElem?_of_cacheLedgerState found with ⟨same, value⟩ | old
      · obtain ⟨rfl, rfl, rfl⟩ := buildCacheKey_injective same
        exact value.symm
      · exact coherent now' wallet' stop' state old

/-- With a coherent cache, `build` returns what it computes. -/
theorem build_eq_computeState {cache : Cache} (coherent : CacheCoherent env db cache)
    (first : 0 ≤ getFirstBlockId db) {stop : Int} (latest : 0 ≤ buildLatestBlockId db stop)
    (now : Int) (wallet : Text) :
    (build env db cache now wallet stop).1 = computeState env db now wallet stop := by
  unfold build
  dsimp only
  rw [if_neg (by omega)]
  split
  · rename_i state found
    exact coherent now wallet stop state found
  · rfl

/-- A call of `build`: the time slot, the wallet key and the stop block. -/
abbrev Query := Int × Text × Int

/-- The cache after some calls of `build` on the database. -/
def cacheAfter (env : Env) (db : LevelDb) (queries : List Query) : Cache :=
  queries.foldl (fun cache query => (build env db cache query.1 query.2.1 query.2.2).2) ∅

theorem cacheAfter_nil : cacheAfter env db [] = ∅ := rfl

theorem cacheAfter_coherent (queries : List Query) :
    CacheCoherent env db (cacheAfter env db queries) := by
  induction queries using List.reverseRecOn with
  | nil => exact cacheCoherent_empty
  | append_singleton queries query ih =>
      rw [cacheAfter, List.foldl_append]
      exact build_coherent ih query.1 query.2.1 query.2.2

/-! ### `build` on a stored chain -/

section Stored

variable {chain : List Block}

/-- The walk of a query over the blocks it visits. -/
def walkedProgress (env : Env) (db : LevelDb) (wallet : Text) (stop : Int) (visited : List Block) :
    Progress :=
  walkEntries (carryForwardSnapshotMatches env db) wallet
    (.start (getFirstBlockId db) (buildLatestBlockId db stop)) (chainEntries visited)

theorem computeState_of_visited {stop : Int} {visited : List Block}
    (walked : visitedBlocks env db stop = visited) (now : Int) (wallet : Text) :
    computeState env db now wallet stop =
      { finish (walkedProgress env db wallet stop visited) wallet now with
        latestBlock := visited.getLast?.getD .missing
        connectedBlockCount := visited.length } := by
  rw [computeState, walked]
  dsimp only
  rw [foldl_blockRound]
  rfl

theorem ends_of_stored (stored : StoredAs env db chain) (accepted : Accepts env chain) :
    0 < getFirstBlockId db ∧ 0 < getLatestBlockId db := by
  have ascending := ascending_of_accepts accepted
  obtain ⟨present, -⟩ := accepts_iff.mp accepted
  rw [stored.first _ (List.head?_eq_some_head present),
    stored.latest _ (List.getLast?_eq_some_getLast present)]
  exact ⟨ascending.positive _ (List.head_mem present),
    ascending.positive _ (List.getLast_mem present)⟩

/-- Whatever was queried before, `build` on a stored chain is its walk. -/
theorem build_of_stored (stored : StoredAs env db chain) (accepted : Accepts env chain)
    (queries : List Query) (now : Int) (wallet : Text) (stop : Int) :
    (build env db (cacheAfter env db queries) now wallet stop).1 =
      computeState env db now wallet stop := by
  obtain ⟨first, latest⟩ := ends_of_stored stored accepted
  refine build_eq_computeState (cacheAfter_coherent queries) first.le ?_ now wallet
  rw [buildLatestBlockId]
  split <;> omega

theorem computeState_of_stored (stored : StoredAs env db chain) (accepted : Accepts env chain)
    (now : Int) (wallet : Text) {stop : Int}
    (covers : stop ≤ 0 ∨ ∀ block ∈ chain, block.number ≤ stop) :
    computeState env db now wallet stop =
      { finish (walkedProgress env db wallet stop chain) wallet now with
        latestBlock := chain.getLast?.getD .missing
        connectedBlockCount := chain.length } :=
  computeState_of_visited
    (stored.visitedBlocks_all (ascending_of_accepts accepted) (accepts_iff.mp accepted).1 covers)
    now wallet

/-- The balances at a checkpoint are those of the chain up to it. -/
theorem balancesThroughBlock_of_stored (stored : StoredAs env db chain)
    (accepted : Accepts env chain) {checkpoint : Int} (above : getFirstBlockId db ≤ checkpoint) :
    balancesThroughBlock env db checkpoint =
      ((chain.takeWhile (fun block => !decide (checkpoint < block.number))).foldl
        (fun progress block => block.records.foldl (balanceRound block) progress) (∅, ∅)).1 := by
  have ascending := ascending_of_accepts accepted
  obtain ⟨first, latest⟩ := ends_of_stored stored accepted
  rw [balancesThroughBlock]
  dsimp only
  rw [if_neg (by omega), stored.walk_eq ascending (accepts_iff.mp accepted).1]
  · intro tip last
    rw [stored.latest tip last]
    simp
  · intro before parent child after place isLast
    have below := stored.below_latest ascending place
    rw [decide_eq_true_eq] at isLast
    omega

end Stored

end Safire.LedgerState
