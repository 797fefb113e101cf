/-
How many requests a pull makes.

Every turn of a pull that goes round again has received a block, so the budget of
blocks bounds the requests, whatever the peer answers.
-/

import Safire.SyncRuns

namespace Safire.LocalPeerClient

open Text Turns

variable {ω : Type} {env : Env} {calls : Calls ω} {sync : Sync ω}

/-- A counter outside the node that only a request raises, by one. -/
def Counts (calls : Calls ω) (requests : ω → Nat) : Prop :=
  ∀ url world, requests (calls.httpGet url world).2.outside ≤ requests world.outside + 1

variable {requests : ω → Nat} (counts : Counts calls requests)

/-- The requests that were made until the variables had these values. -/
def Sync.spent (requests : ω → Nat) (sync : Sync ω) : Nat :=
  requests sync.world.outside

theorem spent_repaired : (sync.repaired env calls).spent requests = sync.spent requests := by
  rw [Sync.repaired]
  dsimp only
  split <;> rfl

include counts in
theorem spent_ask (sync : Sync ω) (url : Text) : (sync.ask calls url).2.spent requests ≤ sync.spent requests + 1 :=
  counts url sync.world

include counts in
theorem spent_requestAfter (peer hash : Text) (limit : Int) :
    (sync.requestAfter calls peer hash limit).2.spent requests ≤ sync.spent requests + 2 := by
  rw [Sync.requestAfter]
  split
  · exact (spent_ask counts _ _).trans (Nat.add_le_add_right (spent_ask counts _ _) 1)
  · exact (spent_ask counts _ _).trans (Nat.le_succ _)

/-! ### Along the chain of the peer -/

theorem spent_storeBatch (assigns : Assigns) (most : Int) (blocks : List Block) (download : Download ω) :
    (storeBatch env calls assigns most blocks download).toSync.spent requests =
      download.toSync.spent requests := by
  induction blocks generalizing download with
  | nil => rfl
  | cons block rest ih =>
      rw [storeBatch]
      split
      · rfl
      split
      · cases assigns <;> rfl
      · rw [ih]
        rfl

theorem spent_storePulled (assigns : Assigns) (most : Int) (response : Text) (download : Download ω) :
    (storePulled env calls assigns most response download).state.toSync.spent requests =
      download.toSync.spent requests := by
  rw [storePulled]
  split
  · rfl
  dsimp only
  split <;> exact spent_storeBatch assigns most _ download

include counts in
theorem spent_pullFrom (env : Env) (assigns : Assigns) (peer : Text) (latest most : Int) (block : Block)
    (sync : Sync ω) :
    (pullFrom env calls assigns peer latest most block sync).state.toSync.spent requests ≤
      sync.spent requests + 2 * (most - 1).toNat := by
  refine loop_cost (falls_pullTurn assigns peer latest most)
    (fun download => download.toSync.spent requests) ?_ ?_ _
  · intro download entered
    simp only [keepsPulling, Bool.and_eq_true, decide_eq_true_eq] at entered
    rw [budget]
    omega
  · intro download _
    rw [pullTurn, spent_storePulled]
    exact spent_requestAfter counts _ _ _

/-- The most requests of a pull along the chain of the peer. -/
def pullRequests (most : Int) : Nat :=
  1 + 2 * (most - 1).toNat

include counts in
theorem spent_first (url : Text) (more : Nat) (changed : Bool) (world : World ω) :
    ((Sync.ofWorld changed world).ask calls url).2.spent requests ≤ requests world.outside + (1 + more) :=
  (spent_ask counts (.ofWorld changed world) url).trans
    (Nat.add_le_add_left (Nat.le_add_right 1 more) _)

include counts in
theorem spent_canonical (peer : Text) (latest most : Int) (changed : Bool) (world : World ω) :
    requests (pullPeerCanonicalChain env calls peer latest most changed world).world.outside ≤
      requests world.outside + pullRequests most := by
  have asked := spent_ask counts (.ofWorld changed world) (peer ++ "/api/blocks/first".toList)
  have early := spent_first counts (peer ++ "/api/blocks/first".toList) (2 * (most - 1).toNat) changed world
  have start : (Sync.ofWorld changed world).spent requests = requests world.outside := rfl
  rw [start] at asked
  rw [pullPeerCanonicalChain]
  generalize (Sync.ofWorld changed world).ask calls (peer ++ "/api/blocks/first".toList) = answer
    at asked early
  obtain ⟨response, heard⟩ := answer
  dsimp only at asked early ⊢
  split
  · exact early
  split
  · exact early
  case h_2 peerBlock _ _ =>
    split
    · exact early
    split
    · exact early
    · have pulled := spent_pullFrom counts env .before peer latest most peerBlock heard
      change (Sync.repaired env calls _).spent requests ≤ _
      rw [spent_repaired, pullRequests]
      omega

include counts in
theorem spent_fromBlock (env : Env) (peer : Text) (first latest most : Int) (changed : Bool) (world : World ω) :
    requests (pullPeerCanonicalChainFromBlock env calls peer first latest most changed world).world.outside ≤
      requests world.outside + pullRequests most := by
  have asked := spent_ask counts (.ofWorld changed world) (peer ++ "/api/blocks/".toList ++ ofLong first)
  have early := spent_first counts (peer ++ "/api/blocks/".toList ++ ofLong first)
    (2 * (most - 1).toNat) changed world
  have start : (Sync.ofWorld changed world).spent requests = requests world.outside := rfl
  rw [start] at asked
  rw [pullPeerCanonicalChainFromBlock]
  split
  · exact Nat.le_add_right _ _
  generalize (Sync.ofWorld changed world).ask calls (peer ++ "/api/blocks/".toList ++ ofLong first) = answer
    at asked early
  obtain ⟨response, heard⟩ := answer
  dsimp only at asked early ⊢
  split
  · exact early
  split
  · exact early
  case h_2 peerBlock _ _ =>
    split
    · exact early
    · have pulled := spent_pullFrom counts env .after peer latest most peerBlock heard
      change (Sync.repaired env calls _).spent requests ≤ _
      rw [spent_repaired, pullRequests]
      omega

/-! ### From the own tip -/

theorem spent_storeParsedBlocks (blocks : List Block) (sync : Sync ω) :
    (storeParsedBlocks env calls blocks sync).2.spent requests = sync.spent requests := by
  have each : ∀ (blocks : List Block) (progress : Int × Sync ω),
      (blocks.foldl (storeParsedBlock env calls) progress).2.spent requests =
        progress.2.spent requests := by
    intro blocks
    induction blocks with
    | nil => exact fun _ => rfl
    | cons block rest ih =>
        intro progress
        rw [List.foldl_cons, ih, storeParsedBlock]
        split <;> rfl
  exact each blocks (0, sync)

theorem spent_storeLinked (response : Text) (linked : Linked ω) :
    (storeLinked env calls response linked).state.toSync.spent requests =
      linked.toSync.spent requests := by
  rw [storeLinked]
  split
  · rfl
  have stored : (storeParsedBlocks env calls (parseBlockJson env response) linked.toSync).2.spent
      requests = linked.toSync.spent requests := spent_storeParsedBlocks _ _
  generalize storeParsedBlocks env calls (parseBlockJson env response) linked.toSync = result at stored
  obtain ⟨storedCount, read⟩ := result
  dsimp only at stored ⊢
  generalize counting : Sync.refreshed { read with
    received := read.received + max 1 ((parseBlockJson env response).length : Int) } = counted
  have same : counted.spent requests = read.spent requests := by
    rw [← counting]
    rfl
  generalize raising : (if counted.latestBlockId ≤ linked.latestBlockId then counted.repaired env calls
    else counted) = raised
  have kept : raised.spent requests = linked.toSync.spent requests := by
    rw [← raising, ← stored, ← same]
    split
    · exact spent_repaired
    · rfl
  split
  · exact kept
  split
  · exact kept
  · exact kept

include counts in
theorem spent_linked (peer : Text) (latest most : Int) (changed : Bool) (world : World ω) :
    requests (pullPeerHashLinkedFromTip env calls peer latest most changed world).world.outside ≤
      requests world.outside + 2 * most.toNat := by
  let start : Linked ω := { Sync.ofWorld changed world with progressed := false }
  have whole : linkedBudget most start = most.toNat := by
    rw [linkedBudget]
    exact congrArg Int.toNat (Int.sub_zero most)
  have spent : (linkedLoop env calls peer latest most start).state.toSync.spent requests ≤
      start.toSync.spent requests + 2 * linkedBudget most start := by
    refine loop_cost (falls_linkedTurn peer latest most) (fun linked => linked.toSync.spent requests)
      ?_ ?_ start
    · intro linked entered
      have room := of_decide_eq_true entered
      rw [linkedBudget]
      omega
    · intro linked _
      rw [linkedTurn]
      dsimp only
      split
      · exact Nat.le_add_right _ _
      split
      · exact Nat.le_add_right _ _
      · rw [spent_storeLinked]
        exact spent_requestAfter counts _ _ _
  rw [whole] at spent
  exact spent

/-! ### Number by number -/

theorem spent_storeNumbered (blocks : List Block) (sync : Sync ω) :
    (blocks.foldl (storeNumbered env calls) sync).spent requests = sync.spent requests := by
  induction blocks generalizing sync with
  | nil => rfl
  | cons block rest ih =>
      rw [List.foldl_cons, ih, storeNumbered]
      split <;> rfl

include counts in
theorem spent_scanRange (peer : Text) (latest most : Int) (scans : Nat) (blockId : Int) (sync : Sync ω) :
    (scanRange env calls peer latest most scans blockId sync).spent requests ≤
      sync.spent requests + scans := by
  induction scans generalizing blockId sync with
  | zero => exact le_refl _
  | succ scans ih =>
      have asked := spent_ask counts sync (peer ++ "/api/blocks/".toList ++ ofLong blockId)
      rw [scanRange]
      split
      · dsimp only
        generalize sync.ask calls (peer ++ "/api/blocks/".toList ++ ofLong blockId) = answer at asked
        generalize storing : (if answer.1 = [] then answer.2
          else (parseBlockJson env answer.1).foldl (storeNumbered env calls) answer.2) = stored
        have same : stored.spent requests = answer.2.spent requests := by
          rw [← storing]
          split
          · rfl
          · exact spent_storeNumbered _ _
        have later := ih (blockId + 1) stored
        omega
      · exact Nat.le_add_right _ _

include counts in
theorem spent_range (peer : Text) (first latest most : Int) (changed : Bool) (world : World ω) :
    requests (pullPeerBlocksByNumberRange env calls peer first latest most changed world).world.outside ≤
      requests world.outside + maxBlockNumberRepairScan := by
  rw [pullPeerBlocksByNumberRange]
  split
  · exact Nat.le_add_right _ _
  · change (Sync.repaired env calls _).spent requests ≤ _
    rw [spent_repaired]
    exact spent_scanRange counts _ _ _ _ _ _

/-! ### Around the tip -/

include counts in
theorem spent_pullWindow (peer : Text) (first own latest most : Int) (changed : Bool) (world : World ω) :
    requests (pullWindow env calls peer first own latest most changed world).world.outside ≤
      requests world.outside + (pullRequests most + maxBlockNumberRepairScan) := by
  have chain := spent_fromBlock counts env peer (max first (own - forkRepairLookbackSlots)) latest
    most changed world
  rw [pullWindow]
  split
  · exact chain.trans (Nat.add_le_add_left (Nat.le_add_right _ _) _)
  · refine (spent_range counts _ _ _ _ _ _).trans ?_
    omega

include counts in
theorem spent_window (peer : Text) (first own latest most : Int) (changed : Bool) (world : World ω) :
    requests (pullPeerForkRepairWindow env calls peer first own latest most changed world).world.outside ≤
      requests world.outside + (2 * pullRequests most + maxBlockNumberRepairScan) := by
  rw [pullPeerForkRepairWindow]
  split
  · exact Nat.le_add_right _ _
  dsimp only
  split
  · have parent := spent_fromBlock counts env peer
      (getBlock env world.node.db own).previousBlockId latest most changed world
    split
    · omega
    · refine (spent_pullWindow counts _ _ _ _ _ _ _).trans ?_
      omega
  · refine (spent_pullWindow counts _ _ _ _ _ _ _).trans ?_
    omega

/-- Whatever the peer answers, a pull with a budget of blocks ends after a number of
requests that the budget bounds. -/
theorem pulls_bounded (counts : Counts calls requests) (peer : Text) (first own latest most : Int)
    (changed : Bool) (world : World ω) :
    requests (pullPeerHashLinkedFromTip env calls peer latest most changed world).world.outside ≤
        requests world.outside + 2 * most.toNat ∧
      requests (pullPeerCanonicalChain env calls peer latest most changed world).world.outside ≤
        requests world.outside + pullRequests most ∧
      requests (pullPeerForkRepairWindow env calls peer first own latest most changed world).world.outside ≤
        requests world.outside + (2 * pullRequests most + maxBlockNumberRepairScan) :=
  ⟨spent_linked counts peer latest most changed world, spent_canonical counts peer latest most changed world,
    spent_window counts peer first own latest most changed world⟩

end Safire.LocalPeerClient

namespace Safire.Sample

open ChainValidator LocalPeerClient

/-- The honest peer with a count of the requests. -/
def countedPeer : Calls Nat where
  running _ := true
  syncLocked _ := false
  peerSyncBackoffActive _ := false
  now _ := 0
  ambient _ := sampleAmbient
  httpGet path world := (answer path, { world with outside := world.outside + 1 })
  pullPeerHashLinkedFromTip _ _ _ changed world := ⟨false, changed, world⟩
  pullPeerForkRepairWindow _ _ _ _ _ changed world := ⟨false, changed, world⟩
  pullPeerCanonicalChain _ _ _ changed world := ⟨false, changed, world⟩
  notePeerSyncProgress outside := outside
  notePeerSyncStall outside := outside
  mergePeerStatus _ _ outside := outside
  setLastError _ _ outside := outside

theorem countedPeer_bounded :
    (pullPeerHashLinkedFromTip Sample.env countedPeer peerUrl 101 5000 false ⟨started, 0⟩).world.outside ≤
        0 + 2 * 5000 ∧
      (pullPeerCanonicalChain Sample.env countedPeer peerUrl 101 5000 false ⟨started, 0⟩).world.outside ≤
        0 + pullRequests 5000 ∧
      (pullPeerForkRepairWindow Sample.env countedPeer peerUrl 100 100 101 5000 false
        ⟨started, 0⟩).world.outside ≤ 0 + (2 * pullRequests 5000 + maxBlockNumberRepairScan) := by
  have counts : Counts countedPeer (fun outside => outside) := fun _ _ => le_refl _
  exact pulls_bounded counts peerUrl 100 100 101 5000 false ⟨started, 0⟩

end Safire.Sample
