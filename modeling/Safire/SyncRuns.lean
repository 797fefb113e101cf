/-
What a synchronisation does to the node.

Whatever the peer answers, the store is changed only by the steps of the other
theorems: blocks that the peer sent are added, the index is rebuilt, a stored tip is
adopted. While an answer is awaited, other threads may take such steps too.
-/

import Safire.PeerPulls
import Safire.StoreGrowth

namespace Safire

open ChainValidator

/-! ### Steps between two nodes -/

/-- One step that adds no block but an allowed one. -/
def Moves (env : Env) (allowed : Block → Prop) (node after : Node) : Prop :=
  ∃ step : ChainStep, step.Adds allowed ∧ after = step.apply env node

def Steps (env : Env) (allowed : Block → Prop) : Node → Node → Prop :=
  Relation.ReflTransGen (Moves env allowed)

variable {env : Env} {allowed : Block → Prop} {node after : Node}

theorem Steps.one (step : ChainStep) (adds : step.Adds allowed) :
    Steps env allowed node (step.apply env node) :=
  Relation.ReflTransGen.single ⟨step, adds, rfl⟩

theorem storeBlock_steps {block : Block} (allows : allowed block) (ambient : Ambient) :
    Steps env allowed node (storeBlock env ambient node block).2 := by
  have added : Steps env allowed node (addBlock env ambient node block).2 :=
    Steps.one (.addBlock ambient block) allows
  rw [storeBlock]
  split
  · exact .refl
  split
  · exact .refl
  cases result : addBlock env ambient node block with
  | mk verdict next =>
      rw [result] at added
      cases verdict with
      | error reason => exact added
      | ok =>
          dsimp only
          split
          · exact added.trans (Steps.one (.setFirstBlockId block.number) trivial)
          · exact added

/-- The steps of a list lead from the node to the last one. -/
theorem exists_run (steps : Steps env allowed node after) :
    ∃ list : List ChainStep, (∀ step ∈ list, step.Adds allowed) ∧ after = runSteps env node list := by
  induction steps with
  | refl => exact ⟨[], fun _ member => absurd member List.not_mem_nil, rfl⟩
  | tail _ moved ih =>
      obtain ⟨list, adds, rfl⟩ := ih
      obtain ⟨step, allows, rfl⟩ := moved
      refine ⟨list ++ [step], ?_, ?_⟩
      · intro other member
        rcases List.mem_append.mp member with earlier | last
        · exact adds other earlier
        · rw [List.mem_singleton.mp last]
          exact allows
      · rw [runSteps, runSteps, List.foldl_append, List.foldl_cons, List.foldl_nil]

namespace LocalPeerClient

open Text Turns

variable {ω : Type} {calls : Calls ω} {plan : Plan} {sync : Sync ω}

/-- The blocks that a text is parsed into. -/
def Sends (env : Env) (allowed : Block → Prop) (response : Text) : Prop :=
  ∀ block ∈ parseBlockJson env response, allowed block

/-- What is heard is allowed, and while it is awaited only allowed steps are taken. -/
structure Hears (env : Env) (allowed : Block → Prop) (calls : Calls ω) : Prop where
  sends : ∀ url world, Sends env allowed (calls.httpGet url world).1
  waits : ∀ url world, Steps env allowed world.node (calls.httpGet url world).2.node

/-- The pulls take only allowed steps. -/
structure PullsBy (env : Env) (allowed : Block → Prop) (calls : Calls ω) : Prop where
  hashLinked : ∀ peer latest most changed world,
    Steps env allowed world.node (calls.pullPeerHashLinkedFromTip peer latest most changed world).world.node
  window : ∀ peer first own latest most changed world, Steps env allowed world.node
    (calls.pullPeerForkRepairWindow peer first own latest most changed world).world.node
  canonical : ∀ peer latest most changed world,
    Steps env allowed world.node (calls.pullPeerCanonicalChain peer latest most changed world).world.node

/-- The variables of a call that has taken allowed steps. -/
def Came (env : Env) (allowed : Block → Prop) (node : Node) (sync : Sync ω) : Prop :=
  Steps env allowed node sync.world.node

namespace Came

variable (came : Came env allowed node sync)

include came

theorem refreshed : Came env allowed node sync.refreshed :=
  came

theorem noteProgress : Came env allowed node (sync.noteProgress calls) :=
  came

theorem noteStall : Came env allowed node (sync.noteStall calls) :=
  came

theorem repaired : Came env allowed node (sync.repaired env calls) := by
  have moved : Steps env allowed sync.world.node
      { sync.world.node with
        db := (rebuildBestChainIndex env (calls.now sync.world.outside) sync.world.node.db).2 } :=
    Steps.one (.rebuildBestChainIndex _) trivial
  rw [Sync.repaired]
  dsimp only
  split
  · exact Relation.ReflTransGen.trans came moved
  · exact Relation.ReflTransGen.trans came moved

theorem adopted (status : PeerStatus) : Came env allowed node (sync.adopted env calls status) := by
  have moved : Steps env allowed sync.world.node
      { sync.world.node with db := (adoptStoredChainEndingAtHash env
        (calls.now sync.world.outside) sync.world.node.db status.latestBlockHash).2 } :=
    Steps.one (.adoptStoredChainEndingAtHash _ _) trivial
  refine Relation.ReflTransGen.trans came ?_
  rw [Sync.adopted, adoptStoredPeerTip]
  dsimp only
  split
  · exact .refl
  cases adoption : adoptStoredChainEndingAtHash env (calls.now sync.world.outside)
      sync.world.node.db status.latestBlockHash with
  | mk found db =>
      rw [adoption] at moved
      cases found with
      | none => exact moved
      | some adoptedTipId =>
          dsimp only
          split
          · exact moved
          · exact moved

theorem take {pull : Pull ω} (pulled : Steps env allowed sync.world.node pull.world.node) :
    Came env allowed node (sync.take pull) :=
  Relation.ReflTransGen.trans came pulled

theorem store {block : Block} (allows : allowed block) :
    Came env allowed node (sync.store env calls block) :=
  Relation.ReflTransGen.trans came (storeBlock_steps allows _)

theorem ask (hears : Hears env allowed calls) (url : Text) :
    Came env allowed node (sync.ask calls url).2 :=
  Relation.ReflTransGen.trans came (hears.waits url sync.world)

theorem requestAfter (hears : Hears env allowed calls) (peer hash : Text) (limit : Int) :
    Came env allowed node (sync.requestAfter calls peer hash limit).2 := by
  rw [Sync.requestAfter]
  split
  · exact (came.ask hears _).ask hears _
  · exact came.ask hears _

end Came

theorem sends_requestAfter (hears : Hears env allowed calls) (peer hash : Text) (limit : Int) :
    Sends env allowed (sync.requestAfter calls peer hash limit).1 := by
  rw [Sync.requestAfter]
  split
  · exact hears.sends _ _
  · exact hears.sends _ _

/-! ### The pulls -/

section Pulls

theorem Came.mark {assigns : Assigns} {block : Block} {download : Download ω}
    (came : Came env allowed node download.toSync) :
    Came env allowed node (assigns.mark block download).toSync := by
  cases assigns with
  | before => exact came
  | after => exact came

theorem Came.storeBatch {assigns : Assigns} {most : Int} {blocks : List Block}
    (allows : ∀ block ∈ blocks, allowed block) {download : Download ω}
    (came : Came env allowed node download.toSync) :
    Came env allowed node (storeBatch env calls assigns most blocks download).toSync := by
  induction blocks generalizing download with
  | nil => exact came
  | cons block rest ih =>
      have parts := List.forall_mem_cons.mp allows
      rw [LocalPeerClient.storeBatch]
      split
      · exact came
      split
      · exact came.mark
      · exact ih parts.2 (came.store parts.1)

theorem Came.storePulled {assigns : Assigns} {most : Int} {response : Text} {download : Download ω}
    (sends : Sends env allowed response) (came : Came env allowed node download.toSync) :
    Came env allowed node (storePulled env calls assigns most response download).state.toSync := by
  rw [LocalPeerClient.storePulled]
  split
  · exact came
  dsimp only
  split
  · exact came.storeBatch sends
  · exact came.storeBatch sends

theorem Came.pullTurn (hears : Hears env allowed calls) {assigns : Assigns} {peer : Text} {most : Int}
    {download : Download ω} (came : Came env allowed node download.toSync) :
    Came env allowed node (pullTurn env calls assigns peer most download).state.toSync := by
  have answered : Came env allowed node { download with toSync := (download.toSync.requestAfter calls
      peer download.peerBlock.hash (requestLimit most download.received)).2 }.toSync :=
    came.requestAfter hears _ _ _
  exact answered.storePulled (sends_requestAfter hears _ _ _)

theorem received_mark (assigns : Assigns) (block : Block) (download : Download ω) :
    (assigns.mark block download).received = download.received := by
  cases assigns <;> rfl

theorem le_received_storeBatch {assigns : Assigns} {most : Int} {blocks : List Block}
    (download : Download ω) :
    download.received ≤ (storeBatch env calls assigns most blocks download).received := by
  induction blocks generalizing download with
  | nil => exact le_refl _
  | cons block rest ih =>
      rw [storeBatch]
      split
      · exact le_refl _
      split
      · exact (received_mark assigns block download).ge
      · exact le_trans (Int.le_add_one (le_refl _)) (ih _)

theorem received_requestAfter (peer hash : Text) (limit : Int) :
    (sync.requestAfter calls peer hash limit).2.received = sync.received := by
  rw [Sync.requestAfter]
  split <;> rfl

theorem received_of_storePulled {assigns : Assigns} {most : Int} {response : Text}
    {download next : Download ω} (turn : storePulled env calls assigns most response download = .again next) :
    download.received < next.received := by
  rw [storePulled] at turn
  split at turn
  · cases turn
  dsimp only at turn
  split at turn
  · cases turn
  case isFalse went =>
    cases turn
    exact lt_of_le_of_ne (le_received_storeBatch download) (Ne.symm (not_or.mp went).1)

theorem falls_pullTurn (assigns : Assigns) (peer : Text) (latest most : Int) :
    Falls (keepsPulling latest most) (pullTurn env calls assigns peer most) (budget (ω := ω) most) := by
  intro download next entered turn
  have room : download.received < most := by
    simp only [keepsPulling, Bool.and_eq_true, decide_eq_true_eq] at entered
    exact entered.2
  have more := received_of_storePulled turn
  rw [received_requestAfter] at more
  rw [budget, budget]
  omega

theorem Came.pullFrom (hears : Hears env allowed calls) {assigns : Assigns} {peer : Text}
    {latest most : Int} {block : Block} (allows : allowed block) (came : Came env allowed node sync) :
    Came env allowed node (pullFrom env calls assigns peer latest most block sync).state.toSync :=
  loop_invariant (falls_pullTurn assigns peer latest most)
    (fun download => Came env allowed node download.toSync)
    (fun _ before _ => Came.pullTurn hears before) _ (came.store allows)

theorem came_ofWorld (changed : Bool) (world : World ω) :
    Came env allowed world.node (.ofWorld changed world) :=
  Relation.ReflTransGen.refl

theorem canonical_steps (hears : Hears env allowed calls) (peer : Text) (latest most : Int)
    (changed : Bool) (world : World ω) : Steps env allowed world.node
      (pullPeerCanonicalChain env calls peer latest most changed world).world.node := by
  have asked := (came_ofWorld changed world).ask hears (peer ++ "/api/blocks/first".toList)
  have sends := hears.sends (peer ++ "/api/blocks/first".toList) world
  rw [pullPeerCanonicalChain]
  change Sends env allowed ((Sync.ofWorld changed world).ask calls
    (peer ++ "/api/blocks/first".toList)).1 at sends
  cases answer : (Sync.ofWorld changed world).ask calls (peer ++ "/api/blocks/first".toList) with
  | mk response heard =>
      rw [answer] at asked sends
      dsimp only
      split
      · exact asked
      cases blocks : parseBlockJson env response with
      | nil => exact asked
      | cons peerBlock rest =>
          rw [Sends, blocks] at sends
          dsimp only
          split
          · exact asked
          split
          · exact asked
          · exact (asked.pullFrom hears (sends peerBlock List.mem_cons_self)).repaired

theorem fromBlock_steps (hears : Hears env allowed calls) (peer : Text) (start latest most : Int)
    (changed : Bool) (world : World ω) : Steps env allowed world.node
      (pullPeerCanonicalChainFromBlock env calls peer start latest most changed world).world.node := by
  have asked := (came_ofWorld changed world).ask hears (peer ++ "/api/blocks/".toList ++ ofLong start)
  have sends := hears.sends (peer ++ "/api/blocks/".toList ++ ofLong start) world
  rw [pullPeerCanonicalChainFromBlock]
  change Sends env allowed ((Sync.ofWorld changed world).ask calls
    (peer ++ "/api/blocks/".toList ++ ofLong start)).1 at sends
  split
  · exact .refl
  cases answer : (Sync.ofWorld changed world).ask calls
      (peer ++ "/api/blocks/".toList ++ ofLong start) with
  | mk response heard =>
      rw [answer] at asked sends
      dsimp only
      split
      · exact asked
      cases blocks : parseBlockJson env response with
      | nil => exact asked
      | cons peerBlock rest =>
          rw [Sends, blocks] at sends
          dsimp only
          split
          · exact asked
          · exact (asked.pullFrom hears (sends peerBlock List.mem_cons_self)).repaired

theorem Came.storeParsedBlocks {blocks : List Block} (allows : ∀ block ∈ blocks, allowed block)
    (came : Came env allowed node sync) :
    Came env allowed node (storeParsedBlocks env calls blocks sync).2 := by
  have each : ∀ (blocks : List Block) (progress : Int × Sync ω), (∀ block ∈ blocks, allowed block) →
      Came env allowed node progress.2 →
      Came env allowed node (blocks.foldl (storeParsedBlock env calls) progress).2 := by
    intro blocks
    induction blocks with
    | nil => exact fun _ _ came => came
    | cons block rest ih =>
        intro progress allows came
        have parts := List.forall_mem_cons.mp allows
        rw [List.foldl_cons]
        refine ih _ parts.2 ?_
        rw [storeParsedBlock]
        split
        · exact came
        · exact came.store parts.1
  exact each blocks (0, sync) allows came

theorem Came.storeLinked {response : Text} {linked : Linked ω} (sends : Sends env allowed response)
    (came : Came env allowed node linked.toSync) :
    Came env allowed node (storeLinked env calls response linked).state.toSync := by
  rw [LocalPeerClient.storeLinked]
  split
  · exact came
  have stored : Came env allowed node
      (LocalPeerClient.storeParsedBlocks env calls (parseBlockJson env response) linked.toSync).2 :=
    came.storeParsedBlocks sends
  generalize LocalPeerClient.storeParsedBlocks env calls (parseBlockJson env response)
    linked.toSync = result at stored
  obtain ⟨storedCount, read⟩ := result
  dsimp only
  generalize counting : Sync.refreshed { read with
    received := read.received + max 1 ((parseBlockJson env response).length : Int) } = counted
  have reached : Came env allowed node counted := counting ▸ stored
  generalize raising : (if counted.latestBlockId ≤ linked.latestBlockId then counted.repaired env calls
    else counted) = raised
  have repaired : Came env allowed node raised := by
    rw [← raising]
    split
    · exact reached.repaired
    · exact reached
  split
  · exact repaired
  split
  · exact repaired
  · exact repaired

theorem Came.linkedTurn (hears : Hears env allowed calls) {peer : Text} {latest most : Int}
    {linked : Linked ω} (came : Came env allowed node linked.toSync) :
    Came env allowed node (linkedTurn env calls peer latest most linked).state.toSync := by
  rw [LocalPeerClient.linkedTurn]
  dsimp only
  split
  · exact came
  split
  · exact came
  · exact (came.refreshed.requestAfter hears _ _ _).storeLinked (sends_requestAfter hears _ _ _)

theorem received_repaired (sync : Sync ω) : (sync.repaired env calls).received = sync.received := by
  rw [Sync.repaired]
  dsimp only
  split <;> rfl

theorem received_storeParsedBlocks (blocks : List Block) (sync : Sync ω) :
    (storeParsedBlocks env calls blocks sync).2.received = sync.received := by
  have each : ∀ (blocks : List Block) (progress : Int × Sync ω),
      (blocks.foldl (storeParsedBlock env calls) progress).2.received = progress.2.received := by
    intro blocks
    induction blocks with
    | nil => exact fun _ => rfl
    | cons block rest ih =>
        intro progress
        rw [List.foldl_cons, ih, storeParsedBlock]
        split <;> rfl
  exact each blocks (0, sync)

theorem received_of_storeLinked {response : Text} {linked next : Linked ω}
    (turn : storeLinked env calls response linked = .again next) : linked.received < next.received := by
  rw [storeLinked] at turn
  split at turn
  · cases turn
  have stored : (storeParsedBlocks env calls (parseBlockJson env response) linked.toSync).2.received =
      linked.received := received_storeParsedBlocks _ _
  generalize storeParsedBlocks env calls (parseBlockJson env response) linked.toSync = result
    at stored turn
  obtain ⟨storedCount, read⟩ := result
  dsimp only at turn stored
  generalize counting : Sync.refreshed { read with
    received := read.received + max 1 ((parseBlockJson env response).length : Int) } = counted at turn
  have counts : linked.received < counted.received := by
    have above : linked.received < read.received + max 1 ((parseBlockJson env response).length : Int) := by
      omega
    rw [← counting]
    exact above
  generalize raising : (if counted.latestBlockId ≤ linked.latestBlockId then counted.repaired env calls
    else counted) = raised at turn
  have kept : raised.received = counted.received := by
    rw [← raising]
    split
    · exact received_repaired counted
    · rfl
  split at turn
  · cases turn
    exact kept ▸ counts
  split at turn
  · cases turn
  · cases turn
    exact kept ▸ counts

theorem falls_linkedTurn (peer : Text) (latest most : Int) :
    Falls (fun linked : Linked ω => decide (linked.received < most))
      (linkedTurn env calls peer latest most) (linkedBudget most) := by
  intro linked next entered turn
  have room := of_decide_eq_true entered
  rw [linkedTurn] at turn
  dsimp only at turn
  split at turn
  · cases turn
  split at turn
  · cases turn
  have more := received_of_storeLinked turn
  dsimp only at more
  rw [received_requestAfter] at more
  have same : linked.toSync.refreshed.received = linked.received := rfl
  rw [linkedBudget, linkedBudget]
  omega

theorem hashLinked_steps (hears : Hears env allowed calls) (peer : Text) (latest most : Int)
    (changed : Bool) (world : World ω) : Steps env allowed world.node
      (pullPeerHashLinkedFromTip env calls peer latest most changed world).world.node :=
  loop_invariant (falls_linkedTurn peer latest most)
    (fun linked => Came env allowed world.node linked.toSync)
    (fun _ before _ => Came.linkedTurn hears before) _ (came_ofWorld changed world)

theorem Came.storeNumbered {blocks : List Block} (allows : ∀ block ∈ blocks, allowed block)
    (came : Came env allowed node sync) :
    Came env allowed node (blocks.foldl (storeNumbered env calls) sync) := by
  induction blocks generalizing sync with
  | nil => exact came
  | cons block rest ih =>
      have parts := List.forall_mem_cons.mp allows
      rw [List.foldl_cons]
      refine ih parts.2 ?_
      rw [LocalPeerClient.storeNumbered]
      split
      · exact came.store parts.1
      · exact came

theorem Came.scanRange (hears : Hears env allowed calls) {peer : Text} {latest most : Int}
    (scans : Nat) {blockId : Int} (came : Came env allowed node sync) :
    Came env allowed node (scanRange env calls peer latest most scans blockId sync) := by
  induction scans generalizing blockId sync with
  | zero => exact came
  | succ scans ih =>
      rw [LocalPeerClient.scanRange]
      split
      · refine ih ?_
        have asked := came.ask hears (peer ++ "/api/blocks/".toList ++ ofLong blockId)
        split
        · exact asked
        · exact asked.storeNumbered (hears.sends _ _)
      · exact came

theorem range_steps (hears : Hears env allowed calls) (peer : Text) (start latest most : Int)
    (changed : Bool) (world : World ω) : Steps env allowed world.node
      (pullPeerBlocksByNumberRange env calls peer start latest most changed world).world.node := by
  rw [pullPeerBlocksByNumberRange]
  split
  · exact .refl
  · exact ((came_ofWorld changed world).scanRange hears _).repaired

theorem pullWindow_steps (hears : Hears env allowed calls) (peer : Text) (first own latest most : Int)
    (changed : Bool) (world : World ω) : Steps env allowed world.node
      (pullWindow env calls peer first own latest most changed world).world.node := by
  rw [pullWindow]
  split
  · exact fromBlock_steps hears _ _ _ _ _ _
  · exact (fromBlock_steps hears _ _ _ _ _ _).trans (range_steps hears _ _ _ _ _ _)

theorem window_steps (hears : Hears env allowed calls) (peer : Text) (first own latest most : Int)
    (changed : Bool) (world : World ω) : Steps env allowed world.node
      (pullPeerForkRepairWindow env calls peer first own latest most changed world).world.node := by
  rw [pullPeerForkRepairWindow]
  split
  · exact .refl
  dsimp only
  split
  · split
    · exact fromBlock_steps hears _ _ _ _ _ _
    · exact (fromBlock_steps hears _ _ _ _ _ _).trans (pullWindow_steps hears _ _ _ _ _ _ _)
  · exact pullWindow_steps hears _ _ _ _ _ _ _

theorem pullsBy_withPulls (hears : Hears env allowed calls) :
    PullsBy env allowed (withPulls env calls) where
  hashLinked := hashLinked_steps hears
  window := window_steps hears
  canonical := canonical_steps hears

theorem hears_withPulls (hears : Hears env allowed calls) : Hears env allowed (withPulls env calls) :=
  ⟨hears.sends, hears.waits⟩

end Pulls

/-! ### A turn of the synchronisation -/

section Turn

variable (hears : Hears env allowed calls) (pulls : PullsBy env allowed calls)

include pulls in
theorem Came.hashLinked (came : Came env allowed node sync) :
    Came env allowed node (sync.hashLinked calls plan) := by
  have taken := came.take (pulls.hashLinked plan.peer plan.peerLatestBlockId
    (maxBlocksPerSyncBatch - sync.received) sync.changed sync.world)
  rw [Sync.hashLinked]
  split
  · exact taken.refreshed
  · exact taken

include pulls in
theorem Came.forkRepaired (plan : Plan) (before : Int) (came : Came env allowed node sync) :
    Came env allowed node (sync.forkRepaired calls plan before).2 :=
  (came.take (pulls.window ..)).refreshed

include pulls in
theorem Came.canonicalPulled (most : Int) (came : Came env allowed node sync) :
    Came env allowed node (sync.canonicalPulled calls plan most) :=
  came.take (pulls.canonical ..)

include pulls in
theorem Came.repairFromTip {before : Int} {otherwise : Sync ω → Turn (Sync ω)}
    (came : Came env allowed node sync)
    (keeps : ∀ linked, Came env allowed node linked → Came env allowed node (otherwise linked).state) :
    Came env allowed node (repairFromTip env calls plan sync before otherwise).state := by
  rw [LocalPeerClient.repairFromTip]
  dsimp only
  split
  · exact came.refreshed
  split
  · exact came.refreshed.repaired
  split
  · exact came.refreshed.repaired.hashLinked pulls
  · exact keeps _ (came.refreshed.repaired.hashLinked pulls)

include pulls in
theorem Came.afterEmptyResponse (before : Int) (came : Came env allowed node sync) :
    Came env allowed node (afterEmptyResponse env calls plan before sync).state := by
  have repaired := came.forkRepaired pulls plan before
  rw [LocalPeerClient.afterEmptyResponse]
  generalize sync.forkRepaired calls plan before = result at repaired
  obtain ⟨pulled, window⟩ := result
  dsimp only at repaired ⊢
  generalize pulling : (if pulled = false ∨ window.latestBlockId ≤ before then
    window.canonicalPulled calls plan maxBlocksPerSyncBatch else window) = chain
  have chained : Came env allowed node chain := by
    rw [← pulling]
    split
    · exact repaired.canonicalPulled pulls _
    · exact repaired
  generalize adopting : (if chain.latestBlockId ≤ before then chain.adopted env calls plan.status
    else chain) = tip
  have tipped : Came env allowed node tip := by
    rw [← adopting]
    split
    · exact chained.adopted plan.status
    · exact chained
  split
  · exact tipped.refreshed.noteProgress
  · exact tipped.refreshed

include pulls in
theorem Came.afterNoBlocks (before : Int) (came : Came env allowed node sync) :
    Came env allowed node (afterNoBlocks env calls plan before sync).state := by
  have repaired := came.forkRepaired pulls plan before
  rw [LocalPeerClient.afterNoBlocks]
  generalize sync.forkRepaired calls plan before = result at repaired
  obtain ⟨pulled, window⟩ := result
  dsimp only at repaired ⊢
  generalize adopting : (if pulled = false ∨ window.latestBlockId ≤ before then
    (window.adopted env calls plan.status).refreshed else window) = tip
  have tipped : Came env allowed node tip := by
    rw [← adopting]
    split
    · exact (repaired.adopted plan.status).refreshed
    · exact repaired
  split
  · exact tipped
  · exact tipped.noteProgress

theorem Came.countBlocks (sawBlocks before : Int) (came : Came env allowed node sync) :
    Came env allowed node (countBlocks calls sawBlocks before sync) := by
  rw [LocalPeerClient.countBlocks]
  dsimp only
  split
  · exact came
  · exact came

include pulls in
theorem Came.afterBlocks (sawBlocks before : Int) (came : Came env allowed node sync) :
    Came env allowed node (afterBlocks env calls plan sawBlocks before sync).state := by
  rw [LocalPeerClient.afterBlocks]
  dsimp only
  have read := came.refreshed
  generalize sync.refreshed = current at read
  generalize rebuilding : (if current.latestBlockId ≤ before then current.repaired env calls
    else current) = rebuilt
  have repaired : Came env allowed node rebuilt := by
    rw [← rebuilding]
    split
    · exact read.repaired
    · exact read
  generalize linking : (if rebuilt.latestBlockId ≤ before then rebuilt.hashLinked calls plan
    else rebuilt) = linked
  have linkedCame : Came env allowed node linked := by
    rw [← linking]
    split
    · exact repaired.hashLinked pulls
    · exact repaired
  split
  · have windowed := linkedCame.forkRepaired pulls plan before
    generalize linked.forkRepaired calls plan before = result at windowed
    obtain ⟨pulled, window⟩ := result
    dsimp only at windowed ⊢
    generalize pulling : (if pulled = false ∨ window.latestBlockId ≤ before then
      (window.canonicalPulled calls plan (maxBlocksPerSyncBatch - window.received)).refreshed
      else window) = chain
    have chained : Came env allowed node chain := by
      rw [← pulling]
      split
      · exact (windowed.canonicalPulled pulls _).refreshed
      · exact windowed
    generalize adopting : (if chain.latestBlockId ≤ before then
      (chain.adopted env calls plan.status).refreshed else chain) = tip
    have tipped : Came env allowed node tip := by
      rw [← adopting]
      split
      · exact (chained.adopted plan.status).refreshed
      · exact chained
    split
    · exact tipped.noteStall
    · exact tipped.countBlocks _ _
  · exact linkedCame.countBlocks _ _

include hears in
theorem Came.getIntoSync (plan : Plan) (path : Text) (came : Came env allowed node sync) :
    Came env allowed node (getIntoSync calls plan path sync).2 :=
  came.ask hears _

include hears in
theorem sends_getIntoSync (plan : Plan) (path : Text) (sync : Sync ω) :
    Sends env allowed (getIntoSync calls plan path sync).1 :=
  hears.sends _ _

include hears in
theorem Came.requestBlocks (plan : Plan) (latestBlock : Block) (came : Came env allowed node sync) :
    Sends env allowed (requestBlocks calls plan latestBlock sync).1 ∧
      Came env allowed node (requestBlocks calls plan latestBlock sync).2 := by
  let Good (answer : Text × Sync ω) : Prop := Sends env allowed answer.1 ∧ Came env allowed node answer.2
  have retried (path : Text) {answer : Text × Sync ω} (good : Good answer) :
      Good (if answer.1 = [] ∧ 0 < latestBlock.hash.length then
        LocalPeerClient.getIntoSync calls plan path answer.2 else answer) := by
    split
    · exact ⟨sends_getIntoSync hears plan path _, good.2.getIntoSync hears plan path⟩
    · exact good
  exact retried _ (retried _ ⟨sends_getIntoSync hears plan _ _, came.getIntoSync hears plan _⟩)

include hears pulls in
theorem Came.syncTurn (came : Came env allowed node sync) :
    Came env allowed node (syncTurn env calls plan sync).state := by
  rw [LocalPeerClient.syncTurn]
  split
  · exact came
  split
  · exact came
  dsimp only
  have asked := came.requestBlocks hears plan (getBlock env sync.world.node.db sync.latestBlockId)
  generalize LocalPeerClient.requestBlocks calls plan (getBlock env sync.world.node.db sync.latestBlockId)
    sync = answer at asked
  obtain ⟨response, answered⟩ := answer
  dsimp only at asked ⊢
  split
  · exact asked.2.repairFromTip pulls fun _ linked => linked.afterEmptyResponse pulls _
  have stored : Came env allowed node
      (LocalPeerClient.storeParsedBlocks env calls (parseBlockJson env response) answered).2 :=
    asked.2.storeParsedBlocks asked.1
  generalize LocalPeerClient.storeParsedBlocks env calls (parseBlockJson env response) answered = result
    at stored
  obtain ⟨sawBlocks, taken⟩ := result
  dsimp only at stored ⊢
  split
  · exact stored.repairFromTip pulls fun _ linked => linked.afterNoBlocks pulls _
  · exact stored.afterBlocks pulls _ _

end Turn

/-! ### The call -/

section Call

/-- The node from which a call starts. A chain without a first block is dropped. -/
inductive Starts (node : Node) : Node → Prop where
  | same : Starts node node
  | dropped (first : getFirstBlockId node.db < 0) (latest : 0 ≤ getLatestBlockId node.db) :
      Starts node { node with db := ∅ }

/-- The node with which the code before the loop ends. -/
def Entry.reached : Entry ω → Node
  | .returned _ world => world.node
  | .entered _ start => start.world.node

variable (hears : Hears env allowed calls) (pulls : PullsBy env allowed calls)

include pulls in
theorem Came.returnAtTip (hash : Text) (came : Came env allowed node sync) :
    Steps env allowed node (returnAtTip env calls plan hash sync).reached := by
  rw [LocalPeerClient.returnAtTip]
  split
  · have windowed := came.forkRepaired pulls plan sync.latestBlockId
    generalize sync.forkRepaired calls plan sync.latestBlockId = result at windowed
    obtain ⟨pulled, window⟩ := result
    dsimp only at windowed ⊢
    generalize pulling : (if pulled = false ∨
      window.latestBlockId ≤ getLatestBlockId sync.world.node.db then
        window.canonicalPulled calls plan maxBlocksPerSyncBatch else window) = chain
    have chained : Came env allowed node chain := by
      rw [← pulling]
      split
      · exact windowed.canonicalPulled pulls _
      · exact windowed
    have tipped : Came env allowed node (chain.adopted env calls plan.status) :=
      chained.adopted plan.status
    generalize chain.adopted env calls plan.status = tip at tipped
    rw [Entry.reached]
    split
    · exact tipped
    · exact tipped
  · exact came

include hears in
theorem Came.storeFirstBlock (came : Came env allowed node sync) :
    Came env allowed node (storeFirstBlock env calls plan sync).2 := by
  rw [LocalPeerClient.storeFirstBlock]
  split
  · have asked := came.getIntoSync hears plan "/api/blocks/first".toList
    have sends := sends_getIntoSync hears plan "/api/blocks/first".toList sync
    generalize LocalPeerClient.getIntoSync calls plan "/api/blocks/first".toList sync = answer
      at asked sends
    obtain ⟨response, answered⟩ := answer
    dsimp only at asked sends ⊢
    refine Came.refreshed ?_
    have each : ∀ (blocks : List Block) (sync : Sync ω), (∀ block ∈ blocks, allowed block) →
        Came env allowed node sync →
        Came env allowed node (blocks.foldl (fun sync block => sync.store env calls block) sync) := by
      intro blocks
      induction blocks with
      | nil => exact fun _ _ came => came
      | cons block rest ih =>
          intro sync allows came
          have parts := List.forall_mem_cons.mp allows
          exact ih _ parts.2 (came.store parts.1)
    exact each _ answered sends asked
  · exact came

theorem Came.adoptOrRepair (came : Came env allowed node sync) :
    Came env allowed node (adoptOrRepair env calls plan sync) := by
  rw [LocalPeerClient.adoptOrRepair]
  split
  · exact (came.adopted plan.status).refreshed
  · exact (came.adopted plan.status).repaired

include hears pulls in
theorem Came.enterLoop (hash : Text) (came : Came env allowed node sync) :
    Steps env allowed node (enterLoop env calls plan hash sync).reached := by
  rw [LocalPeerClient.enterLoop]
  split
  · exact came.adoptOrRepair.returnAtTip pulls hash
  · exact came.adoptOrRepair.storeFirstBlock hears

include hears pulls in
theorem Came.checkLocalGenesis (hash : Text) (came : Came env allowed node sync) :
    Steps env allowed node (checkLocalGenesis env calls plan hash sync).reached := by
  rw [LocalPeerClient.checkLocalGenesis]
  split
  · exact came.enterLoop hears pulls hash
  dsimp only
  generalize pulling : (if (getBlock env sync.world.node.db plan.firstBlockId).number ≤ 0 ∨
      (getBlock env sync.world.node.db plan.firstBlockId).hash.length = 0 then
    ({ plan with firstBlockId :=
        getFirstBlockId (sync.canonicalPulled calls plan maxBlocksPerSyncBatch).refreshed.world.node.db },
      (sync.canonicalPulled calls plan maxBlocksPerSyncBatch).refreshed)
    else (plan, sync)) = result
  have pulled : Came env allowed node result.2 := by
    rw [← pulling]
    split
    · exact (came.canonicalPulled pulls _).refreshed
    · exact came
  split
  · exact pulled
  · exact pulled.enterLoop hears pulls hash

include hears pulls in
theorem checkPeer_steps (peer : Text) (first latest : Int) (world : World ω) :
    Steps env allowed world.node (checkPeer env calls peer first latest world).reached := by
  have asked : Steps env allowed world.node _ := hears.waits (peer ++ "/api/status".toList) world
  rw [checkPeer]
  dsimp only
  have again := asked.trans (hears.waits (peer ++ "/api/status".toList) _)
  split
  · exact again
  split
  · exact again
  split
  · exact again
  · exact Came.checkLocalGenesis hears pulls _ again

include hears pulls in
theorem beforeLoop_steps (peerUrl : Text) (world : World ω) : ∃ start, Starts world.node start ∧
    Steps env allowed start (beforeLoop env calls peerUrl world).reached := by
  rw [beforeLoop]
  dsimp only
  split
  · exact ⟨_, .same, .refl⟩
  split
  case isTrue broken =>
    exact ⟨_, .dropped broken.1 broken.2,
      checkPeer_steps hears pulls _ _ _ { world with node := { world.node with db := ∅ } }⟩
  · exact ⟨_, .same, checkPeer_steps hears pulls _ _ _ _⟩

theorem Came.finishSync (calls : Calls ω) (plan : Plan) (came : Came env allowed node sync) :
    Steps env allowed node (finishSync env calls plan sync).2.node := by
  have tipped : Came env allowed node (sync.adopted env calls plan.status) := came.adopted plan.status
  rw [LocalPeerClient.finishSync]
  generalize sync.adopted env calls plan.status = tip at tipped
  split
  · exact tipped
  split
  · exact tipped
  · exact tipped

include hears pulls in
theorem syncFromPeer_steps {peerUrl : Text} {world last : World ω} {fuel : Nat} {changed : Bool}
    (returned : syncFromPeer env calls fuel peerUrl world = some (changed, last)) :
    ∃ start, Starts world.node start ∧ Steps env allowed start last.node := by
  obtain ⟨start, starts, entered⟩ := beforeLoop_steps hears pulls peerUrl world
  refine ⟨start, starts, ?_⟩
  rw [syncFromPeer] at returned
  cases entry : beforeLoop env calls peerUrl world with
  | returned changed world =>
      rw [entry] at returned entered
      cases returned
      exact entered
  | entered plan first =>
      rw [entry] at returned entered
      obtain ⟨outcome, ended, finished⟩ := Option.map_eq_some_iff.mp returned
      have came : Came env allowed start outcome.state :=
        run_invariant (fun _ came => Came.syncTurn hears pulls came) entered ended
      have steps := came.finishSync calls plan
      rw [finished] at steps
      exact steps

/-- Whatever the peer sends, a call that pulls as the source does ends with a run of
the steps of the store, from the node or from the node without its chain. -/
theorem sync_is_run {peerUrl : Text} {world last : World ω} {fuel : Nat} {changed : Bool}
    (hears : Hears env allowed calls)
    (returned : syncFromPeer env (withPulls env calls) fuel peerUrl world = some (changed, last)) :
    ∃ start steps, Starts world.node start ∧ (∀ step ∈ steps, ChainStep.Adds allowed step) ∧
      last.node = runSteps env start steps := by
  obtain ⟨start, starts, taken⟩ :=
    syncFromPeer_steps (hears_withPulls hears) (pullsBy_withPulls hears) returned
  obtain ⟨steps, adds, same⟩ := exists_run taken
  exact ⟨start, steps, starts, adds, same⟩

end Call

/-! ### Many calls -/

/-- A call to some peer that is heard. -/
def Syncs (env : Env) (allowed : Block → Prop) (world last : World ω) : Prop :=
  ∃ (calls : Calls ω) (fuel : Nat) (peerUrl : Text) (changed : Bool), Hears env allowed calls ∧
    syncFromPeer env (withPulls env calls) fuel peerUrl world = some (changed, last)

/-- The index is intact and every stored block was allowed. -/
structure Kept (env : Env) (allowed : Block → Prop) (db : LevelDb) : Prop where
  reached : Reached env db
  stored : ∀ block, Holds env db block → allowed block

/-- Blocks that read back and are allowed. -/
def Readable (env : Env) (allowed : Block → Prop) (block : Block) : Prop :=
  RoundTrips env block ∧ allowed block

theorem Kept.steps (kept : Kept env allowed node.db)
    (steps : Steps env (Readable env allowed) node after) :
    Kept env allowed after.db ∧ ∀ block, Holds env node.db block → Holds env after.db block := by
  induction steps with
  | refl => exact ⟨kept, fun _ holds => holds⟩
  | tail _ moved ih =>
      obtain ⟨step, adds, rfl⟩ := moved
      obtain ⟨before, held⟩ := ih
      refine ⟨⟨before.reached.step (ChainStep.Adds.reads adds), ?_⟩, ?_⟩
      · exact ChainStep.holds_apply before.reached adds before.stored
      · exact fun block holds => step.keeps_holds before.reached (held block holds)

theorem kept_dropped (env : Env) (allowed : Block → Prop) : Kept env allowed ∅ where
  reached := reached_empty env
  stored block holds := by
    have stored := holds.stored
    rw [LevelDb.get_empty] at stored
    exact absurd stored.symm (blockJSON_ne_nil env block)

/-- A chain without a first block is dropped by the next call. -/
def Drops (node : Node) : Prop :=
  getFirstBlockId node.db < 0 ∧ 0 ≤ getLatestBlockId node.db

theorem Kept.syncs {world last : World ω} (kept : Kept env allowed world.node.db)
    (synced : Syncs env (Readable env allowed) world last) :
    Kept env allowed last.node.db ∧ (¬ Drops world.node →
      ∀ block, Holds env world.node.db block → Holds env last.node.db block) := by
  obtain ⟨calls, fuel, peerUrl, changed, hears, returned⟩ := synced
  obtain ⟨start, starts, taken⟩ :=
    syncFromPeer_steps (hears_withPulls hears) (pullsBy_withPulls hears) returned
  cases starts with
  | same =>
      obtain ⟨after, held⟩ := kept.steps taken
      exact ⟨after, fun _ => held⟩
  | dropped first latest =>
      have empty : Kept env allowed ({ world.node with db := ∅ } : Node).db := kept_dropped env allowed
      obtain ⟨after, -⟩ := empty.steps taken
      exact ⟨after, fun keeps => absurd ⟨first, latest⟩ keeps⟩

/-- After any calls to any peers the indexes agree, and the next call keeps every
stored entry unless it drops a chain without a first block. -/
theorem synced_indexes_agree {world last : World ω} (fresh : world.node = .empty)
    (synced : Relation.ReflTransGen (Syncs env (Readable env GenesisUnlinked)) world last) :
    IndexesAgree env last.node.db ∧
      ∀ next, Syncs env (Readable env GenesisUnlinked) last next → ¬ Drops last.node →
        EntriesKept env last.node.db next.node.db := by
  have kept : Kept env GenesisUnlinked last.node.db := by
    induction synced with
    | refl =>
        rw [fresh]
        exact kept_dropped env GenesisUnlinked
    | tail _ call ih => exact (ih.syncs call).1
  refine ⟨kept.reached.indexesAgree kept.stored, fun next call keeps => ?_⟩
  exact kept.reached.toIndexed.entriesKept ((kept.syncs call).2 keeps)

end LocalPeerClient

/-! ### A call to an honest peer -/

namespace Sample

open Text ChainValidator LocalPeerClient

theorem sends_answer (path : Text) : Sends Sample.env (Readable Sample.env GenesisUnlinked) (answer path) := by
  have status : parseBlockJson Sample.env statusText = [] := by decide +kernel
  have listed {block : Block} (known : block ∈ blocks) :
      Sends Sample.env (Readable Sample.env GenesisUnlinked) (blockJSON Sample.env block) := by
    intro other member
    rw [roundTrips known, List.mem_singleton] at member
    rw [member]
    exact adds_listed known
  rw [answer]
  split
  · intro block member
    rw [status] at member
    exact absurd member List.not_mem_nil
  split
  · exact listed (List.mem_iff_getElem?.mpr ⟨0, rfl⟩)
  · exact listed (List.mem_iff_getElem?.mpr ⟨4, rfl⟩)

theorem hears_honestPeer : Hears Sample.env (Readable Sample.env GenesisUnlinked) honestPeer where
  sends path _ := sends_answer path
  waits _ _ := Relation.ReflTransGen.refl

theorem synced_with_honestPeer : ∃ fuel changed last,
    syncFromPeer Sample.env (withPulls Sample.env honestPeer) fuel peerUrl ⟨.empty, ()⟩ =
      some (changed, last) ∧
    ∃ start steps, Starts Node.empty start ∧
      (∀ step ∈ steps, ChainStep.Adds (Readable Sample.env GenesisUnlinked) step) ∧
      last.node = runSteps Sample.env start steps := by
  obtain ⟨⟨changed, last⟩, fuel, returns⟩ :=
    syncFromPeer_returns Sample.env (withPulls Sample.env honestPeer) peerUrl ⟨.empty, ()⟩
  have returned := returns fuel (le_refl fuel)
  exact ⟨fuel, changed, last, returned, sync_is_run hears_honestPeer returned⟩

theorem honestPeer_keeps_indexes : ∃ last : World Unit,
    Syncs Sample.env (Readable Sample.env GenesisUnlinked) ⟨.empty, ()⟩ last ∧
      IndexesAgree Sample.env last.node.db ∧
        ∀ next, Syncs Sample.env (Readable Sample.env GenesisUnlinked) last next → ¬ Drops last.node →
          EntriesKept Sample.env last.node.db next.node.db := by
  obtain ⟨⟨changed, last⟩, fuel, returns⟩ :=
    syncFromPeer_returns Sample.env (withPulls Sample.env honestPeer) peerUrl ⟨.empty, ()⟩
  have synced : Syncs Sample.env (Readable Sample.env GenesisUnlinked) ⟨.empty, ()⟩ last :=
    ⟨honestPeer, fuel, peerUrl, changed, hears_honestPeer, returns fuel (le_refl fuel)⟩
  exact ⟨last, synced, synced_indexes_agree rfl (Relation.ReflTransGen.single synced)⟩

end Sample

end Safire
