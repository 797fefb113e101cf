/-
The checkpoint fast path beside the full path of a rebuild.

The fast path looks at the latest number and at variants of one slot, so a branch
in slots of its own below the tip stays unseen, and it checks envelopes only. It
agrees with the full path exactly where the chain below the tip is the one that
the full path would choose.
-/

import Safire.SlotLookups

namespace Safire

open Text ChainValidator BestPath

variable {env : Env} {db : LevelDb} {tip : Int}

/-- The full path on the same database returns the tip of the fast path and leaves
a block with the same hash in its slot. -/
def FullPathAgrees (env : Env) (now : Int) (db : LevelDb) (tip : Int) : Prop :=
  (rebuildFully env now (previousTipOf env db) db).1 = tip ∧
    (getBlock env (rebuildFully env now (previousTipOf env db) db).2 tip).hash =
      (getBlock env (rebuildBestChainIndex env now db).2 tip).hash

/-- A rebuild that takes the fast path leaves the slots alone. -/
theorem getBlock_fastPath (now : Int)
    (fast : (tryValidatedCheckpointFastPath env db).1 = some tip) (number : Int) :
    getBlock env (rebuildBestChainIndex env now db).2 number = getBlock env db number := by
  have side := writes_fastPath env db
  unfold rebuildBestChainIndex
  split
  · rfl
  · generalize tryValidatedCheckpointFastPath env db = attempt at fast side ⊢
    obtain ⟨verdict, after⟩ := attempt
    dsimp only at fast side
    rw [fast]
    exact side.getBlock_side number

/-- The full path ends at the last block of the chosen chain. -/
theorem rebuildFully_tip (sound : Sound env db) (now : Int) (previousTip : Block) {newTip : Block}
    (last : (bestValidChain env db).getLast? = some newTip) :
    (rebuildFully env now previousTip db).1 = newTip.number ∧
      getBlock env (rebuildFully env now previousTip db).2 newTip.number = newTip := by
  have slot := (rewritten_bestValidChain sound).2 newTip last
  unfold rebuildFully
  dsimp only
  rw [last]
  exact ⟨rfl, ((writes_finishChain _ _ _ _ _).getBlock_ends _).trans slot⟩

theorem Reached.fullPathAgrees_iff (reached : Reached env db) (now : Int)
    (fast : (tryValidatedCheckpointFastPath env db).1 = some tip) :
    FullPathAgrees env now db tip ↔
      ∃ chain, CurrentChain env db chain ∧ LongestAccepted env db chain := by
  obtain ⟨latest, positive, numbered⟩ := fastPath_tip fast
  have tipIs : TipIs env db (getBlock env db tip) := by
    rw [TipIs, latest]
    exact ⟨positive, rfl⟩
  have holds := (reached.sound.holds_getBlock (by rwa [numbered])).1
  rw [FullPathAgrees, getBlock_fastPath now fast]
  constructor
  · rintro ⟨number, hashes⟩
    cases last : (bestValidChain env db).getLast? with
    | none =>
        have failed : (rebuildFully env now (previousTipOf env db) db).1 = -1 := by
          unfold rebuildFully
          dsimp only
          rw [last]
        rw [failed] at number
        omega
    | some newTip =>
        obtain ⟨same, slot⟩ := rebuildFully_tip reached.sound now (previousTipOf env db) last
        rw [← number, same, slot] at hashes
        rw [← number, same] at holds tipIs
        have present : bestValidChain env db ≠ [] := by
          intro empty
          rw [empty] at last
          cases last
        have held := reached.sound.bestValidChain_holds
        have newHolds := held newTip (List.mem_of_getLast? last)
        have tipSame := newHolds.unique holds hashes
        rw [← tipSame] at tipIs
        obtain ⟨genesis, rest, shape⟩ := List.exists_cons_of_ne_nil present
        have rooted := reached.sound.storedGenesis (by rw [shape]; rfl)
        refine ⟨bestValidChain env db, (currentChain_of_tip tipIs).mpr ?_,
          longestAccepted_bestValidChain rooted present⟩
        exact lineage_of_accepts (bestValidChain_accepts present)
          (fun block member => (held block member).getBlockByHash_eq) last
  · rintro ⟨chain, current, longest⟩
    have last := ((currentChain_of_tip tipIs).mp current).last
    rw [← longest.bestValidChain_eq] at last
    obtain ⟨number, slot⟩ := rebuildFully_tip reached.sound now (previousTipOf env db) last
    rw [numbered] at number slot
    exact ⟨number, congrArg Block.hash slot⟩

/-- Where the fast path of a rebuild succeeds, the full path on the same store returns
the same tip with the same hash if and only if the chain below the tip is the longest
accepted beginning of the best path. -/
theorem fast_path_agrees_iff (env : Env) (steps : List ChainStep)
    (reads : ∀ step ∈ steps, step.Adds (RoundTrips env)) (now tip : Int)
    (fast : (tryValidatedCheckpointFastPath env (runSteps env .empty steps).db).1 = some tip) :
    FullPathAgrees env now (runSteps env .empty steps).db tip ↔
      ∃ chain, CurrentChain env (runSteps env .empty steps).db chain ∧
        LongestAccepted env (runSteps env .empty steps).db chain :=
  (reached_of_run reads).fullPathAgrees_iff now fast

/-! ### A longer branch in slots of its own -/

namespace Sample

def tallBlockHash : Text :=
  hexText 64 0xb9f8717273ed8e7b5b868caa331919afb4182f8137c101c637cfc4c296b49c47

def grownBlockHash : Text :=
  hexText 64 0x7125c7664a1493ab3ac9aaaeb6e86b1aea92f065f697e94125651e0569577c12

/-- A high block on the genesis block. -/
def tallBlock : Block :=
  block 104 "2" 100 genesisHash emptyRoot tallBlockHash
    0x673d18c6f2b3ea25379539ff2ce20f3114b532282ed6626312c23355e47968127c1b8bf02433c55df10a6100915695340bde6dae3e7d0b09356b6138b02bc92a
    []

/-- A second block on the empty block. -/
def grownBlock : Block :=
  block 103 "2" 101 emptyBlockHash emptyRoot grownBlockHash
    0xd07f218e60f7b0f9961164ed1158b5b3f1acf555d07ae8eab8fd2623f1b26ef968b81ac824235aeb99586ccdadcd7d8834fe133ec4ed189f9e26d37e9691440a
    []

local instance tallSigned_lawfulBEq : LawfulBEq (Text × Text × Text) := inferInstance

/-- The digests and signatures of the two blocks beside the other samples. -/
def tallEnv : Env :=
  { Sample.env with
    sha256 := fun content =>
      (([tallBlock, grownBlock].map fun block => (blockContent block, block.hash)).lookup
        content).getD (Sample.env.sha256 content)
    verifyMessageCompressed := fun message signature publicKey =>
      if (message, signature, publicKey) ∈ [tallBlock, grownBlock].map
          (fun block => (block.hash, block.signature, block.creatorKey)) then 1
      else Sample.env.verifyMessageCompressed message signature publicKey }

def tallBlocks : List Block :=
  [genesis, tallBlock, emptyBlock, grownBlock]

def tallStarted : Node :=
  startedNode tallEnv sampleAmbient genesis

/-- The high block on the stored genesis block. -/
def tallNode : Node :=
  ⟨writeBlock tallEnv tallStarted.db tallBlock,
    (validateBlockForStorage tallEnv sampleAmbient tallStarted.db tallStarted.caches tallBlock).2⟩

/-- A branch of two blocks that ends below the high block. -/
def grownNode : Node :=
  besideNode tallEnv (besideNode tallEnv tallNode emptyBlock) grownBlock

def grownSteps : List ChainStep :=
  [.addBlock sampleAmbient genesis, .setFirstBlockId genesis.number,
    .addBlock sampleAmbient tallBlock, .addBlock sampleAmbient emptyBlock,
    .addBlock sampleAmbient grownBlock]

theorem tall_checks :
    (∀ block ∈ tallBlocks,
      (checkAddedBlock tallEnv block = .ok () ∧ checkEnvelope tallEnv block = .ok () ∧
        storeRecords tallEnv contentRules block = .ok ()) ∧
      BlockReadable tallEnv block ∧ RecordsFit tallEnv 2 block.records) ∧
    (validateBlockForStorage tallEnv sampleAmbient ∅ .empty genesis).1 = .ok () ∧
    (validateBlockForStorage tallEnv sampleAmbient tallStarted.db tallStarted.caches
      tallBlock).1 = .ok () ∧
    Accepts tallEnv [genesis, tallBlock] := by
  rw [tallBlocks]
  simp only [List.forall_mem_cons, List.not_mem_nil, false_implies, implies_true, and_true]
  refine ⟨⟨?_, ?_, ?_, ?_⟩, ?_, ?_, ?_⟩ <;> decide +kernel

theorem tall_alone : ∀ block ∈ tallBlocks,
    (checkAddedBlock tallEnv block = .ok () ∧ checkEnvelope tallEnv block = .ok () ∧
      storeRecords tallEnv contentRules block = .ok ()) ∧
    BlockReadable tallEnv block ∧ RecordsFit tallEnv 2 block.records :=
  tall_checks.1

theorem passes_tall {block : Block} (place : Nat) (listed : tallBlocks[place]? = some block) :
    PassesAlone tallEnv block := by
  obtain ⟨⟨added, envelope, content⟩, -⟩ := tall_alone block (List.mem_of_getElem? listed)
  exact ⟨added, envelope, content⟩

theorem tall_roundTrips {block : Block} (listed : block ∈ tallBlocks) :
    RoundTrips tallEnv block := by
  obtain ⟨-, readable, fit⟩ := tall_alone block listed
  exact roundTrips_of_fit readable fit

theorem tracked_tallStarted : Tracked tallEnv tallStarted.db [genesis] 100 genesis 100 :=
  tracked_startedNode (tall_roundTrips (List.mem_iff_getElem?.mpr ⟨0, rfl⟩)) rfl

theorem tallGenesis_valid :
    (validateBlockForStorage tallEnv sampleAmbient ∅ .empty genesis).1 = .ok () :=
  tall_checks.2.1

theorem tallBlock_valid : (validateBlockForStorage tallEnv sampleAmbient tallStarted.db
    tallStarted.caches tallBlock).1 = .ok () :=
  tall_checks.2.2.1

theorem tallBlock_added :
    addBlock tallEnv sampleAmbient tallStarted tallBlock = (.ok (), tallNode) := by
  have unknown : ∀ other ∈ [genesis], other.hash ≠ tallBlock.hash := by decide
  exact addBlock_admitted (passes_tall 1 rfl).added (tracked_tallStarted.fresh unknown) tallBlock_valid

theorem tracked_tallNode :
    Tracked tallEnv tallNode.db [tallBlock, genesis] 100 tallBlock 104 := by
  have trips : RoundTrips tallEnv tallBlock := tall_roundTrips (List.mem_iff_getElem?.mpr ⟨1, rfl⟩)
  have unknown : ∀ other ∈ [genesis], other.hash ≠ tallBlock.hash := by decide
  have unused : ∀ other ∈ [genesis], other.number ≠ tallBlock.number := by decide
  have highest : max 100 tallBlock.number = 104 := by decide
  have placed := tracked_tallStarted.write_tip trips unknown (by decide)
    (tracked_tallStarted.takesSlot unused)
    (.inl (tracked_tallStarted.extendsTip (by decide) rfl rfl))
  rw [highest] at placed
  simp only [tallNode]
  exact placed

theorem emptyBlock_fits_tall : FitsBeside tallEnv [tallBlock, genesis] genesis tallBlock emptyBlock :=
  ⟨by simp, rfl, rfl, by decide, by decide, by decide, by decide, passes_tall 2 rfl⟩

theorem tracked_tallBeside : Tracked tallEnv (besideNode tallEnv tallNode emptyBlock).db
    [emptyBlock, tallBlock, genesis] 100 tallBlock 104 := by
  have highest : max 104 emptyBlock.number = 104 := by decide
  have placed := tracked_tallNode.write_fitting
    (tall_roundTrips (List.mem_iff_getElem?.mpr ⟨2, rfl⟩)) emptyBlock_fits_tall (by decide)
  rw [highest] at placed
  simp only [besideNode]
  exact placed

theorem grownBlock_fits : FitsBeside tallEnv [emptyBlock, tallBlock, genesis] emptyBlock tallBlock
    grownBlock :=
  ⟨by simp, rfl, rfl, by decide, by decide, by decide, by decide, passes_tall 3 rfl⟩

theorem tracked_grownNode : Tracked tallEnv grownNode.db
    [grownBlock, emptyBlock, tallBlock, genesis] 100 tallBlock 104 := by
  have highest : max 104 grownBlock.number = 104 := by decide
  have placed := tracked_tallBeside.write_fitting
    (tall_roundTrips (List.mem_iff_getElem?.mpr ⟨3, rfl⟩)) grownBlock_fits (by decide)
  rw [highest] at placed
  simp only [grownNode, besideNode] at placed ⊢
  exact placed

theorem run_grownSteps : runSteps tallEnv .empty grownSteps = grownNode := by
  rw [grownSteps, runSteps_startedNode (passes_tall 0 rfl).added tallGenesis_valid, runSteps_addBlock,
    ← tallStarted, tallBlock_added, runSteps_addBlock,
    tracked_tallNode.addBlock_fitting emptyBlock_fits_tall, runSteps_addBlock,
    tracked_tallBeside.addBlock_fitting grownBlock_fits, runSteps_nil, grownNode]

theorem reads_grownSteps : ∀ step ∈ grownSteps, step.Adds (RoundTrips tallEnv) := by
  intro step member
  simp only [grownSteps, List.mem_cons, List.not_mem_nil, or_false] at member
  rcases member with rfl | rfl | rfl | rfl | rfl
  · exact tall_roundTrips (List.mem_iff_getElem?.mpr ⟨0, rfl⟩)
  · trivial
  · exact tall_roundTrips (List.mem_iff_getElem?.mpr ⟨1, rfl⟩)
  · exact tall_roundTrips (List.mem_iff_getElem?.mpr ⟨2, rfl⟩)
  · exact tall_roundTrips (List.mem_iff_getElem?.mpr ⟨3, rfl⟩)

/-- The fast path succeeds on the two branches, and on a single chain. -/
theorem fast_samples :
    (tryValidatedCheckpointFastPath tallEnv grownNode.db).1 = some tallBlock.number ∧
      (tryValidatedCheckpointFastPath Sample.env (extended emptyBlock).db).1 =
        some emptyBlock.number := by
  constructor <;> decide +kernel

theorem fast_grownNode :
    (tryValidatedCheckpointFastPath tallEnv grownNode.db).1 = some tallBlock.number :=
  fast_samples.1

theorem storedGenesis_grown : StoredGenesis tallEnv grownNode.db genesis := by
  refine ⟨tracked_grownNode.mem_getStoredBlocks.mpr (by simp), ?_, by decide⟩
  rw [tracked_grownNode.first]
  rfl

/-- The branch of the high block is shorter than another stored branch. -/
theorem grown_best_longer {best : List Block}
    (structural : StructurallyBest tallEnv grownNode.db best) : 3 ≤ best.length := by
  have stored : ∀ {block : Block}, block ∈ [grownBlock, emptyBlock, tallBlock, genesis] →
      block ∈ getStoredBlocks tallEnv grownNode.db :=
    tracked_grownNode.mem_getStoredBlocks.mpr
  have branch : StoredPath tallEnv grownNode.db [genesis, emptyBlock, grownBlock] := by
    refine ⟨List.isChain_cons_cons.mpr ⟨⟨stored (by simp), by decide⟩,
      List.isChain_cons_cons.mpr ⟨⟨stored (by simp), by decide⟩, List.isChain_singleton _⟩⟩,
      genesis, rfl, storedGenesis_grown⟩
  cases structural.best _ branch with
  | inl same => rw [← same]; exact le_rfl
  | inr beats =>
      cases beats with
      | inl longer => exact longer.le
      | inr tied => exact tied.1.le

theorem tipIs_grownNode : TipIs tallEnv grownNode.db tallBlock := by
  rw [TipIs, tracked_grownNode.latest]
  exact ⟨by decide, tracked_grownNode.tipSlot⟩

theorem accepts_tallBlock : Accepts tallEnv [genesis, tallBlock] :=
  tall_checks.2.2.2

/-- Nothing connects to the high block, so no longer path goes through it. -/
theorem tallBlock_not_below_best {best : List Block}
    (structural : StructurallyBest tallEnv grownNode.db best) :
    ¬ [genesis, tallBlock] <+: best := by
  intro begins
  obtain ⟨rest, rfl⟩ := begins
  have long := grown_best_longer structural
  cases rest with
  | nil => simp at long
  | cons third rest =>
      have next := (pathFrom_cons_cons.mp structural.isPath).2
      obtain ⟨-, later⟩ := pathFrom_cons_cons.mp next
      obtain ⟨_, head, stored, joins⟩ := later.begins
      cases head
      have apart : ∀ block ∈ [grownBlock, emptyBlock, tallBlock, genesis],
          childConnectsToParent block tallBlock = false := by
        simp only [List.forall_mem_cons]
        exact ⟨by decide, by decide, by decide, by decide, by simp⟩
      rw [apart third (tracked_grownNode.mem_getStoredBlocks.mp stored)] at joins
      cases joins

/-- The latest number is the highest one and no slot has two blocks, so the fast path
keeps the high block, although the full path goes to the longer branch. -/
theorem longer_branch_unseen :
    (∀ step ∈ grownSteps, step.Adds (RoundTrips tallEnv)) ∧
      (tryValidatedCheckpointFastPath tallEnv (runSteps tallEnv .empty grownSteps).db).1 =
        some tallBlock.number ∧
      ¬ FullPathAgrees tallEnv 0 (runSteps tallEnv .empty grownSteps).db tallBlock.number := by
  have reached : Reached tallEnv grownNode.db := by
    rw [← run_grownSteps]
    exact reached_of_run reads_grownSteps
  rw [run_grownSteps]
  refine ⟨reads_grownSteps, fast_grownNode, fun agrees => ?_⟩
  obtain ⟨chain, current, longest⟩ := (reached.fullPathAgrees_iff 0 fast_grownNode).mp agrees
  have known : ∀ block ∈ [genesis, tallBlock],
      block ∈ [grownBlock, emptyBlock, tallBlock, genesis] := by simp
  have last : [genesis, tallBlock].getLast? = some tallBlock := rfl
  have lineage := tracked_grownNode.lineage accepts_tallBlock known last
  rw [((currentChain_of_tip tipIs_grownNode).mp current).unique lineage] at longest
  obtain ⟨best, structural, within, -⟩ := longest.best
  exact tallBlock_not_below_best structural (within.trans (List.take_prefix _ _))

theorem fast_emptyBlock :
    (tryValidatedCheckpointFastPath Sample.env (extended emptyBlock).db).1 =
      some emptyBlock.number :=
  fast_samples.2

/-- The run of one chain, on which both paths are compared. -/
theorem fast_path_agrees_emptyBlock :
    (∀ step ∈ tipSteps emptyBlock, step.Adds (RoundTrips Sample.env)) ∧
      (tryValidatedCheckpointFastPath Sample.env
        (runSteps Sample.env .empty (tipSteps emptyBlock)).db).1 = some emptyBlock.number ∧
      (FullPathAgrees Sample.env 0 (runSteps Sample.env .empty (tipSteps emptyBlock)).db
          emptyBlock.number ↔
        ∃ chain, CurrentChain Sample.env
            (runSteps Sample.env .empty (tipSteps emptyBlock)).db chain ∧
          LongestAccepted Sample.env
            (runSteps Sample.env .empty (tipSteps emptyBlock)).db chain) := by
  have reads : ∀ step ∈ tipSteps emptyBlock, step.Adds (RoundTrips Sample.env) :=
    fun step member => (adds_tipSteps (List.mem_iff_getElem?.mpr ⟨4, rfl⟩) step member).reads
  have fast : (tryValidatedCheckpointFastPath Sample.env
      (runSteps Sample.env .empty (tipSteps emptyBlock)).db).1 = some emptyBlock.number := by
    rw [run_tipSteps_emptyBlock]
    exact fast_emptyBlock
  exact ⟨reads, fast, fast_path_agrees_iff Sample.env (tipSteps emptyBlock) reads 0
    emptyBlock.number fast⟩

end Sample

end Safire
