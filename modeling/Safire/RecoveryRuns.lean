/-
Runs of recovery blocks.

The counter of trailing blocks by the recovery key covers at least the trailing
blocks that the recovery branch authorised, so no such run outgrows the window.
The branch validator counts along the candidate vector, the storage validator and
the builder along the stored parent hashes; on a stored chain all three agree.
-/

import Safire.BlockBuilder

namespace Safire.ChainValidator

variable {env : Env} {chain : List Block}

/-! ### What the recovery branch requires -/

/-- Recovery mode selects the recovery key inside its window. -/
theorem recoveryMode_selected {blockNumber recoveryRun : Int} {seed latestSeed key : Text}
    {checkpoint latest : List Text}
    (mode : (Selector.getAuthorizedCreatorForBlock env blockNumber seed checkpoint latestSeed latest
      key recoveryRun).recoveryMode = true) :
    (Selector.getAuthorizedCreatorForBlock env blockNumber seed checkpoint latestSeed latest key
        recoveryRun).creator = key ∧
      key ≠ [] ∧ recoveryRun < Selector.getRecoveryWindowBlocks := by
  unfold Selector.getAuthorizedCreatorForBlock at mode ⊢
  split
  · rename_i ordinary
    rw [if_pos ordinary] at mode
    cases mode
  · rename_i idle
    rw [if_neg idle] at mode
    split
    · rename_i fallback
      rw [if_pos fallback] at mode
      cases mode
    · rename_i silent
      rw [if_neg silent] at mode
      split
      · rename_i window
        exact ⟨rfl, List.ne_nil_of_length_pos window.1, window.2⟩
      · rename_i closed
        rw [if_neg closed] at mode
        cases mode

/-- A block that the recovery branch authorised follows a connected branch whose
trailing blocks by the recovery key leave the window open. -/
structure RecoveryAt (env : Env) (before : List Block) (block : Block) (key : Text) : Prop where
  configured : ∃ genesis, before.head? = some genesis ∧
    key = configuredRecoveryPublicKey env genesis.creatorKey
  present : key ≠ []
  created : block.creatorKey = key
  window : consecutiveRecoveryBlocksInBranch before key < Selector.getRecoveryWindowBlocks

theorem recoveryAt_of_authorized (accepted : Accepts env chain) {before after : List Block}
    {block : Block} (place : chain = before ++ block :: after)
    (authorized : authorizedByRecovery env before block = true) :
    ∃ key, RecoveryAt env before block key := by
  have later : before ≠ [] := by
    intro empty
    rw [empty, authorizedByRecovery] at authorized
    simp at authorized
  obtain ⟨genesis, parent, state, snapshot, here⟩ := authorizedAt_of_accepts accepted place later
  unfold authorizedByRecovery at authorized
  rw [here.connected, here.head, here.last] at authorized
  dsimp only at authorized
  rw [here.selected, Option.any_some] at authorized
  have selected := recoveryMode_selected authorized
  have creator := here.creator
  rw [branchAuthorization] at creator
  exact ⟨configuredRecoveryPublicKey env genesis.creatorKey,
    { configured := ⟨genesis, here.head, rfl⟩
      present := selected.2.1
      created := creator.symm.trans selected.1
      window := selected.2.2 }⟩

/-! ### The length of a run -/

/-- Blocks at the end of a branch that one key created are counted for that key. -/
theorem length_le_trailingKeyRun {before front : List Block} {key : Text}
    (created : ∀ block ∈ front, block.creatorKey = key) :
    front.length ≤ trailingKeyRun (before ++ front) key := by
  have whole : (front.reverse.takeWhile fun block => decide (block.creatorKey = key)) =
      front.reverse := by
    rw [List.takeWhile_eq_self_iff]
    intro block member
    exact decide_eq_true (created block (List.mem_reverse.mp member))
  rw [trailingKeyRun, List.reverse_append, List.takeWhile_append, whole, if_pos rfl,
    List.length_append, List.length_reverse]
  exact Nat.le_add_right _ _

/-- Consecutive blocks of an accepted chain, each authorised by the recovery branch. -/
structure RecoveryRun (env : Env) (before run : List Block) : Prop where
  authorized : ∀ front block back, run = front ++ block :: back →
    authorizedByRecovery env (before ++ front) block = true

/-- All blocks of a run are by the key that its last block was authorised with. -/
theorem RecoveryRun.created (accepted : Accepts env chain) {before front after : List Block}
    {last : Block} (place : chain = before ++ (front ++ [last]) ++ after)
    (run : RecoveryRun env before (front ++ [last])) :
    ∃ key, RecoveryAt env (before ++ front) last key ∧
      ∀ block ∈ front, block.creatorKey = key := by
  have lastPlace : chain = (before ++ front) ++ last :: after := by
    rw [place]
    simp
  obtain ⟨key, atLast⟩ := recoveryAt_of_authorized accepted lastPlace
    (run.authorized front last [] rfl)
  refine ⟨key, atLast, ?_⟩
  intro block member
  obtain ⟨early, back, split⟩ := List.append_of_mem member
  have blockPlace : chain = (before ++ early) ++ block :: (back ++ [last] ++ after) := by
    rw [place, split]
    simp
  obtain ⟨other, atBlock⟩ := recoveryAt_of_authorized accepted blockPlace
    (run.authorized early block (back ++ [last]) (by rw [split]; simp))
  -- Both keys are configured from the genesis block, which stands before the run.
  obtain ⟨genesis, head, sameKey⟩ := atBlock.configured
  obtain ⟨genesis', head', sameKey'⟩ := atLast.configured
  have sameGenesis : genesis = genesis' := by
    have again : (before ++ front).head? = some genesis := by
      rw [split, ← List.append_assoc, List.head?_append, head]
      rfl
    exact Option.some.inj (again.symm.trans head')
  rw [atBlock.created, sameKey, sameKey', sameGenesis]

theorem RecoveryRun.length_le (accepted : Accepts env chain) {before run after : List Block}
    (place : chain = before ++ run ++ after) (recovery : RecoveryRun env before run) :
    (run.length : Int) ≤ Selector.getRecoveryWindowBlocks := by
  cases run using List.reverseRecOn with
  | nil => decide
  | append_singleton front last =>
      obtain ⟨key, atLast, created⟩ := recovery.created accepted place
      have open_ := (consecutiveRecoveryBlocksInBranch_lt_iff atLast.present).mp atLast.window
      have counted : front.length ≤ trailingKeyRun (before ++ front) key :=
        length_le_trailingKeyRun created
      rw [List.length_append, List.length_singleton]
      omega

/-! ### Three counters -/

/-- At every position of a stored chain the loop along the parent hashes counts the
trailing blocks of the chain up to there. -/
theorem consecutiveRecoveryBlocksInStore_at {db : LevelDb} (accepted : Accepts env chain)
    (stored : ∀ block ∈ chain, getBlockByHash env db block.hash = block)
    {before after : List Block} {block : Block} (place : chain = before ++ block :: after)
    (key : Text) : consecutiveRecoveryBlocksInStore env db block key =
      consecutiveRecoveryBlocksInBranch (before ++ [block]) key := by
  obtain ⟨-, finish, connected⟩ := accepts_iff.mp accepted
  rw [place, List.append_cons] at connected
  obtain ⟨state, through⟩ := connectChain_prefix connected
  unfold consecutiveRecoveryBlocksInStore consecutiveRecoveryBlocksInBranch
  split
  · rfl
  · rw [recoveryRunInStore_eq key _ _ through]
    · rfl
    · intro other member
      apply stored
      rw [place, List.append_cons]
      exact List.mem_append_left after member

/-- On an accepted chain no run of blocks that the recovery branch authorised is
longer than the window, and wherever the chain is stored the counters of the
storage validator, of the branch validator and of the builder agree on every
position and key. -/
theorem recovery_bounded_and_counted (env : Env) (chain : List Block)
    (accepted : Accepts env chain) :
    (∀ before run after, chain = before ++ run ++ after → RecoveryRun env before run →
      (run.length : Int) ≤ Selector.getRecoveryWindowBlocks) ∧
    ∀ db, (∀ block ∈ chain, getBlockByHash env db block.hash = block) →
      ∀ before block after, chain = before ++ block :: after → ∀ key,
        consecutiveRecoveryBlocksInStore env db block key =
            consecutiveRecoveryBlocksInBranch (before ++ [block]) key ∧
          BlockBuilder.consecutiveRecoveryBlocks env db block key =
            consecutiveRecoveryBlocksInBranch (before ++ [block]) key := by
  constructor
  · intro before run after place recovery
    exact recovery.length_le accepted place
  · intro db stored before block after place key
    have counted := consecutiveRecoveryBlocksInStore_at accepted stored place key
    exact ⟨counted, counted⟩

end Safire.ChainValidator

namespace Safire.Sample

open Text ChainValidator

/-- Three blocks of the recovery key, after the only heartbeat has expired. -/
def recoveryBlocks : List Block :=
  [block 6000 "2" 101 beatBlockHash emptyRoot
      (hexText 64 0xc66d5743af995d17ded5f8245a8eca431c7961fde4165cd01a5ff65caf0844f5)
      0x5a58d283a8acad343fdc90e42381419d0ae359a569e096eb409c2e62b81061d9eb303a804c17872ccc60b889a89aba8461f4f81a5594f9ea20ecc8894cd6f351
      [],
    block 6001 "2" 6000
      (hexText 64 0xc66d5743af995d17ded5f8245a8eca431c7961fde4165cd01a5ff65caf0844f5) emptyRoot
      (hexText 64 0x6b4d5eaf22523dfb3e822c0718dca57065b640f4df7499b5368f155cd27031b5)
      0xbf492f8a2187335efc1b30815d2644f5d92655be96d4dbcdb8e017ab5008bc441f3efc8fea7a7da00d6eed395668cb1e92c61f4faf0eba4d9d3420ad5cc576d0
      [],
    block 6002 "2" 6001
      (hexText 64 0x6b4d5eaf22523dfb3e822c0718dca57065b640f4df7499b5368f155cd27031b5) emptyRoot
      (hexText 64 0xed4492822b41dc2399250be5793b8c271aedec549990542a4ce0e7f1f29af602)
      0x1059583ae6a54c372e20fb5cd3ca40b5db7b3259a124e0797bd9b73ea5a4e57052c6260192c69dad10646576f9e0097d7f711ab33d34d8cb5db2b5789c91bf73
      []]

local instance recoverySigned_lawfulBEq : LawfulBEq (Text × Text × Text) := inferInstance

/-- The digests and signatures of the three blocks beside the other samples. -/
def recoveryEnv : Env :=
  { Sample.env with
    sha256 := fun content =>
      ((recoveryBlocks.map fun block => (blockContent block, block.hash)).lookup
        content).getD (Sample.env.sha256 content)
    verifyMessageCompressed := fun message signature publicKey =>
      if (message, signature, publicKey) ∈ recoveryBlocks.map
          (fun block => (block.hash, block.signature, block.creatorKey)) then 1
      else Sample.env.verifyMessageCompressed message signature publicKey }

def recoveryChain : List Block :=
  genesis :: beatBlock :: recoveryBlocks

theorem accepts_recoveryChain : Accepts recoveryEnv recoveryChain := by
  decide +kernel

/-- The last three blocks are one recovery run. -/
theorem recoveryRun_recoveryBlocks : RecoveryRun recoveryEnv [genesis, beatBlock] recoveryBlocks := by
  have authorized : ∀ place < 3, recoveryBlocks[place]?.any
      (authorizedByRecovery recoveryEnv ([genesis, beatBlock] ++ recoveryBlocks.take place)) = true := by
    decide +kernel
  constructor
  intro front block back place
  have size : recoveryBlocks.length = 3 := rfl
  have within : front.length < 3 := by
    rw [← size, place]
    simp
  have found := authorized front.length within
  rw [place, List.take_left] at found
  simpa using found

theorem readable_recoveryChain : ∀ block ∈ recoveryChain,
    BlockReadable recoveryEnv block ∧ RecordsFit recoveryEnv 2 block.records := by
  decide +kernel

theorem storedAs_recoveryChain :
    StoredAs recoveryEnv (canonicalStore recoveryEnv genesis (beatBlock :: recoveryBlocks))
      recoveryChain := by
  refine storedAs_canonicalStore accepts_recoveryChain ⟨?_, ?_⟩ ?_ (by decide)
  · decide +kernel
  · decide +kernel
  · intro block member
    obtain ⟨readable, fit⟩ := readable_recoveryChain block member
    exact roundTrips_of_fit readable fit

/-- The bound on a chain that ends with a recovery run, and the three counters on the
database of the chain. -/
theorem recovery_bounded_of_recoveryChain :
    (RecoveryRun recoveryEnv [genesis, beatBlock] recoveryBlocks ∧
      (recoveryBlocks.length : Int) ≤ Selector.getRecoveryWindowBlocks) ∧
      ∀ before block after, recoveryChain = before ++ block :: after → ∀ key,
        consecutiveRecoveryBlocksInStore recoveryEnv
              (canonicalStore recoveryEnv genesis (beatBlock :: recoveryBlocks)) block key =
            consecutiveRecoveryBlocksInBranch (before ++ [block]) key ∧
          BlockBuilder.consecutiveRecoveryBlocks recoveryEnv
              (canonicalStore recoveryEnv genesis (beatBlock :: recoveryBlocks)) block key =
            consecutiveRecoveryBlocksInBranch (before ++ [block]) key := by
  obtain ⟨bounded, counted⟩ :=
    recovery_bounded_and_counted recoveryEnv recoveryChain accepts_recoveryChain
  refine ⟨⟨recoveryRun_recoveryBlocks, ?_⟩, counted _ storedAs_recoveryChain.byHash⟩
  exact bounded [genesis, beatBlock] recoveryBlocks [] rfl recoveryRun_recoveryBlocks

end Safire.Sample
