/-
Runs of the store operations.

The branch validator decides on a rebuild alone. A block that `AddBlock` puts on
the tip is judged by the storage validator, or not at all where the state rules
are not enforced, and an adopted branch is judged by its envelopes.
-/

import Safire.Admission

namespace Safire

open Text ChainValidator BestPath

variable {env : Env} {db after : LevelDb}

/-! ### Ancestors -/

/-- The blocks from genesis to a block, along the previous hashes. -/
inductive Ancestry (env : Env) (db : LevelDb) : Block → List Block → Prop where
  | genesis {block : Block} : block.previousBlockHash = [] → Ancestry env db block [block]
  | child {block : Block} {chain : List Block} : block.previousBlockHash ≠ [] →
      0 < (getBlockByHash env db block.previousBlockHash).number →
      Ancestry env db (getBlockByHash env db block.previousBlockHash) chain →
      Ancestry env db block (chain ++ [block])

theorem Ancestry.unique {block : Block} {chain other : List Block}
    (ancestry : Ancestry env db block chain) (again : Ancestry env db block other) :
    chain = other := by
  induction ancestry generalizing other with
  | genesis first =>
      cases again with
      | genesis _ => rfl
      | child named _ _ => exact absurd first named
  | child named _ _ ih =>
      cases again with
      | genesis first => exact absurd first named
      | child _ _ below => rw [ih below]

theorem Ancestry.mono {block : Block} {chain : List Block} (ancestry : Ancestry env db block chain)
    (kept : ∀ hash, 0 < (getBlockByHash env db hash).number →
      getBlockByHash env after hash = getBlockByHash env db hash) :
    Ancestry env after block chain := by
  induction ancestry with
  | genesis first => exact .genesis first
  | child named found _ ih =>
      have same := kept _ found
      refine .child named (by rwa [same]) ?_
      rw [same]
      exact ih

/-- Stored accepted chains are the ancestors of their tip. -/
theorem ancestry_of_accepts {chain : List Block} {tip : Block} (accepted : Accepts env chain)
    (stored : ∀ block ∈ chain, getBlockByHash env db block.hash = block)
    (last : chain.getLast? = some tip) : Ancestry env db tip chain := by
  induction chain using List.reverseRecOn generalizing tip with
  | nil => cases last
  | append_singleton before block ih =>
      obtain rfl : block = tip := by simpa using last
      rcases List.eq_nil_or_concat before with rfl | ⟨front, parent, rfl⟩
      · exact .genesis (genesis_of_accepts accepted).2.1
      · rw [List.concat_eq_append] at *
        obtain ⟨-, state, connected⟩ := accepts_iff.mp accepted
        obtain ⟨parentState, below, -⟩ := connectChain_snoc_ok_iff.mp connected
        have belowAccepted : Accepts env (front ++ [parent]) :=
          accepts_iff.mpr ⟨by simp, parentState, below⟩
        have place : front ++ [parent] ++ [block] = front ++ parent :: block :: [] := by simp
        obtain ⟨-, -, hashes⟩ := link_of_accepts accepted place
        have parentStored := stored parent (by simp)
        have parentHash := hashes_of_connected below parent (by simp)
        refine .child (by rwa [hashes]) ?_ ?_
        · rw [hashes, parentStored]
          exact (ascending_of_connected below).positive parent (by simp)
        · rw [hashes, parentStored]
          exact ih belowAccepted (fun other member => stored other (List.mem_append_left _ member))
            (by simp)

/-! ### Adding a block -/

theorem checkAddedBlock_below {block : Block} (checked : checkAddedBlock env block = .ok ()) :
    block.previousBlockId < block.number ∨ block.previousBlockId = -1 := by
  unfold checkAddedBlock at checked
  split at checked
  · cases checked
  · rename_i order
    omega

theorem addBlock_cases (env : Env) (ambient : Ambient) (node : Node) (block : Block) :
    (addBlock env ambient node block).2.db = node.db ∨
      checkAddedBlock env block = .ok () ∧ node.db.get (.block block.hash) = [] ∧
        (validateBlockForStorage env ambient node.db node.caches block).1 = .ok () ∧
        (addBlock env ambient node block).2.db = writeBlock env node.db block := by
  unfold addBlock
  cases checked : checkAddedBlock env block with
  | error reason => exact .inl rfl
  | ok value =>
      dsimp only
      split
      · exact .inl rfl
      · rename_i absent
        have fresh : node.db.get (.block block.hash) = [] :=
          List.length_eq_zero_iff.mp (by omega)
        split
        · exact .inl rfl
        · rename_i verdict
          exact .inr ⟨rfl, fresh, by rw [verdict], rfl⟩

/-! ### Rebuilding and adopting -/

theorem Sound.bestValidChain_holds (sound : Sound env db) :
    ∀ block ∈ bestValidChain env db, Holds env db block :=
  fun block member => sound.bestPath_holds _ block (bestValidChain_isPrefix.subset member)

/-- A rebuilt chain starts at a stored genesis block of the first slot. -/
theorem Sound.storedGenesis (sound : Sound env db) {genesis : Block}
    (head : (bestValidChain env db).head? = some genesis) : StoredGenesis env db genesis := by
  have present : bestValidChain env db ≠ [] := by
    intro empty
    rw [empty] at head
    cases head
  have accepted := bestValidChain_accepts present
  have first : (bestPath env db maxRebuildChainDepth).head? = some genesis := by
    obtain ⟨rest, split⟩ := @bestValidChain_isPrefix env db
    rw [← split, List.head?_append, head, Option.some_or]
  cases bestPath_head first with
  | inl stored => exact stored
  | inr slot =>
      have member := List.mem_of_head? head
      have positive := (ascending_of_accepts accepted).positive genesis member
      rw [slot] at positive
      have found := sound.holds_getBlock positive
      rw [← slot] at found
      obtain ⟨shape, parentless⟩ := List.head?_eq_some_iff.mp head
      rw [parentless] at accepted
      exact ⟨sound.mem_getStoredBlocks.mpr found.1, found.2.1, (genesis_of_accepts accepted).1⟩

theorem rewritten_bestValidChain (sound : Sound env db) :
    Rewritten env db (writeChain env (eraseNextLinks db) (bestValidChain env db)) ∧
      ∀ tip, (bestValidChain env db).getLast? = some tip →
        getBlock env (writeChain env (eraseNextLinks db) (bestValidChain env db)) tip.number =
          tip := by
  have erased := rewritten_eraseNextLinks sound
  obtain ⟨written, slot⟩ := rewritten_writeChain (bestValidChain env db) erased.sound
    (fun block member => erased.holds (sound.bestValidChain_holds block member))
  exact ⟨erased.trans written, slot⟩

theorem rewritten_rebuildBestChainIndex (sound : Sound env db) (now : Int) :
    Rewritten env db (rebuildBestChainIndex env now db).2 := by
  have fast := (writes_fastPath env db).aside.rewritten_aside sound
  unfold Safire.rebuildBestChainIndex
  split
  · exact .refl sound
  · generalize tryValidatedCheckpointFastPath env db = attempt at fast ⊢
    obtain ⟨verdict, attempted⟩ := attempt
    cases verdict with
    | some tip => exact fast
    | none =>
        refine fast.trans ?_
        dsimp only [Safire.rebuildFully]
        cases (bestValidChain env attempted).getLast? with
        | none => exact .refl fast.sound
        | some newTip =>
            have written := (rewritten_bestValidChain fast.sound).1
            exact written.trans ((writes_finishChain _ _ _ _ _).rewritten_ends written.sound)

theorem blockEnvelopeIsValid_positive {block : Block}
    (valid : blockEnvelopeIsValid env block = true) : 0 < block.number := by
  unfold blockEnvelopeIsValid at valid
  split at valid
  · cases valid
  · rename_i usable
    exact not_le.mp (not_or.mp usable).1

/-- One round of a successful collection: it stops at an unusable block, at the
genesis block of the first slot, or goes on with the parent. -/
theorem collectBranch_cases {firstBlockId : Int} {rounds : Nat} {visited : TextSet}
    {collected branch : List Block} {current : Block}
    (found : collectBranch env db firstBlockId (rounds + 1) visited collected current =
      some branch) :
    (current.number ≤ 0 ∨ current.hash = []) ∧ branch = collected ∨
      blockEnvelopeIsValid env current = true ∧
        (current.previousBlockId ≤ 0 ∧ current.number = firstBlockId ∧
            branch = current :: collected ∨
          0 < current.previousBlockId ∧
            childConnectsToParent current (getBlockByHash env db current.previousBlockHash) = true ∧
            collectBranch env db firstBlockId rounds (visited.insert current.hash)
              (current :: collected) (getBlockByHash env db current.previousBlockHash) =
                some branch) := by
  rw [collectBranch] at found
  split at found
  · rename_i unusable
    rw [List.length_eq_zero_iff] at unusable
    exact .inl ⟨unusable, (Option.some.inj found).symm⟩
  · split at found
    · cases found
    · split at found
      · cases found
      · rename_i envelope
        rw [Bool.not_eq_false] at envelope
        refine .inr ⟨envelope, ?_⟩
        split at found
        · rename_i genesis
          split at found
          · cases found
          · rename_i rooted
            rw [not_or, not_not] at rooted
            exact .inl ⟨genesis, rooted.1, (Option.some.inj found).symm⟩
        · rename_i later
          split at found
          · cases found
          · dsimp only at found
            split at found
            · cases found
            · rename_i connects
              rw [Bool.not_eq_false] at connects
              exact .inr ⟨not_le.mp later, connects, found⟩

/-- The collected branch ends with the blocks collected before, and all are stored. -/
theorem collectBranch_spec (sound : Sound env db) {firstBlockId : Int} (rounds : Nat) :
    ∀ {visited : TextSet} {collected branch : List Block} {current : Block},
      (∀ block ∈ collected, Holds env db block) → (0 < current.number → Holds env db current) →
      collectBranch env db firstBlockId rounds visited collected current = some branch →
      (∀ block ∈ branch, Holds env db block) ∧ ∃ front, branch = front ++ collected := by
  induction rounds with
  | zero =>
      intro visited collected branch current held _ found
      cases found
      exact ⟨held, [], rfl⟩
  | succ rounds ih =>
      intro visited collected branch current held heldCurrent found
      have grown : 0 < current.number → ∀ block ∈ current :: collected, Holds env db block := by
        intro positive block member
        cases List.mem_cons.mp member with
        | inl same => exact same ▸ heldCurrent positive
        | inr old => exact held block old
      rcases collectBranch_cases found with ⟨-, rfl⟩ | ⟨envelope, ⟨-, -, rfl⟩ | ⟨-, connects, later⟩⟩
      · exact ⟨held, [], rfl⟩
      · exact ⟨grown (blockEnvelopeIsValid_positive envelope), [current], rfl⟩
      · obtain ⟨all, front, split⟩ := ih (grown (blockEnvelopeIsValid_positive envelope))
          (fun positive => (sound.holds_getBlockByHash positive).1) later
        exact ⟨all, front ++ [current], by rw [split, List.append_assoc]; rfl⟩

/-- A successful collection ends with the block it started from. -/
theorem collectBranch_last (sound : Sound env db) {firstBlockId : Int} {current : Block}
    {branch : List Block} (positive : 0 < current.number) (holds : Holds env db current)
    (found : collectBranch env db firstBlockId current.number.toNat ∅ [] current = some branch) :
    branch.getLast? = some current := by
  obtain ⟨rounds, size⟩ : ∃ rounds, current.number.toNat = rounds + 1 :=
    ⟨current.number.toNat - 1, by omega⟩
  rw [size] at found
  rcases collectBranch_cases found with ⟨unusable, -⟩ | ⟨-, ⟨-, -, rfl⟩ | ⟨-, -, later⟩⟩
  · exact absurd unusable (not_or.mpr ⟨not_le.mpr positive, holds.trips.facts.2.1⟩)
  · rfl
  · obtain ⟨-, front, split⟩ := collectBranch_spec sound rounds (by simpa using holds)
      (fun positive => (sound.holds_getBlockByHash positive).1) later
    rw [split]
    simp

/-- The block of the latest slot. -/
def TipIs (env : Env) (db : LevelDb) (block : Block) : Prop :=
  0 < getLatestBlockId db ∧ getBlock env db (getLatestBlockId db) = block

/-- A stored tip whose branch goes down to the block of the first number. -/
structure Adoptable (env : Env) (db : LevelDb) (tipHash : Text) (tip : Block)
    (branch : List Block) : Prop where
  holds : Holds env db tip
  named : tip.hash = tipHash
  started : 0 < getFirstBlockId db
  collected : collectBranch env db (getFirstBlockId db) tip.number.toNat ∅ [] tip = some branch
  head : ∀ genesis, branch.head? = some genesis → genesis.number = getFirstBlockId db

/-- The part of a branch that an adoption writes. -/
def adoptedPart (env : Env) (db : LevelDb) (branch : List Block) : List Block :=
  branch.drop (canonicalPart env db branch - 1)

theorem previousTipOf_eq_tip_iff (sound : Sound env db) {tip : Block} (holds : Holds env db tip) :
    (0 < (previousTipOf env db).number ∧ 0 < (previousTipOf env db).hash.length ∧
        tip.number ≤ (previousTipOf env db).number ∧ (previousTipOf env db).hash = tip.hash) ↔
      TipIs env db tip := by
  unfold previousTipOf TipIs
  by_cases positive : 0 < getLatestBlockId db
  · rw [if_pos positive]
    constructor
    · rintro ⟨found, -, -, same⟩
      exact ⟨positive, (sound.holds_getBlock found).1.unique holds same⟩
    · rintro ⟨-, same⟩
      rw [same]
      obtain ⟨above, hashed, -⟩ := holds.trips.facts
      exact ⟨above, List.length_pos_iff.mpr hashed, le_rfl, rfl⟩
  · rw [if_neg positive]
    exact iff_of_false (fun found => absurd found.1 (by decide)) fun tip => positive tip.1

/-- An adoption fails, leaves the tip where it is, or writes the branch from the
last block that is canonical already. -/
theorem adopt_cases (sound : Sound env db) (now : Int) (tipHash : Text) :
    adoptStoredChainEndingAtHash env now db tipHash = (none, db) ∨
      ∃ tip branch, Adoptable env db tipHash tip branch ∧
        (TipIs env db tip ∧
            adoptStoredChainEndingAtHash env now db tipHash = (some tip.number, db) ∨
          ¬ TipIs env db tip ∧ adoptStoredChainEndingAtHash env now db tipHash =
            (some tip.number, finishChain env (writeChain env db (adoptedPart env db branch)) now
              "peer hash-linked tip adopted" (previousTipOf env db) tip)) := by
  unfold adoptStoredChainEndingAtHash
  dsimp only
  split
  · exact .inl rfl
  · rename_i started
    rw [not_or, not_le] at started
    split
    · exact .inl rfl
    · rename_i usable
      rw [not_or, not_le, not_ne_iff] at usable
      obtain ⟨positive, named⟩ := usable
      obtain ⟨holds, -⟩ := sound.holds_getBlockByHash positive
      generalize getBlockByHash env db tipHash = current at positive named holds ⊢
      cases found : collectBranch env db (getFirstBlockId db) current.number.toNat ∅ [] current with
      | none => exact .inl rfl
      | some branch =>
          dsimp only
          have last := collectBranch_last sound positive holds found
          rw [last]
          cases head : branch.head? with
          | none => exact .inl rfl
          | some genesis =>
              dsimp only
              split
              · exact .inl rfl
              · rename_i rooted
                have adoptable : Adoptable env db tipHash current branch := by
                  refine ⟨holds, named, started.2, found, fun first same => ?_⟩
                  obtain rfl : genesis = first := Option.some.inj (head.symm.trans same)
                  exact not_not.mp rooted
                refine .inr ⟨current, branch, adoptable, ?_⟩
                by_cases already : TipIs env db current
                · rw [if_pos ((previousTipOf_eq_tip_iff sound holds).mpr already)]
                  refine .inl ⟨already, ?_⟩
                  rw [previousTipOf, if_pos already.1, already.2]
                · rw [if_neg fun same => already ((previousTipOf_eq_tip_iff sound holds).mp same)]
                  exact .inr ⟨already, rfl⟩

namespace Adoptable

variable {tipHash : Text} {tip : Block} {branch : List Block}
variable (adoptable : Adoptable env db tipHash tip branch) (sound : Sound env db)
include adoptable sound

theorem last : branch.getLast? = some tip :=
  collectBranch_last sound adoptable.holds.trips.facts.1 adoptable.holds adoptable.collected

theorem held : ∀ block ∈ branch, Holds env db block :=
  (collectBranch_spec sound _ (by simp) (fun _ => adoptable.holds) adoptable.collected).1

/-- The written part reaches the tip and is stored. -/
theorem adoptedPart_facts : (adoptedPart env db branch).getLast? = some tip ∧
    ∀ block ∈ adoptedPart env db branch, Holds env db block := by
  have last := adoptable.last sound
  have short : canonicalPart env db branch ≤ branch.length :=
    (List.takeWhile_sublist _).length_le
  have present : 0 < branch.length := by
    cases branch with
    | nil => cases last
    | cons first rest => exact Nat.succ_pos _
  constructor
  · rw [adoptedPart, List.getLast?_drop, if_neg (by omega), last]
  · exact fun block member => adoptable.held sound block (List.mem_of_mem_drop member)

end Adoptable

/-- The writes of an adoption that moves the tip. -/
theorem Adoptable.rewritten {tipHash : Text} {tip : Block} {branch : List Block}
    (adoptable : Adoptable env db tipHash tip branch) (sound : Sound env db) (now : Int)
    (reason : String) (previousTip : Block) :
    Rewritten env db (finishChain env (writeChain env db (adoptedPart env db branch)) now reason
      previousTip tip) := by
  have written := (rewritten_writeChain (adoptedPart env db branch) sound
    (adoptable.adoptedPart_facts sound).2).1
  exact written.trans ((writes_finishChain _ _ _ _ _).rewritten_ends written.sound)

theorem rewritten_adoptStoredChainEndingAtHash (sound : Sound env db) (now : Int) (tipHash : Text) :
    Rewritten env db (adoptStoredChainEndingAtHash env now db tipHash).2 := by
  rcases adopt_cases sound now tipHash with
    refused | ⟨tip, branch, adoptable, ⟨-, kept⟩ | ⟨-, moved⟩⟩
  · rw [refused]
    exact .refl sound
  · rw [kept]
    exact .refl sound
  · rw [moved]
    exact adoptable.rewritten sound now _ _

/-! ### Runs -/

inductive ChainStep where
  | addBlock (ambient : Ambient) (block : Block)
  | setFirstBlockId (number : Int)
  | rebuildBestChainIndex (now : Int)
  | adoptStoredChainEndingAtHash (now : Int) (tipHash : Text)

def ChainStep.apply (env : Env) (node : Node) : ChainStep → Node
  | .addBlock ambient block => (Safire.addBlock env ambient node block).2
  | .setFirstBlockId number => { node with db := Safire.setFirstBlockId node.db number }
  | .rebuildBestChainIndex now => { node with db := (Safire.rebuildBestChainIndex env now node.db).2 }
  | .adoptStoredChainEndingAtHash now tipHash =>
      { node with db := (Safire.adoptStoredChainEndingAtHash env now node.db tipHash).2 }

def runSteps (env : Env) (node : Node) (steps : List ChainStep) : Node :=
  steps.foldl (ChainStep.apply env) node

theorem runSteps_nil (env : Env) (node : Node) : runSteps env node [] = node := rfl

theorem runSteps_addBlock (env : Env) (node : Node) (ambient : Ambient) (block : Block)
    (rest : List ChainStep) : runSteps env node (.addBlock ambient block :: rest) =
      runSteps env (addBlock env ambient node block).2 rest := rfl

theorem runSteps_setFirstBlockId (env : Env) (node : Node) (number : Int)
    (rest : List ChainStep) : runSteps env node (.setFirstBlockId number :: rest) =
      runSteps env { node with db := setFirstBlockId node.db number } rest := rfl

/-- A run that stores a genesis block and sets the first number. -/
theorem runSteps_startedNode {ambient : Ambient} {genesis : Block}
    (added : checkAddedBlock env genesis = .ok ())
    (valid : (validateBlockForStorage env ambient ∅ .empty genesis).1 = .ok ())
    (rest : List ChainStep) : runSteps env .empty
      (.addBlock ambient genesis :: .setFirstBlockId genesis.number :: rest) =
        runSteps env (startedNode env ambient genesis) rest := by
  rw [runSteps_addBlock, startedNode_added added valid, runSteps_setFirstBlockId]
  rfl

/-! ### A variant of the tip -/

namespace Sample

/-- An empty block on the genesis block, then a block of the same slot with two
transfers of one nonce. -/
def variantSteps : List ChainStep :=
  [.addBlock sampleAmbient genesis, .setFirstBlockId genesis.number, .addBlock sampleAmbient emptyBlock,
    .addBlock sampleAmbient duplicateBlock]

theorem runSteps_started (rest : List ChainStep) : runSteps Sample.env .empty
    (.addBlock sampleAmbient genesis :: .setFirstBlockId genesis.number :: rest) =
      runSteps Sample.env started rest :=
  runSteps_startedNode (block_alone 0 rfl).added genesis_valid rest

theorem started_steps : ChainStep.apply Sample.env (ChainStep.apply Sample.env .empty
    (.addBlock sampleAmbient genesis)) (.setFirstBlockId genesis.number) = started :=
  runSteps_started []

theorem duplicateBlock_alone : PassesAlone Sample.env duplicateBlock :=
  block_alone 3 rfl

theorem duplicateBlock_fits : FitsBeside Sample.env [emptyBlock, genesis] genesis emptyBlock
    duplicateBlock :=
  ⟨List.mem_cons_of_mem _ List.mem_cons_self, rfl, rfl, by decide, by decide, by decide,
    by decide, duplicateBlock_alone⟩

theorem run_variantSteps : (runSteps Sample.env .empty variantSteps).db =
    writeBlock Sample.env (extended emptyBlock).db duplicateBlock := by
  rw [variantSteps, runSteps_started, runSteps_addBlock, emptyBlock_added, runSteps_addBlock,
    tracked_emptyBlock.addBlock_fitting duplicateBlock_fits, runSteps_nil, besideNode]

theorem tracked_variantSteps :
    Tracked Sample.env (runSteps Sample.env .empty variantSteps).db
      [duplicateBlock, emptyBlock, genesis] 100 duplicateBlock 101 := by
  have trips : RoundTrips Sample.env duplicateBlock :=
    roundTrips (List.mem_iff_getElem?.mpr ⟨2, rfl⟩)
  have takes : TakesSlot Sample.env (extended emptyBlock).db duplicateBlock := by
    refine .inr ?_
    have occupant : getBlock Sample.env (extended emptyBlock).db duplicateBlock.number = emptyBlock :=
      tracked_emptyBlock.tipSlot
    rw [occupant]
    decide
  rw [run_variantSteps]
  exact tracked_emptyBlock.write_tip trips duplicateBlock_fits.unknown (by decide) takes
    (.inr ⟨tracked_emptyBlock.not_extendsTip (by decide) (by decide), rfl⟩)

theorem duplicateBlock_not_accepted : ¬ Accepts Sample.env [genesis, duplicateBlock] := by
  decide +kernel

/-! ### A longer invalid branch -/

/-- A valid block on the genesis block, and beside it a branch of two blocks that
goes wrong in its first. -/
def forkSteps : List ChainStep :=
  [.addBlock sampleAmbient genesis, .setFirstBlockId genesis.number, .addBlock sampleAmbient laterBlock,
    .addBlock sampleAmbient duplicateBlock, .addBlock sampleAmbient heirBlock]

def forkedNode : Node :=
  besideNode Sample.env (besideNode Sample.env (extended laterBlock) duplicateBlock) heirBlock

theorem duplicateBlock_fits_later : FitsBeside Sample.env [laterBlock, genesis] genesis laterBlock
    duplicateBlock :=
  ⟨List.mem_cons_of_mem _ List.mem_cons_self, rfl, rfl, by decide, by decide, by decide,
    by decide, duplicateBlock_alone⟩

theorem heirBlock_fits : FitsBeside Sample.env [duplicateBlock, laterBlock, genesis] duplicateBlock
    laterBlock heirBlock :=
  ⟨List.mem_cons_self, rfl, rfl, by decide, by decide, by decide, by decide,
    block_alone 4 rfl⟩

theorem tracked_beside : Tracked Sample.env
    (besideNode Sample.env (extended laterBlock) duplicateBlock).db
    [duplicateBlock, laterBlock, genesis] 100 laterBlock 102 := by
  have highest : max 102 duplicateBlock.number = 102 := by decide
  have placed := tracked_laterBlock.write_fitting
    (roundTrips (List.mem_iff_getElem?.mpr ⟨2, rfl⟩)) duplicateBlock_fits_later (by decide)
  rw [highest] at placed
  simp only [besideNode]
  exact placed

theorem tracked_forkedNode : Tracked Sample.env forkedNode.db
    [heirBlock, duplicateBlock, laterBlock, genesis] 100 laterBlock 103 := by
  have highest : max 102 heirBlock.number = 103 := by decide
  have placed := tracked_beside.write_fitting
    (roundTrips (List.mem_iff_getElem?.mpr ⟨3, rfl⟩)) heirBlock_fits (by decide)
  rw [highest] at placed
  simp only [forkedNode, besideNode] at placed ⊢
  exact placed

theorem run_forkSteps : runSteps Sample.env .empty forkSteps = forkedNode := by
  rw [forkSteps, runSteps_started, runSteps_addBlock, laterBlock_added, runSteps_addBlock,
    tracked_laterBlock.addBlock_fitting duplicateBlock_fits_later, runSteps_addBlock,
    tracked_beside.addBlock_fitting heirBlock_fits, runSteps_nil, forkedNode]

theorem genesis_of_forked {block : Block} (rooted : StoredGenesis Sample.env forkedNode.db block) :
    block = genesis := by
  have only : ∀ block ∈ [heirBlock, duplicateBlock, laterBlock, genesis],
      block.previousBlockId ≤ 0 → block = genesis := by
    simp [heirBlock, duplicateBlock, laterBlock, Sample.block]
  exact only block (tracked_forkedNode.mem_getStoredBlocks.mp rooted.1) rooted.2.2

theorem storedGenesis_forked : StoredGenesis Sample.env forkedNode.db genesis := by
  refine ⟨tracked_forkedNode.mem_getStoredBlocks.mpr (by simp), ?_, by decide⟩
  rw [tracked_forkedNode.first]
  rfl

/-- Of the two children of the genesis block, the later one has no child. -/
theorem forked_joined : ∀ second ∈ [heirBlock, duplicateBlock, laterBlock, genesis],
    ∀ third ∈ [heirBlock, duplicateBlock, laterBlock, genesis],
    childConnectsToParent second genesis = true → childConnectsToParent third second = true →
      second = duplicateBlock := by
  have apart : ∀ third ∈ [heirBlock, duplicateBlock, laterBlock, genesis],
      childConnectsToParent third laterBlock = false := by
    simp only [List.forall_mem_cons]
    exact ⟨by decide, by decide, by decide, by decide, by simp⟩
  intro second member third listed joins further
  simp only [List.mem_cons, List.not_mem_nil, or_false] at member
  rcases member with rfl | same | rfl | rfl
  · exact absurd joins (by decide)
  · exact same
  · rw [apart third listed] at further
    cases further
  · exact absurd joins (by decide)

/-- The invalid branch is the longest one, so every path as long begins with it. -/
theorem forked_best_begins {best : List Block}
    (structural : StructurallyBest Sample.env forkedNode.db best) :
    [genesis, duplicateBlock] <+: best := by
  have stored : ∀ {block : Block}, block ∈ [heirBlock, duplicateBlock, laterBlock, genesis] →
      block ∈ getStoredBlocks Sample.env forkedNode.db :=
    tracked_forkedNode.mem_getStoredBlocks.mpr
  have branch : StoredPath Sample.env forkedNode.db [genesis, duplicateBlock, heirBlock] := by
    refine ⟨List.isChain_cons_cons.mpr ⟨⟨stored (by simp), by decide⟩,
      List.isChain_cons_cons.mpr ⟨⟨stored (by simp), by decide⟩, List.isChain_singleton _⟩⟩,
      genesis, rfl, storedGenesis_forked⟩
  have long : 3 ≤ best.length := by
    rcases structural.best _ branch with rfl | beats
    · exact le_rfl
    · rcases beats with longer | ⟨same, -⟩
      · exact longer.le
      · exact same.le
  obtain ⟨first, second, third, rest, rfl⟩ : ∃ first second third rest,
      best = first :: second :: third :: rest := by
    clear branch structural
    match best with
    | [] | [_] | [_, _] => exact absurd long (by simp)
    | first :: second :: third :: rest => exact ⟨first, second, third, rest, rfl⟩
  obtain ⟨start, next⟩ := pathFrom_cons_cons.mp structural.isPath
  obtain ⟨⟨secondStored, secondJoins⟩, later⟩ := pathFrom_cons_cons.mp next
  obtain ⟨_, head, thirdStored, thirdJoins⟩ := later.begins
  cases head
  obtain rfl := genesis_of_forked start
  obtain rfl := forked_joined second (tracked_forkedNode.mem_getStoredBlocks.mp secondStored) third
    (tracked_forkedNode.mem_getStoredBlocks.mp thirdStored) secondJoins thirdJoins
  exact ⟨third :: rest, rfl⟩

theorem forked_full : (tryValidatedCheckpointFastPath Sample.env forkedNode.db).1 = none := by
  refine fastPath_none tracked_forkedNode.highest ?_
  rw [tracked_forkedNode.latest]
  decide

theorem forked_positive : 0 < (rebuildBestChainIndex Sample.env 0 forkedNode.db).1 := by
  refine rebuild_positive 0 ?_ forked_full (bestValidChain_ne_nil storedGenesis_forked ?_)
  · rw [tracked_forkedNode.first]
    decide
  · intro block rooted
    rw [genesis_of_forked rooted]
    exact accepts_genesis

theorem laterBlock_acceptedStored :
    AcceptedStored Sample.env forkedNode.db [genesis, laterBlock] where
  accepted := accepts_laterBlock
  stored := by
    intro block member
    refine tracked_forkedNode.mem_getStoredBlocks.mpr ?_
    rcases List.mem_pair.mp member with rfl | rfl <;> simp
  rooted := by
    intro block head
    rw [← Option.some.inj head]
    exact storedGenesis_forked.2.1

/-- The rebuild cuts the invalid branch back to the genesis block, although a
longer valid branch is stored. -/
theorem fork_not_best :
    (tryValidatedCheckpointFastPath Sample.env (runSteps Sample.env .empty forkSteps).db).1 = none ∧
      0 < (rebuildBestChainIndex Sample.env 0 (runSteps Sample.env .empty forkSteps).db).1 ∧
      Installed Sample.env
        (rebuildBestChainIndex Sample.env 0 (runSteps Sample.env .empty forkSteps).db).2
        (bestValidChain Sample.env (runSteps Sample.env .empty forkSteps).db) ∧
      ¬ InstallsBest Sample.env (runSteps Sample.env .empty forkSteps).db
        (bestValidChain Sample.env (runSteps Sample.env .empty forkSteps).db) := by
  rw [run_forkSteps]
  refine ⟨forked_full, forked_positive, installed_rebuild 0 forked_full forked_positive, ?_⟩
  intro installs
  have long : 2 ≤ (bestValidChain Sample.env forkedNode.db).length :=
    (installs _ laterBlock_acceptedStored).1
  have present : bestValidChain Sample.env forkedNode.db ≠ [] :=
    List.ne_nil_of_length_pos (by omega)
  obtain ⟨_, state, connected⟩ := accepts_iff.mp (bestValidChain_accepts present)
  obtain ⟨best, structural, path⟩ := bestPath_spec storedGenesis_forked
  have begins : [genesis, duplicateBlock] <+: bestPath Sample.env forkedNode.db
      maxRebuildChainDepth := by
    rw [path, maxRebuildChainDepth]
    exact List.prefix_take_iff.mpr ⟨forked_best_begins structural, by simp⟩
  obtain ⟨after, split⟩ := List.prefix_of_prefix_length_le begins bestValidChain_isPrefix long
  rw [← split] at connected
  obtain ⟨earlier, connectedBefore⟩ := connectChain_prefix connected
  exact duplicateBlock_not_accepted (accepts_iff.mpr ⟨by simp, earlier, connectedBefore⟩)

theorem fork_installs_best_iff :
    (tryValidatedCheckpointFastPath Sample.env forkedNode.db).1 = none ∧
      0 < (rebuildBestChainIndex Sample.env 0 forkedNode.db).1 ∧
      (InstallsBest Sample.env forkedNode.db (bestValidChain Sample.env forkedNode.db) ↔
        BestPathSuffices Sample.env forkedNode.db) :=
  ⟨forked_full, forked_positive,
    (rebuild_installs_best_iff Sample.env 0 forkedNode.db forked_full forked_positive).2⟩

end Sample

end Safire
