/-
What the lookup of the next block returns.

The hash entry, the number entry and the scan share one variable. A block that an
entry names and that is no child stays in it, and the scan only replaces it by a
child that is preferred to it. So the lookup returns a child, or nothing, exactly
where no entry leaves such a block behind or a stored child outranks it.
-/

import Safire.IndexIntegrity

namespace Safire

open Text ChainValidator

variable {env : Env} {db : LevelDb} {block : Block}

/-! ### The scan -/

/-- The scan keeps its start, or some candidate is taken over it and a child is found. -/
theorem scan_cases {accepts : Block → Block → Bool} {child : Block → Prop} (start : Block)
    (candidates : List Block)
    (picked : ∀ candidate ∈ candidates, ∀ best, accepts best candidate = true → child candidate) :
    let found := candidates.foldl
      (fun best candidate => if accepts best candidate then candidate else best) start
    found = start ∧ (∀ candidate ∈ candidates, accepts start candidate = false) ∨
      found ∈ candidates ∧ child found ∧ ∃ candidate ∈ candidates, accepts start candidate = true := by
  induction candidates generalizing start with
  | nil => exact .inl ⟨rfl, by simp⟩
  | cons candidate rest ih =>
      dsimp only at ih ⊢
      rw [List.foldl_cons]
      have later := fun best => ih best fun other member => picked other (List.mem_cons_of_mem _ member)
      by_cases taken : accepts start candidate = true
      · rw [if_pos taken]
        have own := picked candidate List.mem_cons_self start taken
        cases later candidate with
        | inl kept =>
            rw [kept.1]
            exact .inr ⟨List.mem_cons_self, own, candidate, List.mem_cons_self, taken⟩
        | inr replaced =>
            exact .inr ⟨List.mem_cons_of_mem _ replaced.1, replaced.2.1, candidate,
              List.mem_cons_self, taken⟩
      · rw [if_neg taken]
        cases later start with
        | inl kept =>
            refine .inl ⟨kept.1, fun other member => ?_⟩
            cases List.mem_cons.mp member with
            | inl own => exact own ▸ Bool.not_eq_true _ ▸ taken
            | inr old => exact kept.2 other old
        | inr replaced =>
            obtain ⟨member, own, other, otherMember, otherTaken⟩ := replaced
            exact .inr ⟨List.mem_cons_of_mem _ member, own, other,
              List.mem_cons_of_mem _ otherMember, otherTaken⟩

/-! ### Children -/

/-- Nothing, or a stored block that connects to the parent. -/
def ChildOrNone (env : Env) (db : LevelDb) (parent next : Block) : Prop :=
  next.number = -1 ∨ Holds env db next ∧ childConnectsToParent next parent = true

/-- Both lookups return nothing or a stored child. -/
structure NextIsChild (env : Env) (db : LevelDb) (block : Block) : Prop where
  byHash : ChildOrNone env db block (getNextBlockByHash env db block)
  next : ChildOrNone env db block (getNextBlock env db block)

/-- A stored block that the entries of a block name although it is no child of it:
the one in the slot of the number entry, or the one of the hash entry where there is
no number entry. -/
structure StaleLink (env : Env) (db : LevelDb) (block other : Block) : Prop where
  holds : Holds env db other
  unlinked : ∀ child, db.get (.next block.hash) = child.hash → Holds env db child →
    childConnectsToParent child block = false
  unrelated : childConnectsToParent other block = false
  named : 0 < (db.getLong (.nextBlock block.number)).getD (-1) ∧
      getBlock env db ((db.getLong (.nextBlock block.number)).getD (-1)) = other ∨
    ¬ 0 < (db.getLong (.nextBlock block.number)).getD (-1) ∧ db.get (.next block.hash) = other.hash

/-- A stored child that the scan takes in the place of the block. -/
def Outranked (env : Env) (db : LevelDb) (block other : Block) : Prop :=
  ∃ child, Holds env db child ∧ childConnectsToParent child block = true ∧
    preferBlockVariant child other = true

theorem not_connects_of_missing {child parent : Block} (missing : ¬ 0 < child.number) :
    childConnectsToParent child parent = false := by
  rw [← Bool.not_eq_true, childConnectsToParent_iff]
  intro connects
  omega

theorem ChildOrNone.of_child {parent next : Block} (holds : Holds env db next)
    (connects : childConnectsToParent next parent = true) : ChildOrNone env db parent next :=
  .inr ⟨holds, connects⟩

/-- A stale link is what the entries leave in the variable for the scan. -/
theorem staleLink_iff (sound : Sound env db) {other : Block} :
    StaleLink env db block other ↔ linkedNextBlock env db block = other ∧ 0 < other.number ∧
      childConnectsToParent other block = false := by
  have entry : ∀ child, db.get (.next block.hash) = child.hash → Holds env db child →
      (if 0 < (db.get (.next block.hash)).length then
        getBlockByHash env db (db.get (.next block.hash)) else Block.missing) = child := by
    intro child named holds
    rw [named, if_pos (List.length_pos_iff.mpr holds.trips.facts.2.1), holds.getBlockByHash_eq]
  have found : ∀ child, (if 0 < (db.get (.next block.hash)).length then
        getBlockByHash env db (db.get (.next block.hash)) else Block.missing) = child →
      0 < child.number → Holds env db child ∧ db.get (.next block.hash) = child.hash := by
    intro child read positive
    split at read
    · rw [← read] at positive ⊢
      obtain ⟨holds, named⟩ := sound.holds_getBlockByHash positive
      exact ⟨holds, named.symm⟩
    · rw [← read] at positive
      cases positive
  constructor
  · intro stale
    refine ⟨?_, stale.holds.trips.facts.1, stale.unrelated⟩
    unfold linkedNextBlock
    dsimp only
    generalize (if 0 < (db.get (.next block.hash)).length then
      getBlockByHash env db (db.get (.next block.hash)) else Block.missing) = byHash at entry found ⊢
    have apart : childConnectsToParent byHash block = false := by
      by_cases positive : 0 < byHash.number
      · obtain ⟨holds, named⟩ := found byHash rfl positive
        exact stale.unlinked byHash named holds
      · exact not_connects_of_missing positive
    rw [if_neg (Bool.not_eq_true _ ▸ apart)]
    cases stale.named with
    | inl numbered =>
        rw [if_pos numbered.1]
        exact numbered.2
    | inr hashed =>
        rw [if_neg hashed.1]
        exact entry other hashed.2 stale.holds
  · intro left
    obtain ⟨linked, positive, unrelated⟩ := left
    have holds : Holds env db other := by
      rw [← linked] at positive ⊢
      exact sound.holds_linkedNextBlock positive
    unfold linkedNextBlock at linked
    dsimp only at linked
    generalize (if 0 < (db.get (.next block.hash)).length then
      getBlockByHash env db (db.get (.next block.hash)) else Block.missing) = byHash
      at entry found linked
    have apart : childConnectsToParent byHash block = false := by
      by_contra connects
      rw [Bool.not_eq_false] at connects
      rw [if_pos connects] at linked
      rw [linked, unrelated] at connects
      cases connects
    rw [if_neg (Bool.not_eq_true _ ▸ apart)] at linked
    constructor
    case holds => exact holds
    case unlinked =>
      intro child named childHolds
      rw [← entry child named childHolds]
      exact apart
    case unrelated => exact unrelated
    case named =>
      by_cases numbered : 0 < (db.getLong (.nextBlock block.number)).getD (-1)
      · rw [if_pos numbered] at linked
        exact .inl ⟨numbered, linked⟩
      · rw [if_neg numbered] at linked
        exact .inr ⟨numbered, (found other linked positive).2⟩

/-! ### The lookups -/

theorem Sound.getBlockByHash_missing (sound : Sound env db) {hash : Text}
    (missing : ¬ 0 < (getBlockByHash env db hash).number) : getBlockByHash env db hash = .missing := by
  by_cases stored : db.get (.block hash) = []
  · unfold getBlockByHash
    rw [stored]
    split
    · rfl
    · rfl
  · obtain ⟨block, holds, named⟩ := sound.blocks hash stored
    rw [← named, holds.getBlockByHash_eq] at missing
    exact absurd holds.trips.facts.1 missing

/-- A lookup of the entries that finds nothing returns the missing block. -/
theorem Sound.linkedNextBlock_missing (sound : Sound env db)
    (missing : ¬ 0 < (linkedNextBlock env db block).number) :
    linkedNextBlock env db block = .missing := by
  have byHash : ¬ 0 < (if 0 < (db.get (.next block.hash)).length then
        getBlockByHash env db (db.get (.next block.hash)) else Block.missing).number →
      (if 0 < (db.get (.next block.hash)).length then
        getBlockByHash env db (db.get (.next block.hash)) else Block.missing) = .missing := by
    split
    · exact sound.getBlockByHash_missing
    · exact fun _ => rfl
  revert missing
  unfold linkedNextBlock
  dsimp only
  generalize (if 0 < (db.get (.next block.hash)).length then
    getBlockByHash env db (db.get (.next block.hash)) else Block.missing) = linked at byHash ⊢
  split
  · exact byHash
  · split
    · intro missing
      cases sound.getBlock_cases ((db.getLong (.nextBlock block.number)).getD (-1)) with
      | inl empty => exact empty.1
      | inr held => exact absurd held.1.trips.facts.1 missing
    · exact byHash

theorem childOrNone_getNextBlockByHash_iff (sound : Sound env db) (holds : Holds env db block) :
    ChildOrNone env db block (getNextBlockByHash env db block) ↔
      ∀ other, StaleLink env db block other → Outranked env db block other := by
  obtain ⟨positive, named, -⟩ := holds.trips.facts
  have usable : ¬ (block.number ≤ 0 ∨ block.hash.length = 0) := by
    rw [not_or, not_le, List.length_eq_zero_iff]
    exact ⟨positive, named⟩
  unfold getNextBlockByHash
  dsimp only
  rw [if_neg usable]
  by_cases linked : childConnectsToParent (linkedNextBlock env db block) block = true
  · rw [if_pos linked]
    apply iff_of_true
    · have later := (childConnectsToParent_iff.mp linked).2.2.1
      exact .of_child (sound.holds_linkedNextBlock (positive.trans later)) linked
    · intro other stale
      obtain ⟨same, -, unrelated⟩ := (staleLink_iff sound).mp stale
      rw [← same, linked] at unrelated
      cases unrelated
  · rw [if_neg linked]
    have scanned := @scan_cases
      (fun best candidate => childConnectsToParent candidate block && preferBlockVariant candidate best)
      (fun candidate => childConnectsToParent candidate block = true)
      (linkedNextBlock env db block) (getStoredBlocks env db)
      (fun candidate _ best taken => (Bool.and_eq_true _ _ ▸ taken).1)
    dsimp only at scanned
    generalize (getStoredBlocks env db).foldl (fun best candidate =>
      if childConnectsToParent candidate block && preferBlockVariant candidate best then candidate
      else best) (linkedNextBlock env db block) = found at scanned ⊢
    cases scanned with
    | inr child =>
        obtain ⟨member, connects, candidate, candidateMember, taken⟩ := child
        rw [Bool.and_eq_true] at taken
        apply iff_of_true
        · exact .of_child (sound.mem_getStoredBlocks.mp member) connects
        · intro other stale
          obtain ⟨same, -, -⟩ := (staleLink_iff sound).mp stale
          exact ⟨candidate, sound.mem_getStoredBlocks.mp candidateMember, taken.1, same ▸ taken.2⟩
    | inl kept =>
        obtain ⟨same, refused⟩ := kept
        rw [same]
        by_cases present : 0 < (linkedNextBlock env db block).number
        · apply iff_of_false
          · intro verdict
            cases verdict with
            | inl none => omega
            | inr child => exact linked child.2
          · intro covered
            have stale := (staleLink_iff sound).mpr ⟨rfl, present, Bool.not_eq_true _ ▸ linked⟩
            obtain ⟨child, childHolds, connects, preferred⟩ := covered _ stale
            have taken := refused child (sound.mem_getStoredBlocks.mpr childHolds)
            rw [connects, preferred] at taken
            cases taken
        · rw [sound.linkedNextBlock_missing present]
          apply iff_of_true
          · exact .inl rfl
          · intro other stale
            obtain ⟨linkedIs, otherPositive, -⟩ := (staleLink_iff sound).mp stale
            exact absurd (linkedIs ▸ otherPositive) present

/-- A stored child keeps the lookup from returning nothing. -/
theorem next_positive_of_child (sound : Sound env db) {child : Block} (holds : Holds env db block)
    (childHolds : Holds env db child) (connects : childConnectsToParent child block = true) :
    0 < (getNextBlock env db block).number := by
  obtain ⟨positive, named, -⟩ := holds.trips.facts
  have usable : ¬ (block.number ≤ 0 ∨ block.hash.length = 0) := by
    rw [not_or, not_le, List.length_eq_zero_iff]
    exact ⟨positive, named⟩
  have byHash : 0 < (getNextBlockByHash env db block).number := by
    unfold getNextBlockByHash
    dsimp only
    rw [if_neg usable]
    split
    · rename_i linked
      exact positive.trans (childConnectsToParent_iff.mp linked).2.2.1
    · have scanned := @scan_cases
        (fun best candidate =>
          childConnectsToParent candidate block && preferBlockVariant candidate best)
        (fun candidate => childConnectsToParent candidate block = true)
        (linkedNextBlock env db block) (getStoredBlocks env db)
        (fun candidate _ best taken => (Bool.and_eq_true _ _ ▸ taken).1)
      dsimp only at scanned
      cases scanned with
      | inr found => exact positive.trans (childConnectsToParent_iff.mp found.2.1).2.2.1
      | inl kept =>
          rw [kept.1]
          by_contra missing
          have taken := kept.2 child (sound.mem_getStoredBlocks.mpr childHolds)
          rw [connects, sound.linkedNextBlock_missing missing, Bool.true_and] at taken
          cases taken
  unfold getNextBlock
  dsimp only
  rw [if_pos byHash]
  exact byHash

/-- The last lookups check the link, so they add nothing. -/
theorem nextIsChild_iff (sound : Sound env db) (holds : Holds env db block) :
    NextIsChild env db block ↔
      ∀ other, StaleLink env db block other → Outranked env db block other := by
  rw [← childOrNone_getNextBlockByHash_iff sound holds]
  constructor
  · exact NextIsChild.byHash
  · intro byHash
    refine ⟨byHash, ?_⟩
    unfold getNextBlock
    dsimp only
    split
    · exact byHash
    · split
      · rename_i child
        exact .of_child (sound.holds_getBlock child.1).1 child.2
      · exact .inl rfl

/-! ### Repeated lookups -/

/-- Some number of lookups in a row ends at nothing. -/
def NextTerminates (env : Env) (db : LevelDb) (block : Block) : Prop :=
  ∃ rounds, ((getNextBlock env db)^[rounds] block).number ≤ 0

theorem NextIsChild.above (next : NextIsChild env db block) :
    (getNextBlock env db block).number = -1 ∨
      Holds env db (getNextBlock env db block) ∧ block.number < (getNextBlock env db block).number := by
  cases next.next with
  | inl none => exact .inl none
  | inr child => exact .inr ⟨child.1, (childConnectsToParent_iff.mp child.2).2.2.1⟩

theorem nextTerminates_of_bound {bound : Int} (bounded : ∀ block, Holds env db block →
      block.number ≤ bound) (children : ∀ block, Holds env db block → NextIsChild env db block)
    (distance : Nat) : ∀ {block : Block}, Holds env db block →
      bound - block.number < distance → NextTerminates env db block := by
  induction distance with
  | zero =>
      intro block holds within
      have below := bounded block holds
      omega
  | succ distance ih =>
      intro block holds within
      cases (children block holds).above with
      | inl none => exact ⟨1, by rw [Function.iterate_one, none]; decide⟩
      | inr later =>
          obtain ⟨nextHolds, above⟩ := later
          obtain ⟨rounds, ended⟩ := ih nextHolds (by omega)
          exact ⟨rounds + 1, by rwa [Function.iterate_succ_apply]⟩

theorem nextTerminates (indexed : Indexed env db)
    (children : ∀ block, Holds env db block → NextIsChild env db block) (holds : Holds env db block) :
    NextTerminates env db block := by
  have highest := indexed.highest
  unfold HighestAgrees at highest
  cases read : db.getLong highestKey with
  | none =>
      rw [read] at highest
      exact absurd (Set.mem_ofPred.mpr ⟨block, holds, rfl⟩) (highest ▸ Set.notMem_empty block.number)
  | some bound =>
      rw [read] at highest
      have bounded : ∀ other, Holds env db other → other.number ≤ bound :=
        fun other held => highest.2 ⟨other, held, rfl⟩
      exact nextTerminates_of_bound bounded children (bound - block.number + 1).toNat holds
        (by have below := bounded block holds; omega)

/-- In every reached store a lookup returns nothing or a stored child exactly where
its entries leave no stale link or a stored child outranks the stale one; where that
is so for all stored blocks, repeated lookups end. -/
theorem next_is_child_iff (env : Env) (steps : List ChainStep)
    (reads : ∀ step ∈ steps, step.Adds (RoundTrips env)) :
    (∀ block, Holds env (runSteps env .empty steps).db block →
      (NextIsChild env (runSteps env .empty steps).db block ↔
        ∀ other, StaleLink env (runSteps env .empty steps).db block other →
          Outranked env (runSteps env .empty steps).db block other)) ∧
      ((∀ block, Holds env (runSteps env .empty steps).db block →
          ∀ other, StaleLink env (runSteps env .empty steps).db block other →
            Outranked env (runSteps env .empty steps).db block other) →
        ∀ block, Holds env (runSteps env .empty steps).db block →
          NextTerminates env (runSteps env .empty steps).db block) := by
  have reached := reached_of_run reads
  constructor
  · exact fun block holds => nextIsChild_iff reached.sound holds
  · intro covered block holds
    apply nextTerminates reached.toIndexed _ holds
    exact fun other held => (nextIsChild_iff reached.sound held).mpr (covered other held)

namespace Sample

/-- The branch of two blocks, and then a second block in the slot of its first. -/
def staleSteps : List ChainStep :=
  forkSteps ++ [.addBlock sampleAmbient emptyBlock]

def staleNode : Node :=
  besideNode Sample.env forkedNode emptyBlock

theorem emptyBlock_fits_forked : FitsBeside Sample.env [heirBlock, duplicateBlock, laterBlock, genesis]
    genesis laterBlock emptyBlock :=
  ⟨by simp, rfl, rfl, by decide, by decide, by decide, by decide, block_alone 1 rfl⟩

theorem tracked_staleNode : Tracked Sample.env staleNode.db
    [emptyBlock, heirBlock, duplicateBlock, laterBlock, genesis] 100 laterBlock 103 := by
  have highest : max 103 emptyBlock.number = 103 := by decide
  have placed := tracked_forkedNode.write_fitting
    (roundTrips (List.mem_iff_getElem?.mpr ⟨4, rfl⟩)) emptyBlock_fits_forked (by decide)
  rw [highest] at placed
  simp only [staleNode, besideNode] at placed ⊢
  exact placed

theorem run_staleSteps : runSteps Sample.env .empty staleSteps = staleNode := by
  have early : runSteps Sample.env .empty forkSteps = forkedNode := run_forkSteps
  unfold runSteps at early
  rw [staleSteps, runSteps, List.foldl_append, early, List.foldl_cons, List.foldl_nil,
    ChainStep.apply, tracked_forkedNode.addBlock_fitting emptyBlock_fits_forked, staleNode]

theorem reads_staleSteps : ∀ step ∈ staleSteps, step.Adds (RoundTrips Sample.env) := by
  intro step member
  rw [staleSteps, List.mem_append, List.mem_singleton] at member
  cases member with
  | inl early => exact reads_forkSteps step early
  | inr last =>
      rw [last]
      exact roundTrips (List.mem_iff_getElem?.mpr ⟨4, rfl⟩)

theorem holds_staleNode {block : Block}
    (listed : block ∈ [emptyBlock, heirBlock, duplicateBlock, laterBlock, genesis]) :
    Holds Sample.env (runSteps Sample.env .empty staleSteps).db block := by
  rw [run_staleSteps]
  exact (tracked_staleNode.holds block).mpr listed

/-- The number entry of the first block of the slot, looked up for the second one. -/
theorem next_emptyBlock :
    (getNextBlockByHash Sample.env staleNode.db emptyBlock).number = heirBlock.number := by
  decide +kernel

theorem stale_next_no_child :
    (∀ step ∈ staleSteps, step.Adds (RoundTrips Sample.env)) ∧
      Holds Sample.env (runSteps Sample.env .empty staleSteps).db emptyBlock ∧
      ¬ NextIsChild Sample.env (runSteps Sample.env .empty staleSteps).db emptyBlock := by
  refine ⟨reads_staleSteps, holds_staleNode (by simp), ?_⟩
  intro next
  have verdict := next.byHash
  rw [run_staleSteps] at verdict
  cases verdict with
  | inl none =>
      rw [next_emptyBlock] at none
      exact absurd none (by decide)
  | inr child =>
      obtain ⟨held, connects⟩ := child
      have childless : ∀ other ∈ [emptyBlock, heirBlock, duplicateBlock, laterBlock, genesis],
          childConnectsToParent other emptyBlock = false := by decide
      rw [childless _ ((tracked_staleNode.holds _).mp held)] at connects
      cases connects

/-- The links of the two blocks of one chain. -/
theorem links_emptyBlock :
    (extended emptyBlock).db.get (.next genesis.hash) = emptyBlock.hash ∧
      (extended emptyBlock).db.getLong (.nextBlock emptyBlock.number) = none ∧
      (extended emptyBlock).db.get (.next emptyBlock.hash) = [] := by
  decide +kernel

theorem no_staleLink_emptyBlock {block other : Block}
    (holds : Holds Sample.env (extended emptyBlock).db block) :
    ¬ StaleLink Sample.env (extended emptyBlock).db block other := by
  obtain ⟨link, number, last⟩ := links_emptyBlock
  intro stale
  rcases List.mem_pair.mp ((tracked_emptyBlock.holds block).mp holds) with rfl | rfl
  · rcases stale.named with ⟨positive, -⟩ | ⟨-, named⟩
    · rw [number] at positive
      exact absurd positive (by decide)
    · rw [last] at named
      exact stale.holds.trips.facts.2.1 named.symm
  · have apart := stale.unlinked emptyBlock link
      ((tracked_emptyBlock.holds emptyBlock).mpr List.mem_cons_self)
    exact absurd apart (by decide)

/-- The lookup of a block with a stale link, and a store without any. -/
theorem next_is_child_iff_of_samples :
    (Holds Sample.env (runSteps Sample.env .empty staleSteps).db duplicateBlock ∧
      (NextIsChild Sample.env (runSteps Sample.env .empty staleSteps).db duplicateBlock ↔
        ∀ other, StaleLink Sample.env (runSteps Sample.env .empty staleSteps).db duplicateBlock other →
          Outranked Sample.env (runSteps Sample.env .empty staleSteps).db duplicateBlock other)) ∧
      Holds Sample.env (runSteps Sample.env .empty (tipSteps emptyBlock)).db genesis ∧
      NextTerminates Sample.env (runSteps Sample.env .empty (tipSteps emptyBlock)).db genesis := by
  have holds := @holds_staleNode duplicateBlock (by simp)
  have reads : ∀ step ∈ tipSteps emptyBlock, step.Adds (RoundTrips Sample.env) :=
    fun step member => (adds_tipSteps (List.mem_iff_getElem?.mpr ⟨4, rfl⟩) step member).reads
  have rooted : Holds Sample.env (runSteps Sample.env .empty (tipSteps emptyBlock)).db genesis := by
    rw [run_tipSteps_emptyBlock]
    exact (tracked_emptyBlock.holds genesis).mpr (by simp)
  refine ⟨⟨holds, (next_is_child_iff Sample.env staleSteps reads_staleSteps).1 duplicateBlock holds⟩,
    rooted, (next_is_child_iff Sample.env (tipSteps emptyBlock) reads).2 ?_ genesis rooted⟩
  rw [run_tipSteps_emptyBlock]
  exact fun block stored other stale => absurd stale (no_staleLink_emptyBlock stored)

end Sample

end Safire
