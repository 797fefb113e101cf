/-
The stores that runs of the store operations reach, and the agreement of their
indexes.
-/

import Safire.IndexedStore
import Safire.Library.Runs

namespace Safire

open Text ChainValidator

variable {env : Env} {db after : LevelDb} {block : Block}

/-! ### Runs -/

/-- The blocks that a step adds meet the condition. -/
def ChainStep.Adds (allowed : Block → Prop) : ChainStep → Prop
  | .addBlock _ block => allowed block
  | .setFirstBlockId _ => True
  | .rebuildBestChainIndex _ => True
  | .adoptStoredChainEndingAtHash _ _ => True

/-- The stores that runs of blocks that read back reach. -/
structure Reached (env : Env) (db : LevelDb) : Prop extends Indexed env db where
  tip : TipPlaced env db

theorem Reached.addBlock {node : Node} (reached : Reached env node.db) (ambient : Ambient)
    (trips : RoundTrips env block) : Reached env (addBlock env ambient node block).2.db := by
  rcases addBlock_cases env ambient node block with unchanged | ⟨checked, fresh, passed, written⟩
  · rw [unchanged]
    exact reached
  · obtain ⟨content, parent⟩ := content_of_validate checked passed
    rw [written]
    exact ⟨reached.toIndexed.writeBlock trips fresh content parent,
      reached.tip.writeBlock reached.sound trips fresh (checkAddedBlock_below checked)⟩

theorem Reached.setFirstBlockId (reached : Reached env db) (number : Int) :
    Reached env (setFirstBlockId db number) := by
  have writes := writes_setFirstBlockId db number
  have kept : ∀ key : StoreKey, key.family ≠ 6 → key.family ≠ 7 →
      ¬ (key = .firstBlockId ∨ key = .chainMeta "first_block") := by
    rintro key other another (rfl | rfl)
    · exact another rfl
    · exact other rfl
  have held : ∀ block, Holds env (Safire.setFirstBlockId db number) block ↔ Holds env db block :=
    fun block => ⟨fun holds => holds.congr (setFirstBlockId_blockData db number rfl).symm,
      fun holds => holds.congr (setFirstBlockId_blockData db number rfl)⟩
  refine ⟨⟨reached.sound.setFirstBlockId number, ?_, ?_, ?_, ?_, ?_⟩, ?_⟩
  · apply reached.filled.of_writes writes
    rintro key (rfl | rfl) <;> rfl
  · intro block holds
    obtain ⟨content, parent⟩ := reached.admitted block ((held block).mp holds)
    exact ⟨content, parent.mono fun hash _ =>
      getBlockByHash_congr (setFirstBlockId_blockData db number rfl)⟩
  · intro slot hash
    simp only [writes.mem_iff (kept (.slot slot hash) (by simp [StoreKey.family])
      (by simp [StoreKey.family])), reached.slots, held]
  · intro parentHash
    rw [LinkNames, writes.get_eq (kept (.next parentHash) (by simp [StoreKey.family])
      (by simp [StoreKey.family]))]
    simp only [held]
    exact reached.links parentHash
  · exact reached.highest.congr (writes.get_eq (by simp)) (storedNumbers_congr held)
  · intro positive
    rw [getLatestBlockId_setFirstBlockId] at positive ⊢
    rw [getBlock_setFirstBlockId]
    exact reached.tip positive

theorem Reached.rebuildBestChainIndex (reached : Reached env db) (now : Int) :
    Reached env (rebuildBestChainIndex env now db).2 :=
  ⟨reached.toIndexed.rebuildBestChainIndex now,
    reached.tip.rebuildBestChainIndex reached.sound now⟩

theorem Reached.adoptStoredChainEndingAtHash (reached : Reached env db) (now : Int)
    (tipHash : Text) : Reached env (adoptStoredChainEndingAtHash env now db tipHash).2 :=
  ⟨reached.toIndexed.adoptStoredChainEndingAtHash now tipHash,
    reached.tip.adoptStoredChainEndingAtHash reached.sound now tipHash⟩

theorem Reached.step {node : Node} {step : ChainStep} (reached : Reached env node.db)
    (reads : step.Adds (RoundTrips env)) : Reached env (step.apply env node).db := by
  cases step with
  | addBlock ambient block => exact reached.addBlock ambient reads
  | setFirstBlockId number => exact reached.setFirstBlockId number
  | rebuildBestChainIndex now => exact reached.rebuildBestChainIndex now
  | adoptStoredChainEndingAtHash now tipHash => exact reached.adoptStoredChainEndingAtHash now tipHash

theorem reached_empty (env : Env) : Reached env Node.empty.db where
  toIndexed := indexed_empty env
  tip := by
    intro positive
    rw [getLatestBlockId, Node.empty, LevelDb.get_empty, LevelDb.get_empty] at positive
    exact absurd positive (by decide)

theorem reached_of_run {steps : List ChainStep}
    (reads : ∀ step ∈ steps, step.Adds (RoundTrips env)) :
    Reached env (runSteps env .empty steps).db := by
  have keeps : ∀ (node : Node) (step : ChainStep), Reached env node.db →
      step.Adds (RoundTrips env) → Reached env (step.apply env node).db :=
    fun _ _ reached reads => reached.step reads
  exact Runs.invariant keeps (reached_empty env) (Runs.meets_of_forall Node.empty reads)

/-- A stored block was stored before, or is the one that the step adds. -/
theorem ChainStep.holds_apply {node : Node} {step : ChainStep} {allowed : Block → Prop}
    (reached : Reached env node.db)
    (adds : step.Adds fun block => RoundTrips env block ∧ allowed block)
    (before : ∀ block, Holds env node.db block → allowed block) :
    ∀ block, Holds env (step.apply env node).db block → allowed block := by
  have sound := reached.sound
  intro block holds
  cases step with
  | addBlock ambient added =>
      rw [ChainStep.apply] at holds
      rcases addBlock_cases env ambient node added with unchanged | ⟨checked, fresh, -, written⟩
      · rw [unchanged] at holds
        exact before block holds
      · rw [written, holds_writeBlock sound adds.1 fresh (checkAddedBlock_below checked)] at holds
        cases holds with
        | inl new =>
            rw [new]
            exact adds.2
        | inr old => exact before block old
  | setFirstBlockId number =>
      exact before block (holds.congr (setFirstBlockId_blockData node.db number rfl).symm)
  | rebuildBestChainIndex now =>
      exact before block ((holds_of_rewritten (rewritten_rebuildBestChainIndex sound now)).mp holds)
  | adoptStoredChainEndingAtHash now tipHash =>
      exact before block
        ((holds_of_rewritten (rewritten_adoptStoredChainEndingAtHash sound now tipHash)).mp holds)

theorem ChainStep.Adds.reads {step : ChainStep} {allowed : Block → Prop}
    (adds : step.Adds fun block => RoundTrips env block ∧ allowed block) :
    step.Adds (RoundTrips env) := by
  cases step with
  | addBlock ambient block => exact adds.1
  | setFirstBlockId number => trivial
  | rebuildBestChainIndex now => trivial
  | adoptStoredChainEndingAtHash now tipHash => trivial

/-- What holds of every added block holds of every stored one. -/
theorem stored_of_run {allowed : Block → Prop} {steps : List ChainStep}
    (adds : ∀ step ∈ steps, step.Adds fun block => RoundTrips env block ∧ allowed block) :
    ∀ block, Holds env (runSteps env .empty steps).db block → allowed block := by
  have keeps : ∀ (node : Node) (step : ChainStep),
      (Reached env node.db ∧ ∀ block, Holds env node.db block → allowed block) →
      step.Adds (fun block => RoundTrips env block ∧ allowed block) →
      Reached env (step.apply env node).db ∧
        ∀ block, Holds env (step.apply env node).db block → allowed block :=
    fun _ _ before adds => ⟨before.1.step adds.reads, ChainStep.holds_apply before.1 adds before.2⟩
  have nothing : ∀ block, Holds env Node.empty.db block → allowed block :=
    fun block holds => absurd holds (not_holds_empty env block)
  exact (Runs.invariant keeps ⟨reached_empty env, nothing⟩ (Runs.meets_of_forall Node.empty adds)).2

/-! ### Index integrity -/

/-- The five families read by key, with the values that the database has. -/
structure IndexesAgree (env : Env) (db : LevelDb) : Prop where
  blocks : ∀ hash value, db[(StoreKey.block hash).text]? = some value →
    ∃ block, Holds env db block ∧ block.hash = hash ∧ value = blockJSON env block
  canonical : ∀ number hash, db[(StoreKey.canonical number).text]? = some hash →
    ∃ block, Holds env db block ∧ block.hash = hash ∧ block.number = number
  slots : ∀ number hash, (StoreKey.slot number hash).text ∈ db ↔
    ∃ block, Holds env db block ∧ block.hash = hash ∧ block.number = number
  next : ∀ parentHash childHash, db[(StoreKey.next parentHash).text]? = some childHash →
    ∃ child parent, Holds env db child ∧ child.hash = childHash ∧
      Holds env db parent ∧ parent.hash = parentHash ∧ childConnectsToParent child parent = true
  highest : HighestAgrees env db
  tip : TipPlaced env db

/-- A genesis block names no parent. -/
def GenesisUnlinked (block : Block) : Prop :=
  block.previousBlockId ≤ 0 → block.previousBlockHash = []

theorem Reached.indexesAgree (reached : Reached env db)
    (unlinked : ∀ block, Holds env db block → GenesisUnlinked block) : IndexesAgree env db where
  blocks := by
    intro hash value found
    obtain ⟨same, present⟩ := reached.filled.get_eq rfl found
    rw [← same] at present
    obtain ⟨block, holds, named⟩ := reached.sound.blocks hash present
    refine ⟨block, holds, named, ?_⟩
    rw [← same, ← named, holds.stored]
  canonical := by
    intro number hash found
    obtain ⟨same, present⟩ := reached.filled.get_eq rfl found
    rw [← same] at present
    obtain ⟨block, holds, numbered, slot, -⟩ := reached.sound.slots number (.inl present)
    exact ⟨block, holds, slot.symm.trans same, numbered⟩
  slots := reached.slots
  next := by
    intro parentHash childHash found
    obtain ⟨same, present⟩ := reached.filled.get_eq rfl found
    rw [← same] at present
    obtain ⟨named, child, holds, link, hashes⟩ := reached.links parentHash present
    have later : 0 < child.previousBlockId := by
      by_contra genesis
      exact named (hashes ▸ unlinked child holds (not_lt.mp genesis))
    obtain ⟨parentHolds, connects⟩ :=
      (reached.admitted child holds).2.connects reached.sound later
    have parentNamed := (childConnectsToParent_iff.mp connects).2.2.2.2
    exact ⟨child, _, holds, link.trans same, parentHolds, parentNamed.symm.trans hashes, connects⟩
  highest := reached.highest
  tip := reached.tip

/-- The indexes agree after every run whose added blocks read back and whose
genesis blocks name no parent. -/
theorem index_integrity (env : Env) (steps : List ChainStep)
    (adds : ∀ step ∈ steps, step.Adds fun block => RoundTrips env block ∧ GenesisUnlinked block) :
    IndexesAgree env (runSteps env .empty steps).db :=
  (reached_of_run fun step member => (adds step member).reads).indexesAgree (stored_of_run adds)

namespace Sample

theorem adds_listed {block : Block} (listed : block ∈ blocks) :
    RoundTrips Sample.env block ∧ GenesisUnlinked block := by
  have facts : ∀ block ∈ blocks, GenesisUnlinked block := by
    unfold GenesisUnlinked
    decide
  exact ⟨roundTrips listed, facts block listed⟩

/-- The genesis block and a child on it. -/
def tipSteps (child : Block) : List ChainStep :=
  [.addBlock sampleAmbient genesis, .setFirstBlockId genesis.number, .addBlock sampleAmbient child]

theorem adds_tipSteps {child : Block} (listed : child ∈ blocks) : ∀ step ∈ tipSteps child,
    step.Adds fun block => RoundTrips Sample.env block ∧ GenesisUnlinked block := by
  intro step member
  simp only [tipSteps, List.mem_cons, List.not_mem_nil, or_false] at member
  rcases member with rfl | rfl | rfl
  · exact adds_listed (List.mem_iff_getElem?.mpr ⟨0, rfl⟩)
  · trivial
  · exact adds_listed listed

theorem run_tipSteps_emptyBlock :
    runSteps Sample.env .empty (tipSteps emptyBlock) = extended emptyBlock := by
  rw [tipSteps, runSteps_started, runSteps_addBlock, emptyBlock_added, runSteps_nil]

theorem reached_extended_emptyBlock : Reached Sample.env (extended emptyBlock).db := by
  rw [← run_tipSteps_emptyBlock]
  exact reached_of_run fun step member =>
    (adds_tipSteps (List.mem_iff_getElem?.mpr ⟨4, rfl⟩) step member).reads

/-- A later child of the genesis block on the tip, then an earlier one beside it. -/
def besideSteps : List ChainStep :=
  tipSteps laterBlock ++ [.addBlock sampleAmbient emptyBlock]

theorem adds_besideSteps : ∀ step ∈ besideSteps,
    step.Adds fun block => RoundTrips Sample.env block ∧ GenesisUnlinked block := by
  intro step member
  rw [besideSteps, List.mem_append, List.mem_singleton] at member
  cases member with
  | inl early => exact adds_tipSteps (List.mem_iff_getElem?.mpr ⟨5, rfl⟩) step early
  | inr last =>
      rw [last]
      exact adds_listed (List.mem_iff_getElem?.mpr ⟨4, rfl⟩)

theorem run_besideSteps : runSteps Sample.env .empty besideSteps =
    besideNode Sample.env (extended laterBlock) emptyBlock := by
  rw [besideSteps, tipSteps, List.cons_append, List.cons_append, runSteps_started, List.cons_append,
    List.nil_append, runSteps_addBlock, laterBlock_added, runSteps_addBlock,
    tracked_laterBlock.addBlock_fitting emptyBlock_fits, runSteps_nil]

theorem reached_emptyBeside :
    Reached Sample.env (besideNode Sample.env (extended laterBlock) emptyBlock).db := by
  rw [← run_besideSteps]
  exact reached_of_run fun step member => (adds_besideSteps step member).reads

theorem adds_variantSteps : ∀ step ∈ variantSteps,
    step.Adds fun block => RoundTrips Sample.env block ∧ GenesisUnlinked block := by
  intro step member
  have steps : variantSteps = tipSteps emptyBlock ++ [.addBlock sampleAmbient duplicateBlock] := rfl
  rw [steps, List.mem_append, List.mem_singleton] at member
  cases member with
  | inl early => exact adds_tipSteps (List.mem_iff_getElem?.mpr ⟨4, rfl⟩) step early
  | inr last =>
      rw [last]
      exact adds_listed (List.mem_iff_getElem?.mpr ⟨2, rfl⟩)

theorem reads_forkSteps : ∀ step ∈ forkSteps, step.Adds (RoundTrips Sample.env) := by
  intro step member
  simp only [forkSteps, List.mem_cons, List.not_mem_nil, or_false] at member
  rcases member with rfl | rfl | rfl | rfl | rfl
  · exact roundTrips (List.mem_iff_getElem?.mpr ⟨0, rfl⟩)
  · trivial
  · exact roundTrips (List.mem_iff_getElem?.mpr ⟨5, rfl⟩)
  · exact roundTrips (List.mem_iff_getElem?.mpr ⟨2, rfl⟩)
  · exact roundTrips (List.mem_iff_getElem?.mpr ⟨3, rfl⟩)

theorem index_integrity_of_variantSteps :
    (∀ step ∈ variantSteps,
      step.Adds fun block => RoundTrips Sample.env block ∧ GenesisUnlinked block) ∧
      IndexesAgree Sample.env (runSteps Sample.env .empty variantSteps).db :=
  ⟨adds_variantSteps, index_integrity Sample.env variantSteps adds_variantSteps⟩

end Sample

end Safire
