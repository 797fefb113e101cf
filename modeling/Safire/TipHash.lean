/-
The hash of the tip, which is kept under a key of its own.

The key is refreshed when the tip moves to another slot. A block that takes over
the slot of the tip changes the block of the latest number and not the key.
-/

import Safire.IndexIntegrity

namespace Safire

open Text ChainValidator

variable {env : Env} {db after : LevelDb} {block : Block}

def TipHashAgrees (env : Env) (db : LevelDb) : Prop :=
  0 < getLatestBlockId db →
    getLatestBlockHash env db = (getBlock env db (getLatestBlockId db)).hash

/-- The key holds the hash of the block in the latest slot. -/
def TipHashKept (env : Env) (db : LevelDb) : Prop :=
  0 < getLatestBlockId db →
    db.get latestHashKey = (getBlock env db (getLatestBlockId db)).hash

/-- The block belongs in the slot of the tip and wins it. -/
def ReplacesTip (env : Env) (db : LevelDb) (block : Block) : Prop :=
  0 < getLatestBlockId db ∧ block.number = getLatestBlockId db ∧
    preferBlockVariant block (getBlock env db (getLatestBlockId db)) = true

theorem TipHashKept.agrees (kept : TipHashKept env db) : TipHashAgrees env db := by
  intro positive
  have same := kept positive
  unfold getLatestBlockHash
  dsimp only
  split
  · exact same
  · rfl

/-! ### Writes of the key -/

theorem get_latestHash_setLatestBlockId {number : Int}
    (named : (getBlock env db number).hash ≠ []) :
    (setLatestBlockId env db number).get latestHashKey = (getBlock env db number).hash := by
  have numbers : Writes StoreKey.IsLatest db
      ((db.putLong .latestBlockId number).putLong (.chainMeta "latest_block") number) :=
    ((Writes.refl db).put (.inl rfl)).put (.inr rfl)
  have slot : getBlock env ((db.putLong .latestBlockId number).putLong (.chainMeta "latest_block")
      number) number = getBlock env db number :=
    (numbers.mono fun _ => .inl).getBlock_ends number
  unfold setLatestBlockId
  dsimp only
  rw [slot, if_pos (List.length_pos_iff.mpr named), LevelDb.get_put_self]

theorem quiet_latestHash (writes : Writes StoreKey.IsQuiet db after) :
    after.get latestHashKey = db.get latestHashKey :=
  writes.get_eq fun quiet => quiet.2.2 rfl

theorem TipHashKept.of_finishChain {middle : LevelDb} {newTip : Block}
    (trips : RoundTrips env newTip) (slot : getBlock env middle newTip.number = newTip) (now : Int)
    (reason : String) (previousTip : Block) :
    TipHashKept env (finishChain env middle now reason previousTip newTip) := by
  have written : (finishChain env middle now reason previousTip newTip).get latestHashKey =
      newTip.hash := by
    unfold finishChain
    dsimp only
    rw [quiet_latestHash (quiet_writeReorg _ _ _ _ _),
      quiet_latestHash (quiet_maybeAdvanceValidatedCheckpoint _ _),
      LevelDb.get_putLong_of_ne (by simp), get_latestHash_setLatestBlockId, slot]
    rw [slot]
    exact trips.facts.2.1
  intro _
  rw [written, getLatestBlockId_finishChain trips.facts.2.2,
    (writes_finishChain _ _ _ _ _).getBlock_ends, slot]

/-- A block that becomes the tip writes the key; any other leaves the tip where it is. -/
theorem tip_of_writeBlock (sound : Sound env db) (trips : RoundTrips env block)
    (fresh : db.get (.block block.hash) = [])
    (below : block.previousBlockId < block.number ∨ block.previousBlockId = -1) :
    TakesSlot env db block ∧ ExtendsTip env db block ∧
        (writeBlock env db block).get latestHashKey = block.hash ∨
      getLatestBlockId (writeBlock env db block) = getLatestBlockId db ∧
        (writeBlock env db block).get latestHashKey = db.get latestHashKey := by
  have written := written_writeBlock sound trips fresh below
  obtain ⟨-, contents, slots, -, latest⟩ := writeStored_facts sound trips fresh
  have sameSlot : TakesSlot env (writeStored env db block) block ↔ TakesSlot env db block :=
    TakesSlot.congr (slots _)
  have stored : (writeStored env db block).get latestHashKey = db.get latestHashKey := by
    rw [writeStored, (highest_maybeUpdateHighestStoredBlock _ _).get_eq (by simp),
      LevelDb.get_put_of_ne (by simp), LevelDb.get_put_of_ne (by simp)]
  cases writeBlock_cases env db block with
  | inl refused =>
      rw [sameSlot] at refused
      refine .inr ⟨written.latest fun both => refused.1 both.1, ?_⟩
      rw [refused.2, quiet_latestHash (quiet_countForkVariant _ block), stored]
  | inr placed =>
      obtain ⟨takes, counted, quiet, same⟩ := placed
      rw [sameSlot] at takes
      have holds : Holds env (writeStored env db block) block :=
        ⟨trips, by rw [contents, if_pos rfl]⟩
      have aside : Writes StoreKey.IsAside (writeCanonical env (writeStored env db block) block)
          (writeNextLinks env counted block) :=
        quiet.side.aside.trans ((writes_writeNextLinks env counted block).mono
          fun _ => StoreKey.LinksTo.aside)
      have linkedKey : (writeNextLinks env counted block).get latestHashKey =
          db.get latestHashKey := by
        rw [(writes_writeNextLinks env counted block).get_eq (by simp [StoreKey.LinksTo]),
          quiet_latestHash quiet, (writes_writeCanonical env _ block).get_eq (by simp), stored]
      have linkedSlots : ∀ number, getBlock env (writeNextLinks env counted block) number =
          if number = block.number then block else getBlock env db number := by
        intro number
        rw [aside.getBlock_aside, getBlock_writeCanonical holds, slots]
      have linkedLatest : getLatestBlockId (writeNextLinks env counted block) =
          getLatestBlockId db := by
        rw [aside.getLatestBlockId_aside, (ends_writeCanonical env _ block).2, latest]
      have sameTip : ExtendsTip env (writeNextLinks env counted block) block ↔
          ExtendsTip env db block :=
        ExtendsTip.congr below linkedLatest fun number other =>
          (linkedSlots number).trans (if_neg other)
      have own : getBlock env (writeNextLinks env counted block) block.number = block := by
        rw [linkedSlots, if_pos rfl]
      cases advanceLatest_cases env (writeNextLinks env counted block) block with
      | inl moved =>
          refine .inl ⟨takes, sameTip.mp moved.1, ?_⟩
          rw [same, quiet_latestHash moved.2, get_latestHash_setLatestBlockId, own]
          rw [own]
          exact trips.facts.2.1
      | inr stays =>
          refine .inr ⟨written.latest fun both => stays.1 (sameTip.mpr both.2), ?_⟩
          rw [same, stays.2, linkedKey]

/-! ### One step -/

theorem ExtendsTip.not_replaces (extended : ExtendsTip env db block)
    (below : block.previousBlockId < block.number ∨ block.previousBlockId = -1) :
    ¬ ReplacesTip env db block := by
  intro replaces
  obtain ⟨positive, numbers, -⟩ := replaces
  cases extended with
  | inl first => omega
  | inr child =>
      have ids := child.1
      omega

/-- Adding a new block keeps the agreement if and only if it does not take over
the slot of the tip. -/
theorem tipHashAgrees_writeBlock_iff (reached : Reached env db) (kept : TipHashKept env db)
    (trips : RoundTrips env block) (fresh : db.get (.block block.hash) = [])
    (below : block.previousBlockId < block.number ∨ block.previousBlockId = -1) :
    (¬ ReplacesTip env db block → TipHashKept env (writeBlock env db block)) ∧
      (ReplacesTip env db block → ¬ TipHashAgrees env (writeBlock env db block)) := by
  have written := written_writeBlock reached.sound trips fresh below
  have tipHolds : 0 < getLatestBlockId db →
      Holds env db (getBlock env db (getLatestBlockId db)) := by
    intro positive
    apply (reached.sound.holds_getBlock ?_).1
    rw [reached.tip positive]
    exact positive
  cases tip_of_writeBlock reached.sound trips fresh below with
  | inl moved =>
      obtain ⟨takes, extended, key⟩ := moved
      refine ⟨fun _ _ => ?_, fun replaces => absurd replaces (extended.not_replaces below)⟩
      rw [key, written.extended takes extended, written.taken takes]
  | inr stays =>
      obtain ⟨latest, key⟩ := stays
      constructor
      · intro free positive
        rw [latest] at positive ⊢
        rw [key, kept positive, written.kept]
        by_cases slot : block.number = getLatestBlockId db
        · refine .inr fun takes => free ⟨positive, slot, ?_⟩
          rw [← slot]
          apply takes.resolve_left
          rw [slot, reached.tip positive]
          exact not_le.mpr positive
        · exact .inl (Ne.symm slot)
      · intro replaces agrees
        obtain ⟨positive, slot, preferred⟩ := replaces
        have takes : TakesSlot env db block := .inr (by rw [slot]; exact preferred)
        have hashed : 0 < (db.get latestHashKey).length := by
          rw [kept positive]
          exact List.length_pos_iff.mpr (tipHolds positive).trips.facts.2.1
        have same := agrees (by rw [latest]; exact positive)
        rw [getLatestBlockHash, key] at same
        rw [if_pos hashed, kept positive, latest, ← slot, written.taken takes, slot] at same
        have stored := (tipHolds positive).stored
        rw [same, fresh] at stored
        exact blockJSON_ne_nil env _ stored.symm

/-! ### Runs -/

/-- An added block reads back, and where it is new it does not take over the slot
of the tip. -/
def ChainStep.LeavesTipSlot (env : Env) (node : Node) : ChainStep → Prop
  | .addBlock _ block =>
      RoundTrips env block ∧
        (node.db.get (.block block.hash) = [] → ¬ ReplacesTip env node.db block)
  | .setFirstBlockId _ => True
  | .rebuildBestChainIndex _ => True
  | .adoptStoredChainEndingAtHash _ _ => True

theorem TipHashKept.of_writes (kept : TipHashKept env db) (writes : Writes StoreKey.IsSide db after)
    (same : after.get latestHashKey = db.get latestHashKey) : TipHashKept env after := by
  intro positive
  rw [writes.getLatestBlockId_side] at positive ⊢
  rw [writes.getBlock_side, same]
  exact kept positive

theorem TipHashKept.rebuildBestChainIndex (kept : TipHashKept env db) (reached : Reached env db)
    (now : Int) : TipHashKept env (rebuildBestChainIndex env now db).2 := by
  have quiet := reached.quiet_fastPath
  have fast := kept.of_writes quiet.side (quiet_latestHash quiet)
  have sound := (quiet.side.aside.rewritten_aside reached.sound).sound
  unfold Safire.rebuildBestChainIndex
  split
  · exact kept
  · generalize tryValidatedCheckpointFastPath env db = attempt at fast sound ⊢
    obtain ⟨verdict, middle⟩ := attempt
    cases verdict with
    | some tip => exact fast
    | none =>
        dsimp only [rebuildFully]
        cases tip : (bestValidChain env middle).getLast? with
        | none => exact fast
        | some newTip =>
            have held := sound.bestValidChain_holds newTip (List.mem_of_getLast? tip)
            exact .of_finishChain held.trips ((rewritten_bestValidChain sound).2 newTip tip) _ _ _

theorem TipHashKept.adoptStoredChainEndingAtHash (kept : TipHashKept env db)
    (sound : Sound env db) (now : Int) (tipHash : Text) :
    TipHashKept env (adoptStoredChainEndingAtHash env now db tipHash).2 := by
  rcases adopt_cases sound now tipHash with
    refused | ⟨tip, branch, adoptable, ⟨-, stays⟩ | ⟨-, moved⟩⟩
  · rw [refused]
    exact kept
  · rw [stays]
    exact kept
  · rw [moved]
    obtain ⟨last, held⟩ := adoptable.adoptedPart_facts sound
    exact .of_finishChain adoptable.holds.trips ((rewritten_writeChain _ sound held).2 tip last) _ _ _

theorem TipHashKept.step {node : Node} {step : ChainStep} (kept : TipHashKept env node.db)
    (reached : Reached env node.db) (leaves : step.LeavesTipSlot env node) :
    TipHashKept env (step.apply env node).db := by
  cases step with
  | addBlock ambient block =>
      rw [ChainStep.apply]
      rcases addBlock_cases env ambient node block with unchanged | ⟨checked, fresh, -, written⟩
      · rw [unchanged]
        exact kept
      · rw [written]
        exact (tipHashAgrees_writeBlock_iff reached kept leaves.1 fresh
          (checkAddedBlock_below checked)).1 (leaves.2 fresh)
  | setFirstBlockId number =>
      intro positive
      rw [ChainStep.apply] at positive ⊢
      rw [getLatestBlockId_setFirstBlockId] at positive ⊢
      rw [getBlock_setFirstBlockId, (writes_setFirstBlockId node.db number).get_eq (by simp)]
      exact kept positive
  | rebuildBestChainIndex now => exact kept.rebuildBestChainIndex reached now
  | adoptStoredChainEndingAtHash now tipHash =>
      exact kept.adoptStoredChainEndingAtHash reached.sound now tipHash

theorem ChainStep.LeavesTipSlot.reads {node : Node} {step : ChainStep}
    (leaves : step.LeavesTipSlot env node) : step.Adds (RoundTrips env) := by
  cases step with
  | addBlock ambient block => exact leaves.1
  | setFirstBlockId number => trivial
  | rebuildBestChainIndex now => trivial
  | adoptStoredChainEndingAtHash now tipHash => trivial

theorem tipHashKept_of_run {steps : List ChainStep}
    (leaves : Runs.Meets (ChainStep.apply env) (ChainStep.LeavesTipSlot env) .empty steps) :
    Reached env (runSteps env .empty steps).db ∧
      TipHashKept env (runSteps env .empty steps).db := by
  have keeps : ∀ (node : Node) (step : ChainStep),
      (Reached env node.db ∧ TipHashKept env node.db) → step.LeavesTipSlot env node →
      Reached env (step.apply env node).db ∧ TipHashKept env (step.apply env node).db :=
    fun node step before leaves => ⟨before.1.step leaves.reads, before.2.step before.1 leaves⟩
  have initial : TipHashKept env Node.empty.db := by
    intro positive
    rw [getLatestBlockId, Node.empty, LevelDb.get_empty, LevelDb.get_empty] at positive
    exact absurd positive (by decide)
  exact Runs.invariant keeps ⟨reached_empty env, initial⟩ leaves

/-- The hash of the tip agrees with its number after every run that leaves the
slot of the tip to its block. -/
theorem tip_hash_agrees_of_run (env : Env) (steps : List ChainStep)
    (leaves : Runs.Meets (ChainStep.apply env) (ChainStep.LeavesTipSlot env) .empty steps) :
    TipHashAgrees env (runSteps env .empty steps).db :=
  (tipHashKept_of_run leaves).2.agrees

/-! ### A variant of the tip -/

namespace Sample

/-- A genesis block and a child in a slot of its own take no slot over. -/
theorem leaves_emptyBlock : Runs.Meets (ChainStep.apply Sample.env)
    (ChainStep.LeavesTipSlot Sample.env) .empty (tipSteps emptyBlock) := by
  have genesisTrips : RoundTrips Sample.env genesis :=
    roundTrips (List.mem_iff_getElem?.mpr ⟨0, rfl⟩)
  refine ⟨⟨genesisTrips, fun _ replaces => ?_⟩, trivial, ?_, trivial⟩
  · have positive := replaces.1
    rw [getLatestBlockId, Node.empty, LevelDb.get_empty, LevelDb.get_empty] at positive
    exact absurd positive (by decide)
  · rw [started_steps]
    refine ⟨roundTrips (List.mem_iff_getElem?.mpr ⟨4, rfl⟩), fun _ replaces => ?_⟩
    have slot := replaces.2.1
    rw [tracked_started.latest] at slot
    exact absurd slot (by decide)

/-- The variant takes over the slot of the tip, and the key keeps the old hash. -/
theorem variant_tip_hash_differs :
    (∀ step ∈ variantSteps, step.Adds (RoundTrips Sample.env)) ∧
      0 < getLatestBlockId (runSteps Sample.env .empty variantSteps).db ∧
      ¬ TipHashAgrees Sample.env (runSteps Sample.env .empty variantSteps).db := by
  obtain ⟨reached, kept⟩ := tipHashKept_of_run leaves_emptyBlock
  rw [run_tipSteps_emptyBlock] at reached kept
  have replaces : ReplacesTip Sample.env (extended emptyBlock).db duplicateBlock := by
    rw [ReplacesTip, tracked_emptyBlock.latest, tracked_emptyBlock.tipSlot]
    decide
  have trips : RoundTrips Sample.env duplicateBlock :=
    roundTrips (List.mem_iff_getElem?.mpr ⟨2, rfl⟩)
  have differs := (tipHashAgrees_writeBlock_iff reached kept trips
    (tracked_emptyBlock.fresh duplicateBlock_fits.unknown) (by decide)).2 replaces
  rw [← run_variantSteps] at differs
  refine ⟨fun step member => (adds_variantSteps step member).reads, ?_, differs⟩
  rw [tracked_variantSteps.latest]
  decide

theorem tip_hash_agrees_of_emptyBlock :
    Runs.Meets (ChainStep.apply Sample.env) (ChainStep.LeavesTipSlot Sample.env) .empty
        (tipSteps emptyBlock) ∧
      TipHashAgrees Sample.env (runSteps Sample.env .empty (tipSteps emptyBlock)).db :=
  ⟨leaves_emptyBlock, tip_hash_agrees_of_run Sample.env _ leaves_emptyBlock⟩

end Sample

end Safire
