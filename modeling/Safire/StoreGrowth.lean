/-
The frame of the store operations on the stored blocks.

Adding a block writes one new block entry. A rebuild and an adoption write the
entries of their chain again, from blocks that were read from them, so each entry
keeps the text that it had.
-/

import Safire.IndexIntegrity

namespace Safire

open Text ChainValidator

variable {env : Env} {db after : LevelDb} {block : Block}

/-- Every block entry of a database is an entry of a later one and reads as the same
single block there. -/
def EntriesKept (env : Env) (db after : LevelDb) : Prop :=
  ∀ hash json, db[(StoreKey.block hash).text]? = some json →
    ∃ block kept, block.hash = hash ∧ parseBlockJson env json = [block] ∧
      after[(StoreKey.block hash).text]? = some kept ∧ parseBlockJson env kept = [block]

theorem LevelDb.getElem?_of_get {key : StoreKey} {value : Text} (read : db.get key = value)
    (present : value ≠ []) : db[key.text]? = some value := by
  rw [LevelDb.get_eq_getD] at read
  cases found : db[key.text]? with
  | none =>
      rw [found] at read
      exact absurd read.symm present
  | some stored =>
      rw [found] at read
      exact congrArg some read

/-- An entry of a reached store is the one of a block that it holds. -/
theorem Indexed.holds_of_getElem? (indexed : Indexed env db) {hash json : Text}
    (found : db[(StoreKey.block hash).text]? = some json) :
    ∃ block, Holds env db block ∧ block.hash = hash ∧ json = blockJSON env block := by
  obtain ⟨read, present⟩ := indexed.filled.get_eq rfl found
  obtain ⟨block, holds, named⟩ := indexed.sound.blocks hash (by rwa [read])
  refine ⟨block, holds, named, ?_⟩
  rw [← read, ← named]
  exact holds.stored

/-- It is enough that the blocks stay stored. -/
theorem Indexed.entriesKept (indexed : Indexed env db)
    (held : ∀ block, Holds env db block → Holds env after block) : EntriesKept env db after := by
  intro hash json found
  obtain ⟨block, holds, named, text⟩ := indexed.holds_of_getElem? found
  have later := held block holds
  have kept : after[(StoreKey.block hash).text]? = some (blockJSON env block) := by
    rw [← named]
    exact LevelDb.getElem?_of_get later.stored (blockJSON_ne_nil env block)
  refine ⟨block, blockJSON env block, named, ?_, kept, later.trips⟩
  rw [text]
  exact holds.trips

/-- The block entry that an added block writes is a new one. -/
theorem holds_writeBlock_of_fresh {other : Block} (fresh : db.get (.block block.hash) = [])
    (holds : Holds env db other) : Holds env (writeBlock env db block) other := by
  have apart : other.hash ≠ block.hash := by
    intro same
    have stored := holds.stored
    rw [same, fresh] at stored
    exact blockJSON_ne_nil env other stored.symm
  have placed : (writeBlock env db block).get (.block other.hash) =
      (writeStored env db block).get (.block other.hash) := by
    apply (placing_writeBlock env db block).get_eq
    simp [StoreKey.IsPlacing, StoreKey.LinksTo, StoreKey.IsTip, StoreKey.IsLatest, StoreKey.IsQuiet,
      StoreKey.IsSide]
  have entry : (writeStored env db block).get (.block other.hash) = db.get (.block other.hash) := by
    rw [writeStored, (writes_maybeUpdateHighestStoredBlock _ _).get_eq (by simp [StoreKey.IsSide]),
      LevelDb.get_put_of_ne (by simp), LevelDb.get_put_of_ne]
    intro same
    exact apart (StoreKey.block.inj same).symm
  exact holds.congr (placed.trans entry)

/-- A block that is stored stays stored, whatever the step adds. -/
theorem ChainStep.keeps_holds {node : Node} (reached : Reached env node.db) (step : ChainStep) :
    Holds env node.db block → Holds env (step.apply env node).db block := by
  intro holds
  cases step with
  | addBlock ambient added =>
      rw [ChainStep.apply]
      cases addBlock_cases env ambient node added with
      | inl unchanged => rwa [unchanged]
      | inr stored =>
          obtain ⟨-, fresh, -, written⟩ := stored
          rw [written]
          exact holds_writeBlock_of_fresh fresh holds
  | setFirstBlockId number =>
      exact holds.congr (setFirstBlockId_blockData node.db number rfl)
  | rebuildBestChainIndex now =>
      exact (rewritten_rebuildBestChainIndex reached.sound now).holds holds
  | adoptStoredChainEndingAtHash now tipHash =>
      exact (rewritten_adoptStoredChainEndingAtHash reached.sound now tipHash).holds holds

theorem addBlock_rejected {ambient : Ambient} {node : Node} {reason : String}
    (rejected : (addBlock env ambient node block).1 = .error reason) :
    (addBlock env ambient node block).2.db = node.db := by
  unfold addBlock at rejected ⊢
  cases checked : checkAddedBlock env block with
  | error reason => rfl
  | ok value =>
      rw [checked] at rejected
      dsimp only at rejected ⊢
      split at rejected
      · cases rejected
      · rename_i absent
        rw [if_neg absent]
        generalize validateBlockForStorage env ambient node.db node.caches block = verdict
          at rejected ⊢
        obtain ⟨outcome, caches⟩ := verdict
        cases outcome with
        | error refusal => rfl
        | ok accepted => cases rejected

/-- From every reached store, each operation keeps each block entry and what it reads
as, and a rejected block changes no key. -/
theorem store_only_grows (env : Env) (steps : List ChainStep)
    (reads : ∀ step ∈ steps, step.Adds (RoundTrips env)) :
    (∀ step : ChainStep, EntriesKept env (runSteps env .empty steps).db
      (step.apply env (runSteps env .empty steps)).db) ∧
    ∀ ambient block reason,
      (addBlock env ambient (runSteps env .empty steps) block).1 = .error reason →
        (addBlock env ambient (runSteps env .empty steps) block).2.db =
          (runSteps env .empty steps).db := by
  have reached := reached_of_run reads
  refine ⟨fun step => reached.entriesKept fun block => ?_, fun _ _ _ => addBlock_rejected⟩
  exact ChainStep.keeps_holds reached step

namespace Sample

theorem store_only_grows_from_tip :
    (∀ step : ChainStep, EntriesKept Sample.env
      (runSteps Sample.env .empty (tipSteps emptyBlock)).db
      (step.apply Sample.env (runSteps Sample.env .empty (tipSteps emptyBlock))).db) ∧
    ∀ ambient block reason,
      (addBlock Sample.env ambient (runSteps Sample.env .empty (tipSteps emptyBlock)) block).1 =
        .error reason →
        (addBlock Sample.env ambient (runSteps Sample.env .empty (tipSteps emptyBlock)) block).2.db =
          (runSteps Sample.env .empty (tipSteps emptyBlock)).db := by
  apply store_only_grows Sample.env (tipSteps emptyBlock)
  intro step member
  exact (adds_tipSteps (List.mem_iff_getElem?.mpr ⟨4, rfl⟩) step member).reads

end Sample

end Safire
