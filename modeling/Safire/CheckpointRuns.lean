/-
The validated checkpoint over a run.

Two keys hold the number and the hash of the checkpoint. One function writes
them, both at once, after a walk of connecting and valid blocks down from the
tip it is given. Whatever else happens to the database in between, the number
only grows.
-/

import Safire.ConnectedTip
import Safire.RebuildTwice

namespace Safire

open Text

variable {env : Env} {db after : LevelDb}

def checkpointBlockKey : StoreKey :=
  .chainMeta "validated_checkpoint_block"

def checkpointHashKey : StoreKey :=
  .chainMeta "validated_checkpoint_hash"

/-! ### The walk down from a tip -/

/-- One round of the walk: the parent is stored, connects and has a valid envelope. -/
structure DownLink (env : Env) (db : LevelDb) (child parent : Block) : Prop where
  named : child.previousBlockHash ≠ []
  stored : getBlockByHash env db child.previousBlockHash = parent
  connects : childConnectsToParent child parent = true
  envelope : blockEnvelopeIsValid env parent = true

/-- The three exits of the loop before its limit. A missing parent does not connect. -/
def WalkStops (env : Env) (db : LevelDb) (block : Block) : Prop :=
  block.previousBlockHash = [] ∨
    childConnectsToParent block (getBlockByHash env db block.previousBlockHash) = false ∨
    blockEnvelopeIsValid env (getBlockByHash env db block.previousBlockHash) = false

/-- A path of at most `depth` rounds, and shorter only where the loop stops. -/
structure Descent (env : Env) (db : LevelDb) (depth : Nat) (tip checkpoint : Block)
    (path : List Block) : Prop where
  first : path.head? = some tip
  last : path.getLast? = some checkpoint
  links : path.IsChain (DownLink env db)
  short : path.length ≤ depth + 1
  full : path.length = depth + 1 ∨ WalkStops env db checkpoint

theorem downLink_or_walkStops (env : Env) (db : LevelDb) (block : Block) :
    DownLink env db block (getBlockByHash env db block.previousBlockHash) ∨
      WalkStops env db block := by
  by_cases named : block.previousBlockHash = []
  · exact .inr (.inl named)
  · cases connects : childConnectsToParent block
        (getBlockByHash env db block.previousBlockHash) with
    | false => exact .inr (.inr (.inl connects))
    | true =>
        cases envelope : blockEnvelopeIsValid env
            (getBlockByHash env db block.previousBlockHash) with
        | false => exact .inr (.inr (.inr envelope))
        | true => exact .inl ⟨named, rfl, connects, envelope⟩

theorem checkpointBelow_of_stops {block : Block} (stops : WalkStops env db block) (depth : Nat) :
    checkpointBelow env db depth block = block := by
  cases depth with
  | zero => rfl
  | succ depth =>
      rw [checkpointBelow]
      dsimp only
      cases stops with
      | inl unnamed => rw [if_pos (List.length_eq_zero_iff.mpr unnamed)]
      | inr bad => rw [if_pos bad, ite_self]

theorem checkpointBelow_of_link {child parent : Block} (link : DownLink env db child parent)
    (depth : Nat) :
    checkpointBelow env db (depth + 1) child = checkpointBelow env db depth parent := by
  have long : ¬ child.previousBlockHash.length = 0 := by
    rw [List.length_eq_zero_iff]
    exact link.named
  rw [checkpointBelow, if_neg long]
  dsimp only
  rw [link.stored, if_neg (by simp [link.connects, link.envelope])]

/-- The walk ends at the last block of such a path, by induction on the rounds. -/
theorem descent_checkpointBelow (depth : Nat) (tip : Block) :
    ∃ path, Descent env db depth tip (checkpointBelow env db depth tip) path := by
  induction depth generalizing tip with
  | zero => exact ⟨[tip], rfl, rfl, List.isChain_singleton tip, le_rfl, .inl rfl⟩
  | succ depth ih =>
      cases downLink_or_walkStops env db tip with
      | inr stops =>
          rw [checkpointBelow_of_stops stops]
          exact ⟨[tip], rfl, rfl, List.isChain_singleton tip, Nat.succ_le_succ (Nat.zero_le _),
            .inr stops⟩
      | inl link =>
          rw [checkpointBelow_of_link link]
          obtain ⟨path, descent⟩ := ih (getBlockByHash env db tip.previousBlockHash)
          obtain ⟨parent, rest, rfl⟩ := List.exists_cons_of_ne_nil
            (show path ≠ [] from fun empty => by simpa [empty] using descent.first)
          have same : parent = getBlockByHash env db tip.previousBlockHash :=
            Option.some.inj descent.first
          refine ⟨tip :: parent :: rest, rfl, ?_, ?_, ?_, ?_⟩
          · rw [List.getLast?_cons_cons]
            exact descent.last
          · exact List.isChain_cons_cons.mpr ⟨same ▸ link, descent.links⟩
          · exact Nat.succ_le_succ descent.short
          · exact descent.full.imp (congrArg Nat.succ) id

theorem DownLink.below {child parent : Block} (link : DownLink env db child parent) :
    parent.number < child.number :=
  (childConnectsToParent_iff.mp link.connects).2.2.1

/-- Every block of the path has a valid envelope, as the tip has. -/
theorem Descent.envelopes {depth : Nat} {tip checkpoint : Block} {path : List Block}
    (descent : Descent env db depth tip checkpoint path)
    (valid : blockEnvelopeIsValid env tip = true) :
    ∀ block ∈ path, blockEnvelopeIsValid env block = true := by
  apply descent.links.induction (fun block => blockEnvelopeIsValid env block = true)
  · intro child parent link _
    exact link.envelope
  · intro present
    have first := descent.first
    rw [List.head?_eq_some_head present] at first
    rw [Option.some.inj first]
    exact valid

/-! ### One call -/

/-- What a call that writes the two keys has done. -/
structure CheckpointWritten (env : Env) (db : LevelDb) (tip : Block) (after : LevelDb)
    (checkpoint : Block) (path : List Block) : Prop where
  descent : Descent env db validatedCheckpointDepth tip checkpoint path
  envelopes : ∀ block ∈ path, blockEnvelopeIsValid env block = true
  number : after.getLong checkpointBlockKey = some checkpoint.number
  hash : after.get checkpointHashKey = checkpoint.hash

/-- The two keys stand together, with a usable number and hash. -/
def CheckpointPaired (db : LevelDb) : Prop :=
  ∀ number, db.getLong checkpointBlockKey = some number →
    0 < number ∧ db.get checkpointHashKey ≠ []

theorem CheckpointPaired.read {number : Int} (paired : CheckpointPaired db)
    (present : db.getLong checkpointBlockKey = some number) :
    readValidatedCheckpoint db = some (number, db.get checkpointHashKey) := by
  obtain ⟨positive, named⟩ := paired number present
  rw [checkpointBlockKey] at present
  rw [readValidatedCheckpoint, present]
  dsimp only
  rw [if_pos ⟨positive, List.length_pos_iff.mpr named⟩]
  rfl

theorem isLong_checkpointBelow (depth : Nat) {tip : Block} (long : IsLong tip.number) :
    IsLong (checkpointBelow env db depth tip).number := by
  induction depth generalizing tip with
  | zero => exact long
  | succ depth ih =>
      rw [checkpointBelow]
      dsimp only
      split
      · exact long
      · split
        · exact long
        · exact ih (isLong_getBlockByHash env db _)

theorem getLong_checkpointBlock {checkpoint : Block} (long : IsLong checkpoint.number) :
    ((db.putLong checkpointBlockKey checkpoint.number).put checkpointHashKey
        checkpoint.hash).getLong checkpointBlockKey = some checkpoint.number := by
  rw [LevelDb.getLong, LevelDb.get_put_of_ne (by decide)]
  exact LevelDb.getLong_putLong_self long

theorem checkpoint_of_advance {tip : Block} (paired : CheckpointPaired db)
    (long : IsLong tip.number) :
    maybeAdvanceValidatedCheckpoint env db tip = db ∨
      ∃ checkpoint path,
        CheckpointWritten env db tip (maybeAdvanceValidatedCheckpoint env db tip) checkpoint path ∧
          0 < checkpoint.number ∧ checkpoint.hash ≠ [] ∧
          ∀ number, db.getLong checkpointBlockKey = some number → number < checkpoint.number := by
  by_cases valid : blockEnvelopeIsValid env tip = true
  · cases maybeAdvanceValidatedCheckpoint_cases env db tip with
    | inl kept => exact .inl kept
    | inr moved =>
        obtain ⟨checkpoint, walked, positive, named, above, written⟩ := moved
        obtain ⟨path, descent⟩ := @descent_checkpointBelow env db
          validatedCheckpointDepth tip
        rw [walked] at descent
        refine .inr ⟨checkpoint, path, ⟨descent, descent.envelopes valid, ?_, ?_⟩, positive, named,
          fun number present => above _ (paired.read present)⟩
        · rw [written]
          exact getLong_checkpointBlock (walked ▸ isLong_checkpointBelow _ long)
        · rw [written]
          exact LevelDb.get_put_self
  · apply Or.inl
    rw [maybeAdvanceValidatedCheckpoint, if_pos (.inr (.inr (by simpa using valid)))]

/-! ### Runs -/

/-- A call, or any other change of the database, which leaves the two keys alone. -/
inductive CheckpointStep (env : Env) : LevelDb → LevelDb → Prop where
  | advance {db : LevelDb} (tip : Block) (long : IsLong tip.number) :
      CheckpointStep env db (maybeAdvanceValidatedCheckpoint env db tip)
  | other {db after : LevelDb} (number : after.get checkpointBlockKey = db.get checkpointBlockKey)
      (hash : after.get checkpointHashKey = db.get checkpointHashKey) : CheckpointStep env db after

/-- Databases along a run. -/
def CheckpointRun (env : Env) : LevelDb → LevelDb → Prop :=
  Relation.ReflTransGen (CheckpointStep env)

theorem checkpointPaired_empty : CheckpointPaired ∅ := by
  intro number present
  rw [LevelDb.getLong, LevelDb.get_empty] at present
  cases present

theorem CheckpointStep.paired (step : CheckpointStep env db after) (paired : CheckpointPaired db) :
    CheckpointPaired after := by
  cases step with
  | advance tip long =>
      cases @checkpoint_of_advance env _ tip paired long with
      | inl kept => rwa [kept]
      | inr moved =>
          obtain ⟨checkpoint, path, written, positive, named, -⟩ := moved
          intro number present
          rw [written.number] at present
          rw [written.hash, ← Option.some.inj present]
          exact ⟨positive, named⟩
  | other number hash =>
      intro value present
      rw [LevelDb.getLong, number] at present
      rw [hash]
      exact paired value present

/-- One step keeps the number or raises it. -/
theorem CheckpointStep.forward (step : CheckpointStep env db after) (paired : CheckpointPaired db)
    {number : Int} (present : db.getLong checkpointBlockKey = some number) :
    ∃ later, after.getLong checkpointBlockKey = some later ∧ number ≤ later := by
  cases step with
  | advance tip long =>
      cases @checkpoint_of_advance env _ tip paired long with
      | inl kept =>
          rw [kept]
          exact ⟨number, present, le_rfl⟩
      | inr moved =>
          obtain ⟨checkpoint, path, written, -, -, above⟩ := moved
          exact ⟨checkpoint.number, written.number, (above number present).le⟩
  | other same _ =>
      rw [LevelDb.getLong, same]
      exact ⟨number, present, le_rfl⟩

theorem CheckpointRun.paired (run : CheckpointRun env db after) (paired : CheckpointPaired db) :
    CheckpointPaired after := by
  induction run with
  | refl => exact paired
  | tail _ step ih => exact step.paired ih

theorem CheckpointRun.forward (run : CheckpointRun env db after) (paired : CheckpointPaired db)
    {number : Int} (present : db.getLong checkpointBlockKey = some number) :
    ∃ later, after.getLong checkpointBlockKey = some later ∧ number ≤ later := by
  induction run with
  | refl => exact ⟨number, present, le_rfl⟩
  | tail before step ih =>
      obtain ⟨middle, reached, raised⟩ := ih
      obtain ⟨later, final, higher⟩ :=
        step.forward (CheckpointRun.paired before paired) reached
      exact ⟨later, final, raised.trans higher⟩

/-- From a fresh database on, the checkpoint number never falls, and a call that moves
the checkpoint puts it on a valid path of the stated depth below its tip. -/
theorem checkpoint_moves_forward (run : CheckpointRun env ∅ db) :
    (∀ after, CheckpointRun env db after → ∀ number,
        db.getLong checkpointBlockKey = some number →
          ∃ later, after.getLong checkpointBlockKey = some later ∧ number ≤ later) ∧
      ∀ tip : Block, IsLong tip.number →
        maybeAdvanceValidatedCheckpoint env db tip = db ∨
          ∃ checkpoint path,
            CheckpointWritten env db tip (maybeAdvanceValidatedCheckpoint env db tip) checkpoint
                path ∧
              ∀ number, db.getLong checkpointBlockKey = some number →
                number < checkpoint.number := by
  have paired := run.paired checkpointPaired_empty
  constructor
  · intro after later number present
    exact later.forward paired present
  · intro tip long
    cases @checkpoint_of_advance env _ tip paired long with
    | inl kept => exact .inl kept
    | inr moved =>
        obtain ⟨checkpoint, path, written, -, -, above⟩ := moved
        exact .inr ⟨checkpoint, path, written, above⟩

namespace Sample

/-- The keys of a block and its parent, before any checkpoint. -/
def writtenStore : LevelDb :=
  writeChain Sample.env ∅ [genesis, validSpend]

def checkpointedStore : LevelDb :=
  maybeAdvanceValidatedCheckpoint Sample.env writtenStore validSpend

theorem checkpointRun_checkpointedStore : CheckpointRun Sample.env ∅ checkpointedStore :=
  .tail
    (.single (@CheckpointStep.other _ _ writtenStore (by decide +kernel) (by decide +kernel)))
    (.advance validSpend (by decide))

/-- The walk has gone down to the genesis block. -/
example : checkpointedStore.getLong checkpointBlockKey = some genesis.number := by decide +kernel

theorem checkpointedStore_moves_forward :
    (∀ after, CheckpointRun Sample.env checkpointedStore after → ∀ number,
        checkpointedStore.getLong checkpointBlockKey = some number →
          ∃ later, after.getLong checkpointBlockKey = some later ∧ number ≤ later) ∧
      ∀ tip : Block, IsLong tip.number →
        maybeAdvanceValidatedCheckpoint Sample.env checkpointedStore tip = checkpointedStore ∨
          ∃ checkpoint path,
            CheckpointWritten Sample.env checkpointedStore tip
                (maybeAdvanceValidatedCheckpoint Sample.env checkpointedStore tip) checkpoint
                path ∧
              ∀ number, checkpointedStore.getLong checkpointBlockKey = some number →
                number < checkpoint.number :=
  checkpoint_moves_forward checkpointRun_checkpointedStore

end Sample

end Safire
