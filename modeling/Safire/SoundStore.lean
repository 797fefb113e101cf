/-
Sound databases: every stored text is the encoding of a block that reads back as
itself, under the key of its hash, and the slots name stored blocks.
-/

import Safire.RebuildChoice
import Safire.BlockEncoding

namespace Safire

open Text ChainValidator

variable {env : Env} {db after : LevelDb} {block : Block}

/-! ### Encodings that read back -/

def RoundTrips (env : Env) (block : Block) : Prop :=
  parseBlockJson env (blockJSON env block) = [block]

theorem RoundTrips.facts (trips : RoundTrips env block) :
    0 < block.number ∧ block.hash ≠ [] ∧ IsLong block.number := by
  have member : block ∈ parseBlockJson env (blockJSON env block) := by
    rw [trips]
    exact List.mem_cons_self
  exact mem_parseBlockSections member

theorem RoundTrips.read (trips : RoundTrips env block) :
    parseSingleBlockJson env (blockJSON env block) = block := by
  rw [parseSingleBlockJson, trips]
  rfl

theorem RoundTrips.eq_of_json {other : Block} (trips : RoundTrips env block)
    (otherTrips : RoundTrips env other) (same : blockJSON env block = blockJSON env other) :
    block = other := by
  rw [← trips.read, same, otherTrips.read]

theorem roundTrips_of_fit (readable : BlockReadable env block)
    (fits : RecordsFit env 2 block.records) : RoundTrips env block := by
  have read : parseBlockJson env ([block].flatMap (blockJSON env)) = [block].map (readBack env) :=
    parseBlockJson_eq fun other listed => by rwa [List.mem_singleton.mp listed]
  rw [List.flatMap_singleton, List.map_singleton, readBack_eq_iff.mpr fits] at read
  exact read

theorem Sample.roundTrips {block : Block} (listed : block ∈ Sample.blocks) :
    RoundTrips Sample.env block :=
  roundTrips_of_fit (Sample.readable block listed) (Sample.recordsFit block listed)

theorem blockJSON_ne_nil (env : Env) (block : Block) : blockJSON env block ≠ [] := by
  intro empty
  have last := (List.append_eq_nil_iff.mp empty).2
  simp at last

theorem parseSingleBlockJson_nil (env : Env) : parseSingleBlockJson env [] = .missing := rfl

/-! ### Sound databases -/

/-- The block is stored under its hash and reads back. -/
structure Holds (env : Env) (db : LevelDb) (block : Block) : Prop where
  trips : RoundTrips env block
  stored : db.get (.block block.hash) = blockJSON env block

structure Sound (env : Env) (db : LevelDb) : Prop where
  keys : ∀ text ∈ db, ∃ key : StoreKey, key.text = text
  blocks : ∀ hash, db.get (.block hash) ≠ [] → ∃ block, Holds env db block ∧ block.hash = hash
  slots : ∀ number, db.get (.canonical number) ≠ [] ∨ db.get (.legacyBlock number) ≠ [] →
    ∃ block, Holds env db block ∧ block.number = number ∧
      db.get (.canonical number) = block.hash ∧
      db.get (.legacyBlock number) = blockJSON env block

theorem sound_empty (env : Env) : Sound env ∅ where
  keys := by
    intro text member
    exact absurd member Std.ExtTreeMap.not_mem_empty
  blocks := by
    intro hash present
    exact absurd (LevelDb.get_empty _) present
  slots := by
    rintro number (present | present)
    · exact absurd (LevelDb.get_empty _) present
    · exact absurd (LevelDb.get_empty _) present

theorem not_holds_empty (env : Env) (block : Block) : ¬ Holds env ∅ block := by
  intro holds
  have stored := holds.stored
  rw [LevelDb.get_empty] at stored
  exact blockJSON_ne_nil env block stored.symm

theorem Holds.congr (holds : Holds env db block)
    (same : after.get (.block block.hash) = db.get (.block block.hash)) : Holds env after block :=
  ⟨holds.trips, same.trans holds.stored⟩

theorem Holds.unique {other : Block} (holds : Holds env db block) (otherHolds : Holds env db other)
    (same : block.hash = other.hash) : block = other := by
  refine holds.trips.eq_of_json otherHolds.trips ?_
  rw [← holds.stored, ← otherHolds.stored, same]

theorem Holds.getBlockByHash_eq (holds : Holds env db block) :
    getBlockByHash env db block.hash = block := by
  rw [getBlockByHash, if_neg (by rw [List.length_eq_zero_iff]; exact holds.trips.facts.2.1),
    holds.stored, holds.trips.read]

theorem Holds.getBlock_eq (holds : Holds env db block) {number : Int}
    (slot : db.get (.canonical number) = block.hash) : getBlock env db number = block := by
  rw [getBlock, slot, holds.getBlockByHash_eq, if_pos holds.trips.facts.1]

namespace Sound

variable (sound : Sound env db)
include sound

/-- A lookup that finds a block finds a stored one with that hash. -/
theorem holds_getBlockByHash {hash : Text} (found : 0 < (getBlockByHash env db hash).number) :
    Holds env db (getBlockByHash env db hash) ∧ (getBlockByHash env db hash).hash = hash := by
  by_cases present : db.get (.block hash) = []
  · rw [getBlockByHash, present, parseSingleBlockJson_nil, ite_self] at found
    exact absurd found (by decide)
  · obtain ⟨block, holds, rfl⟩ := sound.blocks hash present
    rw [holds.getBlockByHash_eq]
    exact ⟨holds, rfl⟩

theorem getBlock_cases (number : Int) :
    (getBlock env db number = .missing ∧ db.get (.canonical number) = [] ∧
        db.get (.legacyBlock number) = []) ∨
      Holds env db (getBlock env db number) ∧ (getBlock env db number).number = number ∧
        db.get (.canonical number) = (getBlock env db number).hash := by
  by_cases present : db.get (.canonical number) ≠ [] ∨ db.get (.legacyBlock number) ≠ []
  · obtain ⟨block, holds, numbered, slot, -⟩ := sound.slots number present
    rw [holds.getBlock_eq slot]
    exact .inr ⟨holds, numbered, slot⟩
  · rw [not_or, not_not, not_not] at present
    refine .inl ⟨?_, present.1, present.2⟩
    rw [getBlock, present.1, present.2]
    rfl

theorem holds_getBlock {number : Int} (found : 0 < (getBlock env db number).number) :
    Holds env db (getBlock env db number) ∧ (getBlock env db number).number = number ∧
      db.get (.canonical number) = (getBlock env db number).hash := by
  rcases sound.getBlock_cases number with ⟨missing, -⟩ | held
  · rw [missing] at found
    exact absurd found (by decide)
  · exact held

end Sound

/-! ### Writes that keep a database sound -/

/-- The keys that soundness reads. -/
def StoreKey.isBlockData (key : StoreKey) : Bool :=
  decide (key.family ≤ 2)

theorem Sound.of_writes (sound : Sound env db) {kind : StoreKey → Prop}
    (writes : Writes kind db after) (other : ∀ key, kind key → key.isBlockData = false) :
    Sound env after := by
  have same : ∀ {key : StoreKey}, key.isBlockData = true → after.get key = db.get key :=
    fun data => writes.get_eq fun allowed => by rw [other _ allowed] at data; cases data
  have held : ∀ {block : Block}, Holds env db block → Holds env after block :=
    fun holds => holds.congr (same rfl)
  refine ⟨?_, ?_, ?_⟩
  · intro text member
    rcases writes.mem member with old | ⟨key, -, written⟩
    · exact sound.keys text old
    · exact ⟨key, written⟩
  · intro hash present
    rw [same rfl] at present
    obtain ⟨block, holds, named⟩ := sound.blocks hash present
    exact ⟨block, held holds, named⟩
  · intro number present
    rw [same rfl, same rfl] at present ⊢
    obtain ⟨block, holds, placed⟩ := sound.slots number present
    exact ⟨block, held holds, placed⟩

theorem setFirstBlockId_blockData (db : LevelDb) (number : Int) {key : StoreKey}
    (data : key.isBlockData = true) : (setFirstBlockId db number).get key = db.get key := by
  refine (writes_setFirstBlockId db number).get_eq ?_
  rintro (rfl | rfl) <;> cases data

theorem Sound.setFirstBlockId (sound : Sound env db) (number : Int) :
    Sound env (setFirstBlockId db number) := by
  refine sound.of_writes (writes_setFirstBlockId db number) ?_
  rintro key (rfl | rfl) <;> rfl

theorem getLatestBlockId_setFirstBlockId (db : LevelDb) (number : Int) :
    getLatestBlockId (setFirstBlockId db number) = getLatestBlockId db :=
  getLatestBlockId_congr ((writes_setFirstBlockId db number).get_eq (by simp))
    ((writes_setFirstBlockId db number).get_eq (by simp))

theorem getBlock_setFirstBlockId (db : LevelDb) (number slot : Int) :
    getBlock env (setFirstBlockId db number) slot = getBlock env db slot :=
  getBlock_congr (setFirstBlockId_blockData db number rfl)
    (setFirstBlockId_blockData db number rfl) fun _ => setFirstBlockId_blockData db number rfl

theorem Sound.put_block (sound : Sound env db) (trips : RoundTrips env block)
    (fresh : db.get (.block block.hash) = [] ∨ db.get (.block block.hash) = blockJSON env block) :
    Sound env (db.put (.block block.hash) (blockJSON env block)) := by
  have new : Holds env (db.put (.block block.hash) (blockJSON env block)) block :=
    ⟨trips, LevelDb.get_put_self⟩
  have held : ∀ {other : Block}, Holds env db other →
      Holds env (db.put (.block block.hash) (blockJSON env block)) other := by
    intro other holds
    by_cases same : block.hash = other.hash
    · rcases fresh with empty | equal
      · rw [same, holds.stored] at empty
        exact (blockJSON_ne_nil env other empty).elim
      · rw [same, holds.stored] at equal
        have sameBlock : block = other := trips.eq_of_json holds.trips equal.symm
        exact sameBlock ▸ new
    · exact holds.congr (LevelDb.get_put_of_ne (by simpa using same))
  refine ⟨?_, ?_, ?_⟩
  · intro text member
    rcases Std.ExtTreeMap.mem_insert.mp member with same | old
    · exact ⟨_, Std.LawfulEqCmp.compare_eq_iff_eq.mp same⟩
    · exact sound.keys text old
  · intro hash present
    rw [LevelDb.get_put] at present
    split at present
    · rename_i same
      injection same with hashes
      exact ⟨block, new, hashes⟩
    · obtain ⟨other, holds, named⟩ := sound.blocks hash present
      exact ⟨other, held holds, named⟩
  · intro number present
    rw [LevelDb.get_put_of_ne (by simp), LevelDb.get_put_of_ne (by simp)] at present ⊢
    obtain ⟨other, holds, placed⟩ := sound.slots number present
    exact ⟨other, held holds, placed⟩

/-- The slot of a stored block may be set to it. -/
theorem Sound.writeCanonical (sound : Sound env db) (holds : Holds env db block) :
    Sound env (writeCanonical env db block) := by
  have blockKey : ∀ hash, (Safire.writeCanonical env db block).get (.block hash) =
      db.get (.block hash) := by
    intro hash
    rw [Safire.writeCanonical, LevelDb.get_put_of_ne (by simp), LevelDb.get_put_of_ne (by simp)]
  refine ⟨?_, ?_, ?_⟩
  · intro text member
    rcases Std.ExtTreeMap.mem_insert.mp member with same | old
    · exact ⟨_, Std.LawfulEqCmp.compare_eq_iff_eq.mp same⟩
    · rcases Std.ExtTreeMap.mem_insert.mp old with same | older
      · exact ⟨_, Std.LawfulEqCmp.compare_eq_iff_eq.mp same⟩
      · exact sound.keys text older
  · intro hash present
    rw [blockKey] at present
    obtain ⟨other, otherHolds, named⟩ := sound.blocks hash present
    exact ⟨other, otherHolds.congr (blockKey _), named⟩
  · intro number present
    by_cases same : block.number = number
    · subst same
      refine ⟨block, holds.congr (blockKey _), rfl, ?_, ?_⟩
      · rw [Safire.writeCanonical, LevelDb.get_put_of_ne (by simp), LevelDb.get_put_self]
      · rw [Safire.writeCanonical, LevelDb.get_put_self]
    · rw [Safire.writeCanonical, LevelDb.get_put_of_ne (by simp),
        LevelDb.get_put_of_ne (by simpa using same), LevelDb.get_put_of_ne (by simpa using same),
        LevelDb.get_put_of_ne (by simp)] at present ⊢
      obtain ⟨other, otherHolds, placed⟩ := sound.slots number present
      exact ⟨other, otherHolds.congr (blockKey _), placed⟩

/-! ### Writes beside the block data -/

/-- Keys that no lookup of a block and no reader of the chain ends looks at. -/
def StoreKey.IsAside (key : StoreKey) : Prop :=
  key.family = 3 ∨ key.family = 4 ∨ key.family = 5 ∨ key.IsSide

theorem StoreKey.IsAside.not_blockData {key : StoreKey} (aside : key.IsAside) :
    key.isBlockData = false := by
  cases key <;> simp [StoreKey.IsAside, StoreKey.IsSide, StoreKey.isBlockData,
    StoreKey.family] at aside ⊢

namespace Writes

variable (writes : Writes StoreKey.IsAside db after)
include writes

theorem blockData {key : StoreKey} (data : key.isBlockData = true) :
    after.get key = db.get key :=
  writes.get_eq fun aside => by rw [aside.not_blockData] at data; cases data

theorem getBlock_aside (number : Int) : getBlock env after number = getBlock env db number :=
  getBlock_congr (writes.blockData rfl) (writes.blockData rfl) (fun _ => writes.blockData rfl)

theorem getFirstBlockId_aside : getFirstBlockId after = getFirstBlockId db := by
  refine getFirstBlockId_congr (writes.get_eq ?_) (writes.get_eq ?_) <;>
    simp [StoreKey.IsAside, StoreKey.IsSide, StoreKey.family]

theorem getLatestBlockId_aside : getLatestBlockId after = getLatestBlockId db := by
  refine getLatestBlockId_congr (writes.get_eq ?_) (writes.get_eq ?_) <;>
    simp [StoreKey.IsAside, StoreKey.IsSide, StoreKey.family]

theorem sound_aside (sound : Sound env db) : Sound env after :=
  sound.of_writes writes fun _ aside => aside.not_blockData

theorem holds_aside (holds : Holds env db block) : Holds env after block :=
  holds.congr (writes.blockData rfl)

end Writes

theorem Writes.aside (writes : Writes StoreKey.IsSide db after) : Writes StoreKey.IsAside db after :=
  writes.mono fun _ side => .inr (.inr (.inr side))

theorem writes_writeNextIndex (env : Env) (db : LevelDb) (block : Block) :
    Writes (fun key => key = .nextBlock block.previousBlockId) db (writeNextIndex env db block) := by
  unfold writeNextIndex
  dsimp only
  split
  · exact Writes.put (.refl db) rfl
  · exact .refl db

theorem writes_writeHashNextIndex (env : Env) (db : LevelDb) (block : Block) :
    Writes (fun key => key = .next block.previousBlockHash) db (writeHashNextIndex env db block) := by
  unfold writeHashNextIndex
  dsimp only
  split
  · exact Writes.put (.refl db) rfl
  · exact .refl db

/-- The two links that lead to a block. -/
def StoreKey.LinksTo (block : Block) (key : StoreKey) : Prop :=
  key = .nextBlock block.previousBlockId ∨ key = .next block.previousBlockHash

theorem writes_writeNextLinks (env : Env) (db : LevelDb) (block : Block) :
    Writes (StoreKey.LinksTo block) db (writeNextLinks env db block) := by
  have indexed : Writes (StoreKey.LinksTo block) db (writeNextIndex env db block) :=
    (writes_writeNextIndex env db block).mono fun _ => .inl
  unfold writeNextLinks
  dsimp only
  split
  · exact .refl db
  · split
    · exact indexed.trans ((writes_writeHashNextIndex env _ block).mono fun _ => .inr)
    · exact indexed

theorem StoreKey.LinksTo.aside {key : StoreKey} (link : key.LinksTo block) : key.IsAside := by
  cases link with
  | inl byNumber =>
      rw [byNumber]
      exact .inr (.inl rfl)
  | inr byHash =>
      rw [byHash]
      exact .inl rfl

/-! ### Writing an admitted block -/

/-- The block becomes the one of its slot. -/
def TakesSlot (env : Env) (db : LevelDb) (block : Block) : Prop :=
  (getBlock env db block.number).number ≤ 0 ∨
    preferBlockVariant block (getBlock env db block.number) = true

/-- A first genesis block, or a child of the current tip. -/
def ExtendsTip (env : Env) (db : LevelDb) (block : Block) : Prop :=
  block.previousBlockId ≤ 0 ∧ getLatestBlockId db < 0 ∨
    block.previousBlockId = getLatestBlockId db ∧
      (getBlock env db (getLatestBlockId db)).number = getLatestBlockId db ∧
      0 < (getBlock env db (getLatestBlockId db)).hash.length ∧
      (getBlock env db (getLatestBlockId db)).hash = block.previousBlockHash

/-- What the writes of a new block do to the lookups. -/
structure Written (env : Env) (db : LevelDb) (block : Block) (after : LevelDb) : Prop where
  sound : Sound env after
  contents : ∀ hash, after.get (.block hash) =
    if hash = block.hash then blockJSON env block else db.get (.block hash)
  taken : TakesSlot env db block → getBlock env after block.number = block
  kept : ∀ number, number ≠ block.number ∨ ¬ TakesSlot env db block →
    getBlock env after number = getBlock env db number
  first : getFirstBlockId after = getFirstBlockId db
  extended : TakesSlot env db block → ExtendsTip env db block →
    getLatestBlockId after = block.number
  latest : ¬ (TakesSlot env db block ∧ ExtendsTip env db block) →
    getLatestBlockId after = getLatestBlockId db

theorem TakesSlot.decide_iff (env : Env) (db : LevelDb) (block : Block) :
    (decide ((getBlock env db block.number).number ≤ 0) ||
      preferBlockVariant block (getBlock env db block.number)) = true ↔ TakesSlot env db block := by
  rw [Bool.or_eq_true, decide_eq_true_eq]
  rfl

/-- The tip moves to a block that extends it and stays otherwise. -/
theorem advanceLatest_cases (env : Env) (db : LevelDb) (block : Block) :
    ExtendsTip env db block ∧ Writes StoreKey.IsQuiet (setLatestBlockId env db block.number)
        (advanceLatest env db block) ∨
      ¬ ExtendsTip env db block ∧ advanceLatest env db block = db := by
  unfold advanceLatest ExtendsTip
  dsimp only
  by_cases first : block.previousBlockId ≤ 0 ∧ getLatestBlockId db < 0
  · rw [if_pos first]
    exact .inl ⟨.inl first, .refl _⟩
  · rw [if_neg first]
    by_cases ids : block.previousBlockId = getLatestBlockId db
    · rw [if_pos ids]
      split
      · rename_i matching
        exact .inl ⟨.inr ⟨ids, matching⟩, quiet_maybeAdvanceValidatedCheckpoint _ _⟩
      · rename_i other
        exact .inr ⟨not_or.mpr ⟨first, fun tip => other tip.2⟩, rfl⟩
    · rw [if_neg ids]
      exact .inr ⟨not_or.mpr ⟨first, fun tip => ids tip.1⟩, rfl⟩

theorem tip_advanceLatest (env : Env) (db : LevelDb) (block : Block) :
    Writes (fun key => key.IsTip ∨ key.IsQuiet) db (advanceLatest env db block) := by
  cases advanceLatest_cases env db block with
  | inl moved =>
      have latest : Writes (fun key => key.IsTip ∨ key.IsQuiet) db
          (setLatestBlockId env db block.number) :=
        (tip_setLatestBlockId db _).mono fun _ => .inl
      exact latest.trans (moved.2.mono fun _ => .inr)
  | inr stays =>
      rw [stays.2]
      exact .refl db

/-- A variant that loses its slot is counted and no more; every other block is
linked and may become the tip. -/
theorem writeBlock_cases (env : Env) (db : LevelDb) (block : Block) :
    ¬ TakesSlot env (writeStored env db block) block ∧
        writeBlock env db block = countForkVariant (writeStored env db block) block ∨
      TakesSlot env (writeStored env db block) block ∧ ∃ counted,
        Writes StoreKey.IsQuiet (writeCanonical env (writeStored env db block) block) counted ∧
          writeBlock env db block = advanceLatest env (writeNextLinks env counted block) block := by
  unfold writeBlock
  dsimp only
  generalize writeStored env db block = stored
  by_cases takes : TakesSlot env stored block
  · rw [(TakesSlot.decide_iff env stored block).mpr takes, if_pos rfl, Bool.not_true,
      Bool.and_false, if_neg Bool.false_ne_true]
    refine .inr ⟨takes, _, ?_, rfl⟩
    split
    · exact quiet_countForkVariant _ block
    · exact .refl _
  · have refused : (decide ((getBlock env stored block.number).number ≤ 0) ||
        preferBlockVariant block (getBlock env stored block.number)) = false := by
      rw [← Bool.not_eq_true, TakesSlot.decide_iff]
      exact takes
    have occupied : decide (0 < (getBlock env stored block.number).number) = true := by
      have positive : ¬ (getBlock env stored block.number).number ≤ 0 :=
        fun empty => takes (.inl empty)
      exact decide_eq_true (not_le.mp positive)
    rw [refused, occupied]
    exact .inl ⟨takes, rfl⟩

/-- The keys that are written after the ones of the block itself. -/
def StoreKey.IsPlacing (block : Block) (key : StoreKey) : Prop :=
  key = .canonical block.number ∨ key = .legacyBlock block.number ∨ key.LinksTo block ∨
    key.IsTip ∨ key.IsQuiet

theorem writes_writeCanonical (env : Env) (db : LevelDb) (block : Block) :
    Writes (fun key => key = .canonical block.number ∨ key = .legacyBlock block.number) db
      (writeCanonical env db block) :=
  ((Writes.refl db).put (.inl rfl)).put (.inr rfl)

theorem placing_writeBlock (env : Env) (db : LevelDb) (block : Block) :
    Writes (StoreKey.IsPlacing block) (writeStored env db block) (writeBlock env db block) := by
  have quiet : ∀ {start finish : LevelDb}, Writes StoreKey.IsQuiet start finish →
      Writes (StoreKey.IsPlacing block) start finish :=
    fun writes => writes.mono fun _ written => .inr (.inr (.inr (.inr written)))
  cases writeBlock_cases env db block with
  | inl refused =>
      rw [refused.2]
      exact quiet (quiet_countForkVariant _ block)
  | inr placed =>
      obtain ⟨-, counted, writes, same⟩ := placed
      rw [same]
      have canonical : Writes (StoreKey.IsPlacing block) (writeStored env db block)
          (writeCanonical env (writeStored env db block) block) := by
        apply (writes_writeCanonical env _ block).mono
        intro key written
        exact written.imp_right .inl
      have linked : Writes (StoreKey.IsPlacing block) counted (writeNextLinks env counted block) :=
        (writes_writeNextLinks env counted block).mono fun _ link => .inr (.inr (.inl link))
      have moved := tip_advanceLatest env (writeNextLinks env counted block) block
      exact ((canonical.trans (quiet writes)).trans linked).trans
        (moved.mono fun _ written => .inr (.inr (.inr written)))

/-- The keys of the block itself change no lookup by slot. -/
theorem writeStored_facts (sound : Sound env db) (trips : RoundTrips env block)
    (fresh : db.get (.block block.hash) = []) :
    Sound env (writeStored env db block) ∧
      (∀ hash, (writeStored env db block).get (.block hash) =
        if hash = block.hash then blockJSON env block else db.get (.block hash)) ∧
      (∀ number, getBlock env (writeStored env db block) number = getBlock env db number) ∧
      getFirstBlockId (writeStored env db block) = getFirstBlockId db ∧
      getLatestBlockId (writeStored env db block) = getLatestBlockId db := by
  have later : Writes StoreKey.IsAside (db.put (.block block.hash) (blockJSON env block))
      (writeStored env db block) :=
    (Writes.put (.refl _) (.inr (.inr (.inl rfl)))).trans
      (writes_maybeUpdateHighestStoredBlock _ _).aside
  have contents : ∀ hash, (db.put (.block block.hash) (blockJSON env block)).get (.block hash) =
      if hash = block.hash then blockJSON env block else db.get (.block hash) := by
    intro hash
    rw [LevelDb.get_put]
    by_cases same : hash = block.hash
    · simp [same]
    · simp [same, Ne.symm same]
  have held : ∀ {other : Block}, Holds env db other →
      Holds env (db.put (.block block.hash) (blockJSON env block)) other := by
    intro other holds
    refine holds.congr (LevelDb.get_put_of_ne ?_)
    intro same
    injection same with hashes
    rw [hashes, holds.stored] at fresh
    exact blockJSON_ne_nil env other fresh
  refine ⟨later.sound_aside (sound.put_block trips (.inl fresh)), ?_, ?_, ?_, ?_⟩
  · exact fun hash => (later.blockData rfl).trans (contents hash)
  · intro number
    rw [later.getBlock_aside]
    rcases sound.getBlock_cases number with ⟨missing, slot, legacy⟩ | ⟨holds, -, slot⟩
    · rw [missing, getBlock, LevelDb.get_put_of_ne (by simp), LevelDb.get_put_of_ne (by simp),
        slot, legacy]
      rfl
    · refine (held holds).getBlock_eq ?_
      rw [LevelDb.get_put_of_ne (by simp), slot]
  · rw [later.getFirstBlockId_aside]
    exact getFirstBlockId_congr (LevelDb.get_put_of_ne (by simp)) (LevelDb.get_put_of_ne (by simp))
  · rw [later.getLatestBlockId_aside]
    exact getLatestBlockId_congr (LevelDb.get_put_of_ne (by simp)) (LevelDb.get_put_of_ne (by simp))

theorem getBlock_writeCanonical (holds : Holds env db block) (number : Int) :
    getBlock env (writeCanonical env db block) number =
      if number = block.number then block else getBlock env db number := by
  have blockKey : ∀ hash, (writeCanonical env db block).get (.block hash) =
      db.get (.block hash) := by
    intro hash
    rw [writeCanonical, LevelDb.get_put_of_ne (by simp), LevelDb.get_put_of_ne (by simp)]
  split
  · rename_i same
    refine (holds.congr (blockKey _)).getBlock_eq ?_
    rw [same, writeCanonical, LevelDb.get_put_of_ne (by simp), LevelDb.get_put_self]
  · rename_i other
    refine getBlock_congr ?_ ?_ blockKey
    · rw [writeCanonical, LevelDb.get_put_of_ne (by simp),
        LevelDb.get_put_of_ne (by simpa using Ne.symm other)]
    · rw [writeCanonical, LevelDb.get_put_of_ne (by simpa using Ne.symm other),
        LevelDb.get_put_of_ne (by simp)]

namespace Writes

variable (writes : Writes (fun key => key.IsLatest ∨ key.IsSide) db after)
include writes

theorem ends_blockData {key : StoreKey} (data : key.isBlockData = true) :
    after.get key = db.get key := by
  refine writes.get_eq ?_
  rintro ((rfl | rfl) | side)
  · cases data
  · cases data
  · cases key <;> simp [StoreKey.IsSide, StoreKey.isBlockData, StoreKey.family] at side data

theorem getBlock_ends (number : Int) : getBlock env after number = getBlock env db number :=
  getBlock_congr (writes.ends_blockData rfl) (writes.ends_blockData rfl)
    (fun _ => writes.ends_blockData rfl)

theorem getFirstBlockId_ends : getFirstBlockId after = getFirstBlockId db := by
  refine getFirstBlockId_congr (writes.get_eq ?_) (writes.get_eq ?_) <;>
    simp [StoreKey.IsLatest, StoreKey.IsSide]

theorem sound_ends (sound : Sound env db) : Sound env after := by
  refine sound.of_writes writes ?_
  rintro key ((rfl | rfl) | side)
  · rfl
  · rfl
  · cases key <;> simp [StoreKey.IsSide, StoreKey.isBlockData, StoreKey.family] at side ⊢

end Writes

theorem ExtendsTip.congr {linked : LevelDb}
    (below : block.previousBlockId < block.number ∨ block.previousBlockId = -1)
    (latest : getLatestBlockId linked = getLatestBlockId db)
    (slots : ∀ number, number ≠ block.number → getBlock env linked number = getBlock env db number) :
    ExtendsTip env linked block ↔ ExtendsTip env db block := by
  unfold ExtendsTip
  rw [latest]
  by_cases first : block.previousBlockId ≤ 0 ∧ getLatestBlockId db < 0
  · exact iff_of_true (.inl first) (.inl first)
  · by_cases ids : block.previousBlockId = getLatestBlockId db
    · rw [slots _ (by omega)]
    · exact iff_of_false (not_or.mpr ⟨first, fun tip => ids tip.1⟩)
        (not_or.mpr ⟨first, fun tip => ids tip.1⟩)

/-- The tip moves exactly to a block that extends it. -/
theorem advanceLatest_facts {linked : LevelDb} (range : IsLong block.number)
    (below : block.previousBlockId < block.number ∨ block.previousBlockId = -1)
    (latest : getLatestBlockId linked = getLatestBlockId db)
    (slots : ∀ number, number ≠ block.number → getBlock env linked number = getBlock env db number) :
    Writes (fun key => key.IsLatest ∨ key.IsSide) linked (advanceLatest env linked block) ∧
      (ExtendsTip env db block → getLatestBlockId (advanceLatest env linked block) = block.number) ∧
      (¬ ExtendsTip env db block →
        getLatestBlockId (advanceLatest env linked block) = getLatestBlockId db) := by
  have same := ExtendsTip.congr below latest slots
  refine ⟨(tip_advanceLatest env linked block).mono fun _ => tip_or_quiet, ?_⟩
  cases advanceLatest_cases env linked block with
  | inl moved =>
      refine ⟨fun _ => ?_, fun stays => absurd (same.mp moved.1) stays⟩
      rw [moved.2.side.getLatestBlockId_side, getLatestBlockId_setLatestBlockId range]
  | inr stays =>
      refine ⟨fun extended => absurd (same.mpr extended) stays.1, fun _ => ?_⟩
      rw [stays.2, latest]

theorem TakesSlot.congr {db after : LevelDb}
    (same : getBlock env after block.number = getBlock env db block.number) :
    TakesSlot env after block ↔ TakesSlot env db block := by
  rw [TakesSlot, TakesSlot, same]

/-- A block that takes its slot leaves the chain ends to `advanceLatest`. -/
theorem ends_writeCanonical (env : Env) (db : LevelDb) (block : Block) :
    getFirstBlockId (writeCanonical env db block) = getFirstBlockId db ∧
      getLatestBlockId (writeCanonical env db block) = getLatestBlockId db := by
  refine ⟨getFirstBlockId_congr ?_ ?_, getLatestBlockId_congr ?_ ?_⟩ <;>
    rw [writeCanonical, LevelDb.get_put_of_ne (by simp), LevelDb.get_put_of_ne (by simp)]

theorem written_writeBlock (sound : Sound env db) (trips : RoundTrips env block)
    (fresh : db.get (.block block.hash) = [])
    (below : block.previousBlockId < block.number ∨ block.previousBlockId = -1) :
    Written env db block (writeBlock env db block) := by
  obtain ⟨storedSound, contents, slots, first, latest⟩ := writeStored_facts sound trips fresh
  have holds : Holds env (writeStored env db block) block := ⟨trips, by rw [contents, if_pos rfl]⟩
  have sameSlot : TakesSlot env (writeStored env db block) block ↔ TakesSlot env db block :=
    TakesSlot.congr (slots _)
  cases writeBlock_cases env db block with
  | inl refused =>
      obtain ⟨loses, same⟩ := refused
      rw [sameSlot] at loses
      rw [same]
      have counted : Writes StoreKey.IsAside (writeStored env db block)
          (countForkVariant (writeStored env db block) block) :=
        (writes_countForkVariant _ block).aside
      refine ⟨counted.sound_aside storedSound, ?_, fun takes => absurd takes loses, ?_, ?_,
        fun takes => absurd takes loses, ?_⟩
      · exact fun hash => (counted.blockData rfl).trans (contents hash)
      · exact fun number _ => (counted.getBlock_aside number).trans (slots number)
      · exact counted.getFirstBlockId_aside.trans first
      · exact fun _ => counted.getLatestBlockId_aside.trans latest
  | inr placedCase =>
      obtain ⟨takes, counted, quiet, same⟩ := placedCase
      rw [sameSlot] at takes
      rw [same]
      have aside : Writes StoreKey.IsAside (writeCanonical env (writeStored env db block) block)
          (writeNextLinks env counted block) :=
        quiet.side.aside.trans ((writes_writeNextLinks env counted block).mono
          fun _ => StoreKey.LinksTo.aside)
      generalize writeNextLinks env counted block = linked at aside ⊢
      have placed : ∀ number, getBlock env linked number =
          if number = block.number then block else getBlock env db number := by
        intro number
        rw [aside.getBlock_aside, getBlock_writeCanonical holds, slots]
      obtain ⟨firstKept, latestKept⟩ := ends_writeCanonical env (writeStored env db block) block
      obtain ⟨writes, extended, stays⟩ := advanceLatest_facts trips.facts.2.2 below
        (aside.getLatestBlockId_aside.trans (latestKept.trans latest))
        (fun number other => (placed number).trans (if_neg other))
      refine ⟨writes.sound_ends (aside.sound_aside (storedSound.writeCanonical holds)), ?_, ?_, ?_,
        ?_, fun _ => extended, fun other => stays fun extends_ => other ⟨takes, extends_⟩⟩
      · intro hash
        rw [writes.ends_blockData rfl, aside.blockData rfl, ← contents, writeCanonical,
          LevelDb.get_put_of_ne (by simp), LevelDb.get_put_of_ne (by simp)]
      · intro _
        rw [writes.getBlock_ends, placed, if_pos rfl]
      · rintro number (other | stays)
        · rw [writes.getBlock_ends, placed, if_neg other]
        · exact absurd takes stays
      · rw [writes.getFirstBlockId_ends, aside.getFirstBlockId_aside, firstKept, first]

/-! ### Stored blocks of a sound database -/

private theorem keepFirstByHash_covers {blocks : List Block} {block : Block} (member : block ∈ blocks)
    (positive : 0 < block.number) : ∃ kept ∈ keepFirstByHash blocks, kept.hash = block.hash := by
  induction blocks using List.reverseRecOn with
  | nil => cases member
  | append_singleton earlier last ih =>
      rw [keepFirstByHash, List.foldl_append, ← keepFirstByHash]
      simp only [List.foldl_cons, List.foldl_nil]
      rcases List.mem_append.mp member with old | new
      · obtain ⟨kept, keptMember, same⟩ := ih old
        split
        · exact ⟨kept, List.mem_append_left _ keptMember, same⟩
        · exact ⟨kept, keptMember, same⟩
      · rw [List.mem_singleton.mp new] at positive ⊢
        split
        · exact ⟨last, by simp, rfl⟩
        · rename_i refused
          have taken : ¬ (keepFirstByHash earlier).all (fun other => other.hash ≠ last.hash) = true :=
            fun free => refused ⟨positive, free⟩
          simp only [List.all_eq_true, decide_eq_true_eq, not_forall, not_not] at taken
          obtain ⟨kept, keptMember, same⟩ := taken
          exact ⟨kept, keptMember, same⟩

theorem parseBlockJson_nil (env : Env) : parseBlockJson env [] = [] := rfl

/-- Every text that the iteration reads as blocks holds one stored block. -/
theorem Sound.holds_of_entry (sound : Sound env db) {text value : Text}
    (present : db[text]? = some value) (entry : isBlockEntry text = true)
    (read : block ∈ parseBlockJson env value) : Holds env db block := by
  obtain ⟨key, rfl⟩ := sound.keys text (Std.ExtTreeMap.mem_iff_isSome_getElem?.mpr (by simp [present]))
  have value_eq : db.get key = value := by
    rw [LevelDb.get, Std.ExtTreeMap.getD_eq_getD_getElem?, present]
    rfl
  have nonempty : value ≠ [] := by
    rintro rfl
    rw [parseBlockJson_nil] at read
    cases read
  have reads : ∀ {other : Block}, Holds env db other → value = blockJSON env other →
      Holds env db block := by
    intro other holds json
    rw [json, holds.trips, List.mem_singleton] at read
    exact read ▸ holds
  rw [isBlockEntry_text, decide_eq_true_eq] at entry
  cases key <;> simp only [StoreKey.family] at entry <;> try omega
  case block hash =>
    obtain ⟨other, holds, rfl⟩ := sound.blocks hash (value_eq ▸ nonempty)
    exact reads holds (value_eq.symm.trans holds.stored)
  case legacyBlock number =>
    obtain ⟨other, holds, -, -, legacy⟩ := sound.slots number (.inr (value_eq ▸ nonempty))
    exact reads holds (value_eq.symm.trans legacy)

theorem Sound.mem_getStoredBlocks (sound : Sound env db) :
    block ∈ getStoredBlocks env db ↔ Holds env db block := by
  have listed : ∀ {block : Block},
      block ∈ (db.toList.filter (fun entry => isBlockEntry entry.1)).flatMap
        (fun entry => parseBlockJson env entry.2) → Holds env db block := by
    intro block member
    obtain ⟨⟨text, value⟩, entry, read⟩ := List.mem_flatMap.mp member
    rw [List.mem_filter, Std.ExtTreeMap.mem_toList_iff_getElem?_eq_some] at entry
    exact sound.holds_of_entry entry.1 entry.2 read
  constructor
  · exact fun member => listed ((keepFirstByHash_sublist _).subset member)
  · intro holds
    have present : db[(StoreKey.block block.hash).text]? = some (blockJSON env block) := by
      have stored := holds.stored
      rw [LevelDb.get, Std.ExtTreeMap.getD_eq_getD_getElem?] at stored
      cases found : db[(StoreKey.block block.hash).text]? with
      | none =>
          rw [found] at stored
          exact absurd stored.symm (blockJSON_ne_nil env block)
      | some value =>
          rw [found] at stored
          exact congrArg some stored
    have member : block ∈ (db.toList.filter (fun entry => isBlockEntry entry.1)).flatMap
        (fun entry => parseBlockJson env entry.2) := by
      refine List.mem_flatMap.mpr
        ⟨((StoreKey.block block.hash).text, blockJSON env block), ?_, ?_⟩
      · rw [List.mem_filter, Std.ExtTreeMap.mem_toList_iff_getElem?_eq_some]
        exact ⟨present, by rw [isBlockEntry_text]; rfl⟩
      · rw [holds.trips]
        exact List.mem_cons_self
    obtain ⟨kept, keptMember, same⟩ := keepFirstByHash_covers member holds.trips.facts.1
    have keptHolds := listed ((keepFirstByHash_sublist _).subset keptMember)
    rw [holds.unique keptHolds same.symm]
    exact keptMember

theorem Sound.bestPath_holds (sound : Sound env db) (depth : Nat) :
    ∀ block ∈ bestPath env db depth, Holds env db block :=
  bestPath_all (fun _ member => sound.mem_getStoredBlocks.mp member)
    (fun found => (sound.holds_getBlock found).1) depth

/-! ### Rewriting a stored chain -/

/-- Lookups by hash and the chain ends are unchanged, and the database is sound. -/
structure Rewritten (env : Env) (db after : LevelDb) : Prop where
  sound : Sound env after
  contents : ∀ hash, after.get (.block hash) = db.get (.block hash)
  first : getFirstBlockId after = getFirstBlockId db

theorem Rewritten.refl (sound : Sound env db) : Rewritten env db db :=
  ⟨sound, fun _ => rfl, rfl⟩

theorem Rewritten.trans {middle : LevelDb} (early : Rewritten env db middle)
    (late : Rewritten env middle after) : Rewritten env db after :=
  ⟨late.sound, fun hash => (late.contents hash).trans (early.contents hash),
    late.first.trans early.first⟩

theorem Rewritten.holds (rewritten : Rewritten env db after) (holds : Holds env db block) :
    Holds env after block :=
  holds.congr (rewritten.contents _)

theorem holds_of_rewritten (rewritten : Rewritten env db after) {block : Block} :
    Holds env after block ↔ Holds env db block :=
  ⟨fun holds => holds.congr (rewritten.contents _).symm, rewritten.holds⟩

theorem Writes.rewritten_aside (writes : Writes StoreKey.IsAside db after) (sound : Sound env db) :
    Rewritten env db after :=
  ⟨writes.sound_aside sound, fun _ => writes.blockData rfl, writes.getFirstBlockId_aside⟩

theorem Writes.rewritten_ends (writes : Writes (fun key => key.IsLatest ∨ key.IsSide) db after)
    (sound : Sound env db) : Rewritten env db after :=
  ⟨writes.sound_ends sound, fun _ => writes.ends_blockData rfl, writes.getFirstBlockId_ends⟩

theorem writeChainBlock_eq (env : Env) (db : LevelDb) (block : Block) :
    writeChainBlock env db block =
      writeCanonical env (db.put (.block block.hash) (blockJSON env block)) block := by
  have swap : (db.put (.canonical block.number) block.hash).put (.block block.hash)
      (blockJSON env block) =
      (db.put (.block block.hash) (blockJSON env block)).put (.canonical block.number) block.hash :=
    LevelDb.put_comm (by simp)
  rw [writeChainBlock, writeCanonical, swap]

theorem rewritten_writeChainBlock (sound : Sound env db) (holds : Holds env db block) :
    Rewritten env db (writeChainBlock env db block) ∧
      getBlock env (writeChainBlock env db block) block.number = block := by
  rw [writeChainBlock_eq]
  have same : ∀ hash, (db.put (.block block.hash) (blockJSON env block)).get (.block hash) =
      db.get (.block hash) := by
    intro hash
    rw [LevelDb.get_put]
    split
    · rename_i key
      injection key with hashes
      rw [← hashes, holds.stored]
    · rfl
  have again := holds.congr (same _)
  refine ⟨⟨(sound.put_block holds.trips (.inr holds.stored)).writeCanonical again, ?_, ?_⟩, ?_⟩
  · intro hash
    rw [← same, writeCanonical, LevelDb.get_put_of_ne (by simp), LevelDb.get_put_of_ne (by simp)]
  · refine getFirstBlockId_congr ?_ ?_ <;>
      rw [writeCanonical, LevelDb.get_put_of_ne (by simp), LevelDb.get_put_of_ne (by simp),
        LevelDb.get_put_of_ne (by simp)]
  · rw [getBlock_writeCanonical again, if_pos rfl]

theorem rewritten_writeChain (chain : List Block) : ∀ {db : LevelDb}, Sound env db →
    (∀ block ∈ chain, Holds env db block) →
    Rewritten env db (writeChain env db chain) ∧
      ∀ tip, chain.getLast? = some tip → getBlock env (writeChain env db chain) tip.number = tip := by
  induction chain with
  | nil =>
      intro db sound _
      exact ⟨.refl sound, by simp⟩
  | cons parent rest ih =>
      intro db sound holds
      obtain ⟨own, slot⟩ := rewritten_writeChainBlock sound (holds parent (by simp))
      cases rest with
      | nil =>
          refine ⟨own, fun tip last => ?_⟩
          obtain rfl : parent = tip := by simpa using last
          exact slot
      | cons child rest =>
          have links : Writes StoreKey.IsAside (writeChainBlock env db parent)
              (writeChainLink (writeChainBlock env db parent) parent child) :=
            Writes.put (Writes.put (.refl _) (.inr (.inl rfl))) (.inl rfl)
          have linked := own.trans (links.rewritten_aside own.sound)
          obtain ⟨later, tipSlot⟩ := ih linked.sound
            (fun block member => linked.holds (holds block (List.mem_cons_of_mem _ member)))
          exact ⟨linked.trans later, fun tip last => tipSlot tip (by rwa [List.getLast?_cons_cons] at last)⟩

theorem get_eraseNextLinks {key : StoreKey}
    (kept : decide (key.family = 3 ∨ key.family = 4) = false) :
    (eraseNextLinks db).get key = db.get key := by
  rw [← isNextEntry_text] at kept
  rw [LevelDb.get, LevelDb.get, Std.ExtTreeMap.getD_eq_getD_getElem?,
    Std.ExtTreeMap.getD_eq_getD_getElem?, eraseNextLinks, Std.ExtTreeMap.getElem?_filter', kept]
  cases db[key.text]? with
  | none => rfl
  | some value => rfl

theorem rewritten_eraseNextLinks (sound : Sound env db) : Rewritten env db (eraseNextLinks db) := by
  have contents : ∀ hash, (eraseNextLinks db).get (.block hash) = db.get (.block hash) :=
    fun hash => get_eraseNextLinks rfl
  refine ⟨⟨?_, ?_, ?_⟩, contents, ?_⟩
  · intro text member
    exact sound.keys text (Std.ExtTreeMap.mem_of_mem_filter member)
  · intro hash present
    rw [contents] at present
    obtain ⟨block, holds, named⟩ := sound.blocks hash present
    exact ⟨block, holds.congr (contents _), named⟩
  · intro number present
    rw [get_eraseNextLinks rfl, get_eraseNextLinks rfl] at present ⊢
    obtain ⟨block, holds, placed⟩ := sound.slots number present
    exact ⟨block, holds.congr (contents _), placed⟩
  · exact getFirstBlockId_congr (get_eraseNextLinks rfl) (get_eraseNextLinks rfl)

end Safire
