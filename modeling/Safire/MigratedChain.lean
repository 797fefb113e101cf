/-
What the schema migration preserves.

In a legacy database a hash names one block. The migration resolves a link through
the blocks that are stored under their hashes, the lookups through the numbered
blocks too, so the chain stays what it was, and a link between two blocks becomes
a link by hash exactly where both are stored under their hashes.
-/

import Safire.SchemaMigration
import Safire.SoundStore

namespace Safire

open Text

variable {env : Env} {ldb : LevelDb}

/-! ### Legacy databases -/

/-- A database from before the chain metadata and the links by hash. A block is
stored under its own hash or number, one hash stands for one block, and the keys of
the links are printed numbers. -/
structure Legacy (env : Env) (ldb : LevelDb) : Prop where
  unmigrated : ∀ name, ldb.get (.chainMeta name) = []
  unlinked : ∀ hash, ldb.get (.next hash) = []
  byHash : ∀ hash, 0 < (rawBlockByHash env ldb hash).number →
    (rawBlockByHash env ldb hash).hash = hash
  canonical : ∀ number, 0 < (rawBlockByHash env ldb (ldb.get (.canonical number))).number →
    (rawBlockByHash env ldb (ldb.get (.canonical number))).number = number
  byNumber : ∀ number, 0 < (parseSingleBlockJson env (ldb.get (.legacyBlock number))).number →
    (parseSingleBlockJson env (ldb.get (.legacyBlock number))).number = number
  identified : ∀ text json, ldb[text]? = some json → isBlockEntry text = true →
    ∀ block ∈ parseBlockJson env json, 0 < (rawBlockByHash env ldb block.hash).number →
      rawBlockByHash env ldb block.hash = block
  printed : ∀ text, legacyNextPrefix ++ text ∈ ldb → ∀ parentId,
    parseLongValue text = some parentId → text = ofLong parentId

/-- A block that the lookups may return: its hash stands for no other stored block. -/
structure Known (env : Env) (ldb : LevelDb) (block : Block) : Prop where
  positive : 0 < block.number
  named : block.hash ≠ []
  identified : 0 < (rawBlockByHash env ldb block.hash).number →
    rawBlockByHash env ldb block.hash = block

theorem missing_number : ¬ 0 < Block.missing.number := by
  decide

theorem mem_of_parseSingleBlockJson {json : Text}
    (found : 0 < (parseSingleBlockJson env json).number) :
    parseSingleBlockJson env json ∈ parseBlockJson env json := by
  unfold parseSingleBlockJson at found ⊢
  cases read : parseBlockJson env json with
  | nil =>
      rw [read] at found
      exact absurd found missing_number
  | cons block rest => exact List.mem_cons_self

theorem parseSingleBlockJson_missing {json : Text}
    (none : ¬ 0 < (parseSingleBlockJson env json).number) :
    parseSingleBlockJson env json = .missing := by
  unfold parseSingleBlockJson at none ⊢
  cases read : parseBlockJson env json with
  | nil => rfl
  | cons block rest =>
      rw [read] at none
      have member : block ∈ parseBlockJson env json := by
        rw [read]
        exact List.mem_cons_self
      exact absurd (mem_parseBlockSections member).1 none

namespace Legacy

variable (legacy : Legacy env ldb)
include legacy

theorem rawBlockByHash_eq (hash : Text) :
    rawBlockByHash env ldb hash = getBlockByHash env ldb hash := by
  rw [getBlockByHash]
  split
  · rename_i empty
    apply parseSingleBlockJson_missing
    intro found
    have same := legacy.byHash hash found
    rw [List.length_eq_zero_iff.mp empty] at same
    rw [List.length_eq_zero_iff.mp empty] at found
    exact (mem_parseBlockSections (mem_of_parseSingleBlockJson found)).2.1 same
  · rfl

theorem known_of_entry {text json : Text} {block : Block} (entry : ldb[text]? = some json)
    (isBlock : isBlockEntry text = true) (read : block ∈ parseBlockJson env json) :
    Known env ldb block :=
  ⟨(mem_parseBlockSections read).1, (mem_parseBlockSections read).2.1,
    legacy.identified text json entry isBlock block read⟩

theorem known_of_get {key : StoreKey} (isBlock : isBlockEntry key.text = true)
    (found : 0 < (parseSingleBlockJson env (ldb.get key)).number) :
    Known env ldb (parseSingleBlockJson env (ldb.get key)) := by
  cases entry : ldb[key.text]? with
  | none =>
      rw [LevelDb.get_eq_getD, entry, Option.getD_none] at found
      exact absurd found missing_number
  | some json =>
      have value : ldb.get key = json := by
        rw [LevelDb.get_eq_getD, entry, Option.getD_some]
      rw [value] at found ⊢
      exact legacy.known_of_entry entry isBlock (mem_of_parseSingleBlockJson found)

theorem known_rawBlockByHash {hash : Text} (found : 0 < (rawBlockByHash env ldb hash).number) :
    Known env ldb (rawBlockByHash env ldb hash) :=
  legacy.known_of_get (by rw [isBlockEntry_text]; rfl) found

/-- A block by number has that number. -/
theorem known_getBlock {number : Int} (found : 0 < (getBlock env ldb number).number) :
    Known env ldb (getBlock env ldb number) ∧ (getBlock env ldb number).number = number := by
  revert found
  unfold getBlock
  dsimp only
  rw [← legacy.rawBlockByHash_eq]
  split
  · rename_i stored
    intro _
    exact ⟨legacy.known_rawBlockByHash stored, legacy.canonical number stored⟩
  · intro found
    exact ⟨legacy.known_of_get (by rw [isBlockEntry_text]; rfl) found, legacy.byNumber number found⟩

theorem known_of_stored {block : Block} (member : block ∈ getStoredBlocks env ldb) :
    Known env ldb block := by
  obtain ⟨entry, inside, read⟩ := List.mem_flatMap.mp ((keepFirstByHash_sublist _).subset member)
  obtain ⟨listed, isBlock⟩ := List.mem_filter.mp inside
  rw [Std.ExtTreeMap.mem_toList_iff_getElem?_eq_some] at listed
  exact legacy.known_of_entry listed isBlock read

/-! ### The block that a link is resolved to -/

theorem rawBlock_eq {number : Int}
    (found : 0 < (rawBlockByHash env ldb (rawCanonicalHash env ldb number)).number) :
    rawBlockByHash env ldb (rawCanonicalHash env ldb number) = getBlock env ldb number := by
  revert found
  unfold rawCanonicalHash getBlock
  dsimp only
  rw [← legacy.rawBlockByHash_eq]
  split
  · intro found
    rw [if_pos found]
  · rename_i empty
    have noCanonical : ldb.get (.canonical number) = [] :=
      List.length_eq_zero_iff.mp (Nat.eq_zero_of_not_pos empty)
    have noBlock : ¬ 0 < (rawBlockByHash env ldb (ldb.get (.canonical number))).number := by
      rw [legacy.rawBlockByHash_eq, noCanonical]
      exact missing_number
    intro found
    rw [if_neg noBlock]
    by_cases numbered : 0 < (parseSingleBlockJson env (ldb.get (.legacyBlock number))).number
    · exact (legacy.known_of_get (by rw [isBlockEntry_text]; rfl) numbered).identified found
    · rw [parseSingleBlockJson_missing numbered, legacy.rawBlockByHash_eq] at found
      exact absurd found missing_number

end Legacy

/-- A block that is not found is the missing one. -/
theorem getBlock_missing {number : Int} (none : ¬ 0 < (getBlock env ldb number).number) :
    getBlock env ldb number = .missing := by
  revert none
  unfold getBlock
  dsimp only
  split
  · rename_i found
    intro none
    exact absurd found none
  · exact parseSingleBlockJson_missing

/-- A connecting block behind the links is the next block. -/
theorem getNextBlock_of_linked {db : LevelDb} {block child : Block} (known : Known env ldb block)
    (linked : linkedNextBlock env db block = child)
    (connects : childConnectsToParent child block = true) : getNextBlock env db block = child := by
  obtain ⟨positive, -, above, -, -⟩ := childConnectsToParent_iff.mp connects
  have present : ¬ (block.number ≤ 0 ∨ block.hash.length = 0) := by
    intro absent
    cases absent with
    | inl low => exact absurd positive (not_lt.mpr low)
    | inr empty => exact known.named (List.length_eq_zero_iff.mp empty)
  have byHash : getNextBlockByHash env db block = child := by
    rw [getNextBlockByHash, if_neg present, linked, if_pos connects]
  rw [getNextBlock, byHash, if_pos (positive.trans above)]

/-! ### Links -/

/-- A legacy link whose blocks connect, as the lookups find them. -/
structure Link (env : Env) (ldb : LevelDb) (parentId childId : Int) : Prop where
  stored : ldb.getLong (.nextBlock parentId) = some childId
  connects : childConnectsToParent (getBlock env ldb childId) (getBlock env ldb parentId) = true

/-- The canonical hash of a number has a block of its own. -/
def Hashed (env : Env) (ldb : LevelDb) (number : Int) : Prop :=
  0 < (rawBlockByHash env ldb (rawCanonicalHash env ldb number)).number

theorem Link.numbers {parentId childId : Int} (link : Link env ldb parentId childId) :
    0 < (getBlock env ldb parentId).number ∧ 0 < (getBlock env ldb childId).number := by
  obtain ⟨positive, -, above, -, -⟩ := childConnectsToParent_iff.mp link.connects
  omega

theorem nextKey_text (number : Int) :
    (StoreKey.nextBlock number).text = legacyNextPrefix ++ ofLong number := by
  rfl

theorem drop_legacyNextPrefix (text : Text) :
    (legacyNextPrefix ++ text).drop legacyNextPrefix.length = text :=
  List.drop_left

theorem mem_of_getLong {key : StoreKey} {value : Int} (stored : ldb.getLong key = some value) :
    key.text ∈ ldb := by
  rw [← Std.ExtTreeMap.isSome_getElem?_iff_mem]
  rw [LevelDb.getLong, LevelDb.get_eq_getD] at stored
  cases found : ldb[key.text]? with
  | none =>
      rw [found, Option.getD_none] at stored
      cases stored
  | some content => rfl

namespace Legacy

variable (legacy : Legacy env ldb) {parentId childId : Int} {hash childHash : Text}
include legacy

theorem rawBlockByHash_hash {number : Int} (hashed : Hashed env ldb number) :
    rawBlockByHash env ldb (getBlock env ldb number).hash = getBlock env ldb number := by
  rw [← legacy.rawBlock_eq hashed, legacy.byHash _ hashed]

/-- The number of a linked block is its own. -/
theorem parent_number (link : Link env ldb parentId childId) :
    (getBlock env ldb parentId).number = parentId :=
  (legacy.known_getBlock link.numbers.1).2

theorem child_number (link : Link env ldb parentId childId) :
    (getBlock env ldb childId).number = childId :=
  (legacy.known_getBlock link.numbers.2).2

/-- A link becomes an entry where both blocks are stored under their hashes. -/
theorem entry_of_link (link : Link env ldb parentId childId) (parentHashed : Hashed env ldb parentId)
    (childHashed : Hashed env ldb childId) :
    (.next (getBlock env ldb parentId).hash, (getBlock env ldb childId).hash) ∈
      legacyLinkEntries env ldb := by
  have range : IsLong parentId := by
    rw [← legacy.parent_number link]
    exact isLong_getBlock env ldb parentId
  have named : 0 < (getBlock env ldb parentId).hash.length :=
    List.length_pos_iff.mpr (legacy.known_getBlock link.numbers.1).1.named
  have value : parseLongValue (ldb.getD (legacyNextPrefix ++ ofLong parentId) []) = some childId :=
    link.stored
  rw [mem_legacyLinkEntries]
  refine ⟨(StoreKey.nextBlock parentId).text, mem_of_getLong link.stored, ?_, ?_⟩
  · rw [nextKey_text]
    exact List.prefix_append _ _
  · rw [nextKey_text, linkEntry, drop_legacyNextPrefix, parseLongValue_ofLong range, value]
    dsimp only
    rw [legacy.rawBlock_eq parentHashed, legacy.rawBlock_eq childHashed,
      if_pos ⟨named, link.connects⟩]

/-- Every entry is the entry of such a link. -/
theorem link_of_entry (member : (.next hash, childHash) ∈ legacyLinkEntries env ldb) :
    ∃ parentId childId, Link env ldb parentId childId ∧ Hashed env ldb parentId ∧
      Hashed env ldb childId ∧ hash = (getBlock env ldb parentId).hash ∧
      childHash = (getBlock env ldb childId).hash := by
  obtain ⟨key, present, front, written⟩ := mem_legacyLinkEntries.mp member
  obtain ⟨text, rfl⟩ := front
  rw [linkEntry, drop_legacyNextPrefix] at written
  cases parent : parseLongValue text with
  | none =>
      rw [parent] at written
      cases written
  | some parentId =>
      have printed := legacy.printed text present parentId parent
      cases child : parseLongValue (ldb.getD (legacyNextPrefix ++ text) []) with
      | none =>
          rw [parent, child] at written
          cases written
      | some childId =>
          rw [parent, child] at written
          dsimp only at written
          split at written
          · rename_i connecting
            obtain ⟨positive, -, above, -, -⟩ := childConnectsToParent_iff.mp connecting.2
            have parentHashed : Hashed env ldb parentId := positive
            have childHashed : Hashed env ldb childId := positive.trans above
            rw [legacy.rawBlock_eq parentHashed, legacy.rawBlock_eq childHashed] at written connecting
            have stored : ldb.getLong (.nextBlock parentId) = some childId := by
              rw [LevelDb.getLong, LevelDb.get, nextKey_text, ← printed]
              exact child
            have same := Option.some.inj written
            refine ⟨parentId, childId, ⟨stored, connecting.2⟩, parentHashed, childHashed, ?_, ?_⟩
            · exact (StoreKey.next.inj (congrArg Prod.fst same)).symm
            · exact (congrArg Prod.snd same).symm
          · cases written

/-- A stored block with the hash of a linked parent is that parent. -/
theorem eq_of_parentHash {block : Block} (known : Known env ldb block)
    (parentHashed : Hashed env ldb parentId)
    (same : block.hash = (getBlock env ldb parentId).hash) : block = getBlock env ldb parentId := by
  have raw := legacy.rawBlockByHash_hash parentHashed
  have positive : 0 < (getBlock env ldb parentId).number := by
    rw [← legacy.rawBlock_eq parentHashed]
    exact parentHashed
  have own := known.identified
  rw [same, raw] at own
  exact (own positive).symm

theorem entries_agree : ∀ left ∈ legacyLinkEntries env ldb, ∀ right ∈ legacyLinkEntries env ldb,
    left.1 = right.1 → left.2 = right.2 := by
  intro left leftMember right rightMember same
  obtain ⟨key, -, -, written⟩ := mem_legacyLinkEntries.mp leftMember
  obtain ⟨hash, next⟩ := next_of_linkEntry written
  have leftEntry : (.next hash, left.2) ∈ legacyLinkEntries env ldb := by rwa [← next]
  have rightEntry : (.next hash, right.2) ∈ legacyLinkEntries env ldb := by rwa [← next, same]
  obtain ⟨parentId, childId, link, -, -, named, child⟩ := legacy.link_of_entry leftEntry
  obtain ⟨otherId, otherChild, otherLink, hashed, -, otherNamed, other⟩ :=
    legacy.link_of_entry rightEntry
  have parents : getBlock env ldb parentId = getBlock env ldb otherId :=
    legacy.eq_of_parentHash (legacy.known_getBlock link.numbers.1).1 hashed
      (named.symm.trans otherNamed)
  have numbers : parentId = otherId := by
    rw [← legacy.parent_number link, parents, legacy.parent_number otherLink]
  have stored := link.stored
  rw [numbers, otherLink.stored] at stored
  rw [child, other, Option.some.inj stored]

/-! ### The lookups after the migration -/

theorem writes : Writes StoreKey.IsMigrated ldb (migrateSchema env false ldb).2 :=
  writes_migrateSchema (schemaVersion_ne legacy.unmigrated)

/-- A link by hash is empty or joins the blocks of a legacy link. -/
theorem next_cases (hash : Text) : (migrateSchema env false ldb).2.get (.next hash) = [] ∨
    ∃ parentId childId, Link env ldb parentId childId ∧ Hashed env ldb parentId ∧
      Hashed env ldb childId ∧ hash = (getBlock env ldb parentId).hash ∧
      (migrateSchema env false ldb).2.get (.next hash) = (getBlock env ldb childId).hash := by
  cases @next_migrateSchema_cases env ldb (schemaVersion_ne legacy.unmigrated) hash with
  | inl kept =>
      left
      rw [kept, legacy.unlinked]
  | inr written => exact .inr (legacy.link_of_entry written)

theorem getNextBlockId_migrateSchema (number : Int) :
    getNextBlockId env (migrateSchema env false ldb).2 number = getNextBlockId env ldb number := by
  have byHash : getBlockByHash env (migrateSchema env false ldb).2 = getBlockByHash env ldb :=
    funext fun hash => legacy.writes.getBlockByHash_migrated hash
  unfold getNextBlockId
  rw [legacy.writes.getLong_nextBlock_migrated, legacy.writes.getBlock_migrated, byHash]
  dsimp only
  split
  · rfl
  · rename_i unstored
    by_cases named : 0 < (getBlock env ldb number).hash.length
    · rw [if_pos named, if_pos named, legacy.unlinked]
      cases legacy.next_cases (getBlock env ldb number).hash with
      | inl empty => rw [empty]
      | inr written =>
          -- the written link is that of the number itself, which is stored
          exfalso
          obtain ⟨parentId, childId, link, hashed, -, same, -⟩ := written
          have found : 0 < (getBlock env ldb number).number := by
            apply Decidable.byContradiction
            intro none
            rw [getBlock_missing none] at named
            exact absurd named (by decide)
          have known := legacy.known_getBlock found
          have numbers : number = parentId := by
            rw [← known.2, legacy.eq_of_parentHash known.1 hashed same, legacy.parent_number link]
          rw [numbers, link.stored, Option.getD_some, ← legacy.child_number link] at unstored
          exact unstored link.numbers.2
    · rw [if_neg named, if_neg named]

/-- A block has the same next block before and after. -/
theorem getNextBlock_migrateSchema {block : Block} (known : Known env ldb block) :
    getNextBlock env (migrateSchema env false ldb).2 block = getNextBlock env ldb block := by
  cases legacy.next_cases block.hash with
  | inl empty =>
      have link : (migrateSchema env false ldb).2.get (.next block.hash) =
          ldb.get (.next block.hash) := by
        rw [empty, legacy.unlinked]
      exact getNextBlock_of_nextId legacy.writes.getStoredBlocks_migrated
        legacy.writes.get_block_migrated legacy.writes.getBlock_migrated link
        (legacy.writes.get_migrated (by exact (by decide : 4 ≠ 6 ∧ 4 ≠ 3)))
        (legacy.getNextBlockId_migrateSchema block.number)
  | inr written =>
      obtain ⟨parentId, childId, link, parentHashed, childHashed, same, value⟩ := written
      have own := legacy.eq_of_parentHash known parentHashed same
      have child := (legacy.known_getBlock link.numbers.2).1
      have byHash : getBlockByHash env (migrateSchema env false ldb).2
          (getBlock env ldb childId).hash = getBlock env ldb childId := by
        rw [legacy.writes.getBlockByHash_migrated, ← legacy.rawBlockByHash_eq,
          legacy.rawBlockByHash_hash childHashed]
      have connects : childConnectsToParent (getBlock env ldb childId) block = true := by
        rw [own]
        exact link.connects
      have after : linkedNextBlock env (migrateSchema env false ldb).2 block =
          getBlock env ldb childId := by
        unfold linkedNextBlock
        dsimp only
        rw [value, if_pos (List.length_pos_iff.mpr child.named), byHash, if_pos connects]
      have before : linkedNextBlock env ldb block = getBlock env ldb childId := by
        have legacyNextId : ldb.getLong (.nextBlock block.number) = some childId := by
          rw [own, legacy.parent_number link, link.stored]
        have positive : 0 < childId := by
          rw [← legacy.child_number link]
          exact link.numbers.2
        have unnamed : ¬ 0 < (ldb.get (.next block.hash)).length := by
          rw [legacy.unlinked]
          decide
        have unlinked : ¬ childConnectsToParent Block.missing block = true := by
          rw [childConnectsToParent, if_pos (.inl (by decide))]
          decide
        unfold linkedNextBlock
        dsimp only
        rw [if_neg unnamed, if_neg unlinked, legacyNextId, Option.getD_some, if_pos positive]
      rw [getNextBlock_of_linked known after connects, getNextBlock_of_linked known before connects]

/-- The next block of a stored block is one. -/
theorem known_getNextBlock {block : Block} (found : 0 < (getNextBlock env ldb block).number) :
    Known env ldb (getNextBlock env ldb block) := by
  revert found
  apply getNextBlock_of_lookups (motive := fun block => 0 < block.number → Known env ldb block)
  · intro positive
    exact absurd positive missing_number
  · intro hash
    rw [← legacy.rawBlockByHash_eq]
    exact legacy.known_rawBlockByHash
  · intro number positive
    exact (legacy.known_getBlock positive).1
  · intro stored member _
    exact legacy.known_of_stored member
  · intro unfound _ positive
    exact absurd positive missing_number

end Legacy

/-! ### The chain -/

/-- The blocks of a scan: the next block of each, up to the first that is not found. -/
def chainFrom (env : Env) (db : LevelDb) : Nat → Block → List Block
  | 0, _ => []
  | rounds + 1, block =>
      if 0 < block.number then block :: chainFrom env db rounds (getNextBlock env db block) else []

/-- The first rounds of the scan that every reader of the chain makes. -/
def chainOf (env : Env) (db : LevelDb) (rounds : Nat) : List Block :=
  chainFrom env db rounds (getBlock env db (getFirstBlockId db))

/-- What a migration of `before` should leave behind. -/
structure Preserved (env : Env) (before after : LevelDb) : Prop where
  first : getFirstBlockId after = getFirstBlockId before
  latest : getLatestBlockId after = getLatestBlockId before
  chain : ∀ rounds, chainOf env after rounds = chainOf env before rounds
  links : ∀ parentId childId, Link env before parentId childId →
    after.get (.next (getBlock env before parentId).hash) = (getBlock env before childId).hash
  again : ∀ schemaMigrated, (migrateSchema env schemaMigrated after).2 = after

namespace Legacy

variable (legacy : Legacy env ldb)
include legacy

theorem chainFrom_migrateSchema (rounds : Nat) {block : Block}
    (known : 0 < block.number → Known env ldb block) :
    chainFrom env (migrateSchema env false ldb).2 rounds block = chainFrom env ldb rounds block := by
  induction rounds generalizing block with
  | zero => rfl
  | succ rounds ih =>
      rw [chainFrom, chainFrom]
      split
      · rename_i found
        rw [legacy.getNextBlock_migrateSchema (known found), ih legacy.known_getNextBlock]
      · rfl

theorem chainOf_migrateSchema (rounds : Nat) :
    chainOf env (migrateSchema env false ldb).2 rounds = chainOf env ldb rounds := by
  rw [chainOf, chainOf, getFirstBlockId_migrateSchema legacy.unmigrated,
    legacy.writes.getBlock_migrated]
  apply legacy.chainFrom_migrateSchema
  intro found
  exact (legacy.known_getBlock found).1

/-- A migrated link joins blocks that are stored under their hashes. -/
theorem hashed_of_migrated {parentId childId : Int} (link : Link env ldb parentId childId)
    (migrated : (migrateSchema env false ldb).2.get (.next (getBlock env ldb parentId).hash) =
      (getBlock env ldb childId).hash) : Hashed env ldb parentId ∧ Hashed env ldb childId := by
  have parent := legacy.known_getBlock link.numbers.1
  have child := legacy.known_getBlock link.numbers.2
  cases legacy.next_cases (getBlock env ldb parentId).hash with
  | inl empty =>
      rw [empty] at migrated
      exact absurd migrated.symm child.1.named
  | inr written =>
      obtain ⟨otherId, otherChild, otherLink, parentHashed, childHashed, same, -⟩ := written
      have numbers : otherId = parentId := by
        rw [← legacy.parent_number otherLink, ← legacy.eq_of_parentHash parent.1 parentHashed same,
          parent.2]
      have stored := otherLink.stored
      rw [numbers, link.stored] at stored
      rw [Option.some.inj stored, ← numbers]
      exact ⟨parentHashed, childHashed⟩

end Legacy

/-- The migration preserves the chain and its ends, and it turns every link between
connecting blocks into a link by hash exactly where all those blocks can be found
under their canonical hashes. -/
theorem migrateSchema_preserves (legacy : Legacy env ldb) :
    Preserved env ldb (migrateSchema env false ldb).2 ↔
      ∀ parentId childId, Link env ldb parentId childId →
        Hashed env ldb parentId ∧ Hashed env ldb childId := by
  constructor
  · intro preserved parentId childId link
    exact legacy.hashed_of_migrated link (preserved.links parentId childId link)
  · intro hashed
    constructor
    case first => exact getFirstBlockId_migrateSchema legacy.unmigrated
    case latest => exact getLatestBlockId_migrateSchema legacy.unmigrated
    case chain => exact legacy.chainOf_migrateSchema
    case links =>
      intro parentId childId link
      have stored := hashed parentId childId link
      exact next_migrateSchema (schemaVersion_ne legacy.unmigrated) legacy.entries_agree
        (legacy.entry_of_link link stored.1 stored.2)
    case again =>
      intro schemaMigrated
      exact migrateSchema_again env schemaMigrated ldb

/-! ### Databases that were written by blocks -/

/-- What an old version writes for its blocks and the links between them. -/
def IsLegacyEntry (env : Env) (blocks : List Block) (entry : StoreKey × Text) : Prop :=
  match entry.1 with
  | .block hash => ∃ block ∈ blocks, hash = block.hash ∧ entry.2 = blockJSON env block
  | .canonical number => ∃ block ∈ blocks, number = block.number ∧ entry.2 = block.hash
  | .legacyBlock number => ∃ block ∈ blocks, number = block.number ∧ entry.2 = blockJSON env block
  | .nextBlock number => IsLong number
  | .firstBlockId | .latestBlockId => True
  | _ => False

section Written

variable {blocks : List Block} {entries : List (StoreKey × Text)}
variable (trips : ∀ block ∈ blocks, RoundTrips env block)
variable (written : ∀ entry ∈ entries, IsLegacyEntry env blocks entry)
include written

theorem getElem?_legacyEntries (key : StoreKey) : ((∅ : LevelDb).putAll entries)[key.text]? = none ∨
    ∃ value, IsLegacyEntry env blocks (key, value) ∧
      ((∅ : LevelDb).putAll entries)[key.text]? = some value := by
  cases @LevelDb.getElem?_putAll_cases ∅ key entries with
  | inl kept =>
      left
      rw [kept]
      exact Std.ExtTreeMap.getElem?_empty
  | inr placed =>
      obtain ⟨value, member, found⟩ := placed
      exact .inr ⟨value, written _ member, found⟩

theorem get_legacyEntries (key : StoreKey) : ((∅ : LevelDb).putAll entries).get key = [] ∨
    IsLegacyEntry env blocks (key, ((∅ : LevelDb).putAll entries).get key) := by
  rw [LevelDb.get_eq_getD]
  cases getElem?_legacyEntries written key with
  | inl absent =>
      left
      rw [absent]
      rfl
  | inr placed =>
      obtain ⟨value, own, found⟩ := placed
      right
      rw [found]
      exact own

theorem key_of_legacyText {text : Text} (member : text ∈ (∅ : LevelDb).putAll entries) :
    ∃ key value, IsLegacyEntry env blocks (key, value) ∧ key.text = text := by
  have writes : Writes (fun key => ∃ value, IsLegacyEntry env blocks (key, value)) ∅
      ((∅ : LevelDb).putAll entries) :=
    ⟨entries, rfl, fun entry listed => ⟨entry.2, written entry listed⟩⟩
  cases writes.mem member with
  | inl old => exact absurd old Std.ExtTreeMap.not_mem_empty
  | inr new =>
      obtain ⟨key, ⟨value, own⟩, same⟩ := new
      exact ⟨key, value, own, same⟩

include trips

/-- Only a written block is read back from its hash. -/
theorem rawBlockByHash_legacyEntries (hash : Text)
    (found : 0 < (rawBlockByHash env ((∅ : LevelDb).putAll entries) hash).number) :
    rawBlockByHash env ((∅ : LevelDb).putAll entries) hash ∈ blocks ∧
      hash = (rawBlockByHash env ((∅ : LevelDb).putAll entries) hash).hash := by
  unfold rawBlockByHash at found ⊢
  cases get_legacyEntries written (.block hash) with
  | inl empty =>
      rw [empty] at found
      exact absurd found missing_number
  | inr own =>
      obtain ⟨block, listed, same, content⟩ := own
      dsimp only at content
      rw [content, (trips block listed).read]
      exact ⟨listed, same⟩

/-- A database of blocks whose hashes tell them apart is a legacy one. -/
theorem legacy_of_entries
    (apart : ∀ left ∈ blocks, ∀ right ∈ blocks, left.hash = right.hash → left = right) :
    Legacy env ((∅ : LevelDb).putAll entries) := by
  have byHash := rawBlockByHash_legacyEntries trips written
  constructor
  case unmigrated =>
    intro name
    cases get_legacyEntries written (.chainMeta name) with
    | inl empty => exact empty
    | inr own => exact own.elim
  case unlinked =>
    intro hash
    cases get_legacyEntries written (.next hash) with
    | inl empty => exact empty
    | inr own => exact own.elim
  case byHash =>
    intro hash found
    exact (byHash hash found).2.symm
  case canonical =>
    intro number found
    have raw := byHash _ found
    cases get_legacyEntries written (.canonical number) with
    | inl empty =>
        rw [empty] at raw
        exact absurd raw.2.symm ((trips _ raw.1).facts.2.1)
    | inr own =>
        obtain ⟨block, listed, same, content⟩ := own
        dsimp only at content
        have hashes : block.hash = (rawBlockByHash env ((∅ : LevelDb).putAll entries)
            (((∅ : LevelDb).putAll entries).get (.canonical number))).hash := by
          rw [← content]
          exact raw.2
        rw [← apart block listed _ raw.1 hashes, same]
  case byNumber =>
    intro number found
    cases get_legacyEntries written (.legacyBlock number) with
    | inl empty =>
        rw [empty] at found
        exact absurd found missing_number
    | inr own =>
        obtain ⟨block, listed, same, content⟩ := own
        dsimp only at content
        rw [content, (trips block listed).read, same]
  case identified =>
    intro text json stored isBlock block read found
    have raw := byHash _ found
    obtain ⟨key, _, own, same⟩ := key_of_legacyText written
      (Std.ExtTreeMap.isSome_getElem?_iff_mem.mp (Option.isSome_of_mem stored))
    have entry : ∃ other ∈ blocks, json = blockJSON env other := by
      cases getElem?_legacyEntries written key with
      | inl absent =>
          rw [same, stored] at absent
          cases absent
      | inr placed =>
          obtain ⟨value, content, found⟩ := placed
          rw [same, stored] at found
          rw [← same, isBlockEntry_text] at isBlock
          cases key with
          | block hash =>
              obtain ⟨other, listed, -, value⟩ := content
              exact ⟨other, listed, (Option.some.inj found).trans value⟩
          | legacyBlock number =>
              obtain ⟨other, listed, -, value⟩ := content
              exact ⟨other, listed, (Option.some.inj found).trans value⟩
          | _ => simp [StoreKey.family] at isBlock
    obtain ⟨other, listed, content⟩ := entry
    rw [content, trips other listed, List.mem_singleton] at read
    rw [read] at raw ⊢
    exact (apart _ listed _ raw.1 raw.2).symm
  case printed =>
    intro text member parentId parsed
    obtain ⟨key, value, own, same⟩ := key_of_legacyText written member
    have family := keyFamily_text key
    rw [same] at family
    have next : key.family = 4 := family.symm
    cases key with
    | nextBlock number =>
        rw [nextKey_text, List.append_cancel_left_eq] at same
        rw [← same, parseLongValue_ofLong own] at parsed
        rw [← same, Option.some.inj parsed]
    | _ => simp [StoreKey.family] at next

end Written

namespace Sample

/-- Two blocks under their numbers only. -/
def numberedEntries : List (StoreKey × Text) :=
  [(.firstBlockId, ofLong genesis.number), (.latestBlockId, ofLong emptyBlock.number),
    (.legacyBlock genesis.number, blockJSON Sample.env genesis),
    (.legacyBlock emptyBlock.number, blockJSON Sample.env emptyBlock),
    (.nextBlock genesis.number, ofLong emptyBlock.number)]

/-- The same blocks under their hashes too. -/
def hashedEntries : List (StoreKey × Text) :=
  numberedEntries ++ [(.block genesis.hash, blockJSON Sample.env genesis),
    (.block emptyBlock.hash, blockJSON Sample.env emptyBlock)]

def numberedChain : LevelDb :=
  LevelDb.putAll ∅ numberedEntries

def hashedChain : LevelDb :=
  LevelDb.putAll ∅ hashedEntries

theorem numberedEntries_legacy :
    ∀ entry ∈ numberedEntries, IsLegacyEntry Sample.env [genesis, emptyBlock] entry := by
  intro entry member
  simp only [numberedEntries, List.mem_cons, List.not_mem_nil, or_false] at member
  obtain rfl | rfl | rfl | rfl | rfl := member
  · trivial
  · trivial
  · exact ⟨genesis, List.mem_cons_self, rfl, rfl⟩
  · exact ⟨emptyBlock, List.mem_cons_of_mem _ List.mem_cons_self, rfl, rfl⟩
  · exact (by decide : IsLong genesis.number)

theorem hashedEntries_legacy :
    ∀ entry ∈ hashedEntries, IsLegacyEntry Sample.env [genesis, emptyBlock] entry := by
  intro entry member
  cases List.mem_append.mp member with
  | inl numbered => exact numberedEntries_legacy entry numbered
  | inr hashed =>
      simp only [List.mem_cons, List.not_mem_nil, or_false] at hashed
      obtain rfl | rfl := hashed
      · exact ⟨genesis, List.mem_cons_self, rfl, rfl⟩
      · exact ⟨emptyBlock, List.mem_cons_of_mem _ List.mem_cons_self, rfl, rfl⟩

theorem legacy_sample {entries : List (StoreKey × Text)}
    (written : ∀ entry ∈ entries, IsLegacyEntry Sample.env [genesis, emptyBlock] entry) :
    Legacy Sample.env (LevelDb.putAll ∅ entries) := by
  apply legacy_of_entries _ written
  · decide +kernel
  · intro block member
    simp only [List.mem_cons, List.not_mem_nil, or_false] at member
    obtain rfl | rfl := member
    · exact roundTrips (List.mem_iff_getElem?.mpr ⟨0, rfl⟩)
    · exact roundTrips (List.mem_iff_getElem?.mpr ⟨4, rfl⟩)

theorem hashedEntries_keys : (hashedEntries.map Prod.fst).Nodup := by
  decide +kernel

theorem get_hashedChain {key : StoreKey} {value : Text} (member : (key, value) ∈ hashedEntries) :
    hashedChain.get key = value := by
  apply LevelDb.get_putAll _ member
  intro left leftMember right rightMember same
  rw [List.inj_on_of_nodup_map hashedEntries_keys leftMember rightMember same]

/-- The numbered entries come first, so they read the same without the others. -/
theorem get_numberedChain {key : StoreKey} {value : Text}
    (member : (key, value) ∈ numberedEntries) : numberedChain.get key = value := by
  have keys : (numberedEntries.map Prod.fst).Nodup := by
    have all := hashedEntries_keys
    rw [hashedEntries, List.map_append] at all
    exact (List.nodup_append.mp all).1
  apply LevelDb.get_putAll _ member
  intro left leftMember right rightMember same
  rw [List.inj_on_of_nodup_map keys leftMember rightMember same]

theorem getBlock_numberedChain {block : Block} (trips : RoundTrips Sample.env block)
    (member : (.legacyBlock block.number, blockJSON Sample.env block) ∈ numberedEntries) :
    getBlock Sample.env numberedChain block.number = block := by
  have canonical : numberedChain.get (.canonical block.number) = [] := by
    rw [numberedChain, LevelDb.get_putAll_of_absent _, LevelDb.get_empty]
    intro entry listed same
    simp only [numberedEntries, List.mem_cons, List.not_mem_nil, or_false] at listed
    obtain rfl | rfl | rfl | rfl | rfl := listed <;> cases same
  have missing : getBlockByHash Sample.env numberedChain [] = .missing := by
    rw [getBlockByHash, if_pos List.length_nil]
  rw [getBlock, canonical, missing, if_neg missing_number, get_numberedChain member, trips.read]

/-- Nothing of the numbered blocks can be found under a hash. -/
theorem not_hashed_numberedChain (number : Int) : ¬ Hashed Sample.env numberedChain number := by
  have absent : numberedChain.get
      (.block (rawCanonicalHash Sample.env numberedChain number)) = [] := by
    rw [numberedChain, LevelDb.get_putAll_of_absent _, LevelDb.get_empty]
    intro entry listed same
    simp only [numberedEntries, List.mem_cons, List.not_mem_nil, or_false] at listed
    obtain rfl | rfl | rfl | rfl | rfl := listed <;> cases same
  rw [Hashed, rawBlockByHash, absent]
  exact missing_number

theorem link_numberedChain :
    Link Sample.env numberedChain genesis.number emptyBlock.number := by
  have genesisRead : getBlock Sample.env numberedChain genesis.number = genesis :=
    getBlock_numberedChain (roundTrips (List.mem_iff_getElem?.mpr ⟨0, rfl⟩))
      (List.mem_iff_getElem?.mpr ⟨2, rfl⟩)
  have childRead : getBlock Sample.env numberedChain emptyBlock.number = emptyBlock :=
    getBlock_numberedChain (roundTrips (List.mem_iff_getElem?.mpr ⟨4, rfl⟩))
      (List.mem_iff_getElem?.mpr ⟨3, rfl⟩)
  constructor
  · have stored : numberedChain.get (.nextBlock genesis.number) = ofLong emptyBlock.number :=
      get_numberedChain (List.mem_iff_getElem?.mpr ⟨4, rfl⟩)
    rw [LevelDb.getLong, stored, parseLongValue_ofLong (by decide)]
  · rw [genesisRead, childRead]
    decide +kernel

theorem numbered_link_not_migrated : Legacy Sample.env numberedChain ∧
    ¬ Preserved Sample.env numberedChain (migrateSchema Sample.env false numberedChain).2 := by
  have legacy : Legacy Sample.env numberedChain := legacy_sample numberedEntries_legacy
  refine ⟨legacy, ?_⟩
  intro preserved
  have migrated := preserved.links _ _ link_numberedChain
  exact not_hashed_numberedChain _ (legacy.hashed_of_migrated link_numberedChain migrated).1

theorem hashed_hashedChain {block : Block} (trips : RoundTrips Sample.env block)
    (numbered : (.legacyBlock block.number, blockJSON Sample.env block) ∈ hashedEntries)
    (hashed : (.block block.hash, blockJSON Sample.env block) ∈ hashedEntries) :
    Hashed Sample.env hashedChain block.number := by
  have canonical : hashedChain.get (.canonical block.number) = [] := by
    rw [hashedChain, LevelDb.get_putAll_of_absent _, LevelDb.get_empty]
    intro entry listed same
    simp only [hashedEntries, numberedEntries, List.cons_append, List.nil_append, List.mem_cons,
      List.not_mem_nil, or_false] at listed
    obtain rfl | rfl | rfl | rfl | rfl | rfl | rfl := listed <;> cases same
  have hash : rawCanonicalHash Sample.env hashedChain block.number = block.hash := by
    rw [rawCanonicalHash, canonical, if_neg (by decide), get_hashedChain numbered, trips.read]
  rw [Hashed, hash, rawBlockByHash, get_hashedChain hashed, trips.read]
  exact trips.facts.1

theorem hashedChain_preserved :
    Preserved Sample.env hashedChain (migrateSchema Sample.env false hashedChain).2 := by
  have legacy : Legacy Sample.env hashedChain := legacy_sample hashedEntries_legacy
  apply (migrateSchema_preserves legacy).mpr
  intro parentId childId link
  have linked : (.nextBlock parentId, hashedChain.get (.nextBlock parentId)) ∈ hashedEntries := by
    have present := mem_of_getLong link.stored
    rw [← Std.ExtTreeMap.isSome_getElem?_iff_mem, hashedChain] at present
    cases @LevelDb.getElem?_putAll_cases ∅ (.nextBlock parentId) hashedEntries with
    | inl kept =>
        rw [kept, Std.ExtTreeMap.getElem?_empty] at present
        cases present
    | inr placed =>
        obtain ⟨value, member, -⟩ := placed
        rwa [get_hashedChain member]
  simp only [hashedEntries, numberedEntries, List.cons_append, List.nil_append, List.mem_cons,
    Prod.mk.injEq, StoreKey.nextBlock.injEq, reduceCtorEq, false_and, List.not_mem_nil, or_false,
    false_or] at linked
  obtain ⟨parent, child⟩ := linked
  have stored := link.stored
  rw [LevelDb.getLong, child, parseLongValue_ofLong (by decide)] at stored
  rw [parent, ← Option.some.inj stored]
  constructor
  · exact hashed_hashedChain (roundTrips (List.mem_iff_getElem?.mpr ⟨0, rfl⟩))
      (List.mem_iff_getElem?.mpr ⟨2, rfl⟩) (List.mem_iff_getElem?.mpr ⟨5, rfl⟩)
  · exact hashed_hashedChain (roundTrips (List.mem_iff_getElem?.mpr ⟨4, rfl⟩))
      (List.mem_iff_getElem?.mpr ⟨3, rfl⟩) (List.mem_iff_getElem?.mpr ⟨6, rfl⟩)

end Sample

end Safire
