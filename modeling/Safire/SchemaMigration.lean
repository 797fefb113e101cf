/-
`CBlockDB::migrateSchema`.

A legacy database numbers its blocks. The migration copies the chain ends into the
metadata and every link between two blocks that it can find under their hashes
into a link by hash. It runs when the database is opened; the database handle is
always open here.
-/

import Safire.ConnectedTip
import Safire.StoreReads

namespace Safire

open Text

variable {env : Env} {ldb : LevelDb}

/-! ### The migration -/

def currentSchemaVersion : Int := 2

def schemaVersionKey : StoreKey :=
  .chainMeta "schema_version"

def rawBlockByHash (env : Env) (ldb : LevelDb) (hash : Text) : Block :=
  parseSingleBlockJson env (ldb.get (.block hash))

def legacyNextPrefix : Text :=
  "next_block_".toList

def legacyNextKeys (ldb : LevelDb) : List Text :=
  ldb.keys.filter (fun key => startsWith key legacyNextPrefix)

/-- The entry that the migration writes for a legacy link. -/
def linkEntry (env : Env) (ldb : LevelDb) (key : Text) : Option (StoreKey × Text) :=
  match parseLongValue (key.drop legacyNextPrefix.length), parseLongValue (ldb.getD key []) with
  | some parentId, some childId =>
      let parent := rawBlockByHash env ldb (rawCanonicalHash env ldb parentId)
      let child := rawBlockByHash env ldb (rawCanonicalHash env ldb childId)
      if 0 < parent.hash.length ∧ childConnectsToParent child parent = true then
        some (.next parent.hash, child.hash)
      else none
  | _, _ => none

def migrateLink (env : Env) (ldb : LevelDb) (key : Text) : LevelDb :=
  match linkEntry env ldb key with
  | none => ldb
  | some (next, childHash) => ldb.put next childHash

/-- The value of the new key, which is copied from the legacy key where it has none. -/
def migrateLong (ldb : LevelDb) (key legacyKey : StoreKey) : Int × LevelDb :=
  match ldb.getLong key with
  | some value => (value, ldb)
  | none =>
      match ldb.getLong legacyKey with
      | some value => (value, ldb.putLong key value)
      | none => (-1, ldb)

def migrateLatestHash (env : Env) (ldb : LevelDb) (latestBlockId : Int) : LevelDb :=
  if 0 < latestBlockId ∧ (ldb.get latestHashKey).length = 0 then
    let latestHash := rawCanonicalHash env ldb latestBlockId
    if 0 < latestHash.length then ldb.put latestHashKey latestHash else ldb
  else ldb

/-- The copies of the chain ends. -/
def migrateEnds (env : Env) (ldb : LevelDb) : LevelDb :=
  let (_, first) := migrateLong ldb (.chainMeta "first_block") .firstBlockId
  let (latestBlockId, latest) := migrateLong first (.chainMeta "latest_block") .latestBlockId
  migrateLatestHash env latest latestBlockId

def migrateLinks (env : Env) (ldb : LevelDb) : LevelDb :=
  (legacyNextKeys ldb).foldl (migrateLink env) ldb

/-- The flag of the process and the database after the call. -/
def migrateSchema (env : Env) (schemaMigrated : Bool) (ldb : LevelDb) : Bool × LevelDb :=
  if schemaMigrated = true then (true, ldb)
  else if ldb.get schemaVersionKey = ofLong currentSchemaVersion then (true, ldb)
  else (true, (migrateLinks env (migrateEnds env ldb)).putLong schemaVersionKey currentSchemaVersion)

/-- A migrated database is left alone. -/
theorem migrateSchema_again (env : Env) (schemaMigrated : Bool) (ldb : LevelDb) :
    (migrateSchema env schemaMigrated (migrateSchema env false ldb).2).2 =
      (migrateSchema env false ldb).2 := by
  have version : ((migrateSchema env false ldb).2).get schemaVersionKey =
      ofLong currentSchemaVersion := by
    rw [migrateSchema, if_neg (by decide)]
    split
    · assumption
    · exact LevelDb.get_put_self
  cases schemaMigrated with
  | true => rfl
  | false => rw [migrateSchema.eq_def env false (migrateSchema env false ldb).2, if_neg (by decide),
      if_pos version]

/-! ### What the migration writes -/

def StoreKey.IsMeta (key : StoreKey) : Prop :=
  ∃ name, key = .chainMeta name

def StoreKey.IsNext (key : StoreKey) : Prop :=
  ∃ hash, key = .next hash

theorem meta_migrateLong (ldb : LevelDb) (name : String) (legacyKey : StoreKey) :
    Writes StoreKey.IsMeta ldb (migrateLong ldb (.chainMeta name) legacyKey).2 := by
  unfold migrateLong
  split
  · exact Writes.refl _
  · split
    · exact (Writes.refl _).put ⟨name, rfl⟩
    · exact Writes.refl _

theorem meta_migrateLatestHash (ldb : LevelDb) (latestBlockId : Int) :
    Writes StoreKey.IsMeta ldb (migrateLatestHash env ldb latestBlockId) := by
  unfold migrateLatestHash
  split
  · dsimp only
    split
    · exact (Writes.refl _).put ⟨"latest_hash", rfl⟩
    · exact Writes.refl _
  · exact Writes.refl _

theorem meta_migrateEnds (ldb : LevelDb) : Writes StoreKey.IsMeta ldb (migrateEnds env ldb) := by
  unfold migrateEnds
  dsimp only
  exact ((meta_migrateLong ldb _ _).trans (meta_migrateLong _ _ _)).trans
    (meta_migrateLatestHash _ _)

section Frame

variable {after : LevelDb}

/-- Metadata and links by hash: what no lookup of a block reads. -/
def StoreKey.IsMigrated (key : StoreKey) : Prop :=
  key.IsMeta ∨ key.IsNext

variable (writes : Writes StoreKey.IsMigrated ldb after)
include writes

theorem Writes.getElem?_migrated {text : Text} (family : keyFamily text ≠ 6 ∧ keyFamily text ≠ 3) :
    after[text]? = ldb[text]? := by
  apply writes.getElem?_of_text
  intro key written same
  rw [← same, keyFamily_text] at family
  cases written with
  | inl metadata =>
      obtain ⟨name, rfl⟩ := metadata
      exact family.1 rfl
  | inr next =>
      obtain ⟨hash, rfl⟩ := next
      exact family.2 rfl

theorem Writes.get_migrated {key : StoreKey} (family : key.family ≠ 6 ∧ key.family ≠ 3) :
    after.get key = ldb.get key := by
  rw [LevelDb.get_eq_getD, LevelDb.get_eq_getD,
    writes.getElem?_migrated (by rwa [keyFamily_text])]

theorem Writes.get_block_migrated (hash : Text) : after.get (.block hash) = ldb.get (.block hash) :=
  writes.get_migrated (by exact (by decide : 0 ≠ 6 ∧ 0 ≠ 3))

theorem Writes.get_canonical_migrated (number : Int) :
    after.get (.canonical number) = ldb.get (.canonical number) :=
  writes.get_migrated (by exact (by decide : 1 ≠ 6 ∧ 1 ≠ 3))

theorem Writes.get_legacyBlock_migrated (number : Int) :
    after.get (.legacyBlock number) = ldb.get (.legacyBlock number) :=
  writes.get_migrated (by exact (by decide : 2 ≠ 6 ∧ 2 ≠ 3))

theorem Writes.getLong_nextBlock_migrated (number : Int) :
    after.getLong (.nextBlock number) = ldb.getLong (.nextBlock number) := by
  have same : after.get (.nextBlock number) = ldb.get (.nextBlock number) :=
    writes.get_migrated (by exact (by decide : 4 ≠ 6 ∧ 4 ≠ 3))
  rw [LevelDb.getLong, LevelDb.getLong, same]

theorem Writes.rawBlockByHash_migrated (hash : Text) :
    rawBlockByHash env after hash = rawBlockByHash env ldb hash := by
  rw [rawBlockByHash, rawBlockByHash, writes.get_block_migrated]

theorem Writes.getBlockByHash_migrated (hash : Text) :
    getBlockByHash env after hash = getBlockByHash env ldb hash :=
  getBlockByHash_congr (writes.get_block_migrated hash)

theorem Writes.getBlock_migrated (number : Int) :
    getBlock env after number = getBlock env ldb number :=
  getBlock_congr (writes.get_canonical_migrated number) (writes.get_legacyBlock_migrated number)
    writes.get_block_migrated

theorem Writes.getStoredBlocks_migrated : getStoredBlocks env after = getStoredBlocks env ldb := by
  apply writes.getStoredBlocks_eq
  intro key written
  rw [isBlockEntry_text, decide_eq_false_iff_not]
  obtain ⟨name, rfl⟩ | ⟨hash, rfl⟩ := written
  · exact (by decide : ¬ (6 = 0 ∨ 6 = 2))
  · exact (by decide : ¬ (3 = 0 ∨ 3 = 2))

theorem Writes.rawCanonicalHash_migrated (number : Int) :
    rawCanonicalHash env after number = rawCanonicalHash env ldb number := by
  rw [rawCanonicalHash, rawCanonicalHash, writes.get_canonical_migrated,
    writes.get_legacyBlock_migrated]

/-- A legacy link is migrated in the same way after every such write. -/
theorem Writes.linkEntry_migrated {key : Text} (front : legacyNextPrefix <+: key) :
    linkEntry env after key = linkEntry env ldb key := by
  obtain ⟨rest, rfl⟩ := front
  have value : after.getD (legacyNextPrefix ++ rest) [] = ldb.getD (legacyNextPrefix ++ rest) [] := by
    rw [Std.ExtTreeMap.getD_eq_getD_getElem?, Std.ExtTreeMap.getD_eq_getD_getElem?,
      writes.getElem?_migrated (by exact (by decide : 4 ≠ 6 ∧ 4 ≠ 3))]
  simp only [linkEntry, value, writes.rawBlockByHash_migrated, writes.rawCanonicalHash_migrated]

end Frame

theorem next_of_linkEntry {key : Text} {entry : StoreKey × Text}
    (written : linkEntry env ldb key = some entry) : entry.1.IsNext := by
  unfold linkEntry at written
  split at written
  · dsimp only at written
    split at written
    · rw [← Option.some.inj written]
      exact ⟨_, rfl⟩
    · cases written
  · cases written

/-- The links are the puts of their entries, all read before the first put. -/
theorem foldl_migrateLink {keys : List Text} (front : ∀ key ∈ keys, legacyNextPrefix <+: key) :
    keys.foldl (migrateLink env) ldb = ldb.putAll (keys.filterMap (linkEntry env ldb)) := by
  induction keys using List.reverseRecOn with
  | nil => rfl
  | append_singleton earlier last ih =>
      have earlierFront := ih fun key member => front key (List.mem_append_left _ member)
      have writes : Writes StoreKey.IsMigrated ldb
          (ldb.putAll (earlier.filterMap (linkEntry env ldb))) := by
        refine ⟨_, rfl, ?_⟩
        intro entry member
        obtain ⟨key, -, written⟩ := List.mem_filterMap.mp member
        exact .inr (next_of_linkEntry written)
      have same : linkEntry env (ldb.putAll (earlier.filterMap (linkEntry env ldb))) last =
          linkEntry env ldb last :=
        writes.linkEntry_migrated (front last (List.mem_append_right _ List.mem_cons_self))
      rw [List.foldl_append, earlierFront, List.foldl_cons, List.foldl_nil, migrateLink, same,
        List.filterMap_append, LevelDb.putAll_append]
      cases written : linkEntry env ldb last with
      | none => rw [List.filterMap_cons_none written, List.filterMap_nil]; rfl
      | some entry => rw [List.filterMap_cons_some written, List.filterMap_nil]; rfl

theorem mem_legacyNextKeys {key : Text} :
    key ∈ legacyNextKeys ldb ↔ key ∈ ldb ∧ legacyNextPrefix <+: key := by
  rw [legacyNextKeys, List.mem_filter, Std.ExtTreeMap.mem_keys, startsWith, List.isPrefixOf_iff_prefix]

/-- The entries that the links of a database become. -/
def legacyLinkEntries (env : Env) (ldb : LevelDb) : List (StoreKey × Text) :=
  (legacyNextKeys ldb).filterMap (linkEntry env ldb)

theorem mem_legacyLinkEntries {entry : StoreKey × Text} : entry ∈ legacyLinkEntries env ldb ↔
    ∃ key, key ∈ ldb ∧ legacyNextPrefix <+: key ∧ linkEntry env ldb key = some entry := by
  rw [legacyLinkEntries, List.mem_filterMap]
  constructor
  · intro found
    obtain ⟨key, listed, written⟩ := found
    exact ⟨key, (mem_legacyNextKeys.mp listed).1, (mem_legacyNextKeys.mp listed).2, written⟩
  · intro found
    obtain ⟨key, present, front, written⟩ := found
    exact ⟨key, mem_legacyNextKeys.mpr ⟨present, front⟩, written⟩

theorem migrateLinks_eq (env : Env) (ldb : LevelDb) :
    migrateLinks env ldb = ldb.putAll (legacyLinkEntries env ldb) :=
  foldl_migrateLink fun _ member => (mem_legacyNextKeys.mp member).2

/-- The copies of the chain ends change no link. -/
theorem mem_legacyLinkEntries_migrateEnds {entry : StoreKey × Text} :
    entry ∈ legacyLinkEntries env (migrateEnds env ldb) ↔ entry ∈ legacyLinkEntries env ldb := by
  have writes : Writes StoreKey.IsMigrated ldb (migrateEnds env ldb) :=
    (meta_migrateEnds ldb).mono fun _ => .inl
  have known : ∀ key, legacyNextPrefix <+: key → (key ∈ migrateEnds env ldb ↔ key ∈ ldb) := by
    intro key front
    obtain ⟨rest, rfl⟩ := front
    rw [← Std.ExtTreeMap.isSome_getElem?_iff_mem, ← Std.ExtTreeMap.isSome_getElem?_iff_mem,
      writes.getElem?_migrated (by exact (by decide : 4 ≠ 6 ∧ 4 ≠ 3))]
  rw [mem_legacyLinkEntries, mem_legacyLinkEntries]
  constructor
  · intro found
    obtain ⟨key, present, front, written⟩ := found
    rw [writes.linkEntry_migrated front] at written
    exact ⟨key, (known key front).mp present, front, written⟩
  · intro found
    obtain ⟨key, present, front, written⟩ := found
    rw [← writes.linkEntry_migrated front] at written
    exact ⟨key, (known key front).mpr present, front, written⟩

section Migrated

variable (unmigrated : ldb.get schemaVersionKey ≠ ofLong currentSchemaVersion)
include unmigrated

theorem migrateSchema_eq : (migrateSchema env false ldb).2 =
    ((migrateEnds env ldb).putAll (legacyLinkEntries env (migrateEnds env ldb))).putLong schemaVersionKey
      currentSchemaVersion := by
  rw [migrateSchema, if_neg (by decide), if_neg unmigrated, migrateLinks_eq]

theorem writes_migrateSchema :
    Writes StoreKey.IsMigrated ldb (migrateSchema env false ldb).2 := by
  rw [migrateSchema_eq unmigrated]
  have ends : Writes StoreKey.IsMigrated ldb (migrateEnds env ldb) :=
    (meta_migrateEnds ldb).mono fun _ => .inl
  have links : Writes StoreKey.IsMigrated (migrateEnds env ldb)
      ((migrateEnds env ldb).putAll (legacyLinkEntries env (migrateEnds env ldb))) := by
    refine ⟨_, rfl, ?_⟩
    intro entry member
    obtain ⟨key, -, -, written⟩ := mem_legacyLinkEntries.mp member
    exact .inr (next_of_linkEntry written)
  exact (ends.trans links).put (.inl ⟨_, rfl⟩)

/-- A link by hash is the old one or the entry of a legacy link. -/
theorem next_migrateSchema_cases (hash : Text) :
    (migrateSchema env false ldb).2.get (.next hash) = ldb.get (.next hash) ∨
      (.next hash, (migrateSchema env false ldb).2.get (.next hash)) ∈ legacyLinkEntries env ldb := by
  have version : schemaVersionKey ≠ .next hash := by
    intro same
    cases same
  have ends : (migrateEnds env ldb)[(StoreKey.next hash).text]? = ldb[(StoreKey.next hash).text]? :=
    (meta_migrateEnds ldb).getElem?_eq (by
      intro metadata
      obtain ⟨name, same⟩ := metadata
      cases same)
  rw [migrateSchema_eq unmigrated, LevelDb.get_putLong_of_ne version]
  have placed : ((migrateEnds env ldb).putAll (legacyLinkEntries env (migrateEnds env ldb)))[
      (StoreKey.next hash).text]? = _ ∨ _ := LevelDb.getElem?_putAll_cases _
  cases placed with
  | inl kept => exact .inl (by rw [LevelDb.get_eq_getD, LevelDb.get_eq_getD, kept, ends])
  | inr written =>
      obtain ⟨value, member, found⟩ := written
      right
      rw [LevelDb.get_eq_getD, found, Option.getD_some]
      exact mem_legacyLinkEntries_migrateEnds.mp member

/-- Entries that agree on their keys can be read back. -/
theorem next_migrateSchema {hash childHash : Text}
    (agree : ∀ left ∈ legacyLinkEntries env ldb, ∀ right ∈ legacyLinkEntries env ldb, left.1 = right.1 →
      left.2 = right.2)
    (member : (.next hash, childHash) ∈ legacyLinkEntries env ldb) :
    (migrateSchema env false ldb).2.get (.next hash) = childHash := by
  have version : schemaVersionKey ≠ .next hash := by
    intro same
    cases same
  rw [migrateSchema_eq unmigrated, LevelDb.get_putLong_of_ne version]
  apply LevelDb.get_putAll
  · intro left leftMember right rightMember
    exact agree left (mem_legacyLinkEntries_migrateEnds.mp leftMember) right
      (mem_legacyLinkEntries_migrateEnds.mp rightMember)
  · exact mem_legacyLinkEntries_migrateEnds.mpr member

end Migrated

/-! ### The chain ends -/

section Ends

variable {key legacyKey : StoreKey}

theorem writes_migrateLong (ldb : LevelDb) (key legacyKey : StoreKey) :
    Writes (fun written => written = key) ldb (migrateLong ldb key legacyKey).2 := by
  unfold migrateLong
  split
  · exact Writes.refl _
  · split
    · exact (Writes.refl _).put rfl
    · exact Writes.refl _

/-- A new key that was empty reads as the legacy key does. -/
theorem read_migrateLong (fresh : ldb.get key = []) (legacyKey : StoreKey) :
    let stored := (migrateLong ldb key legacyKey).2.get key
    parseLongValue (if stored.length = 0 then ldb.get legacyKey else stored) =
      ldb.getLong legacyKey := by
  have unset : ldb.getLong key = none := by
    rw [LevelDb.getLong, fresh]
    rfl
  unfold migrateLong
  rw [unset]
  dsimp only
  cases legacy : ldb.getLong legacyKey with
  | none =>
      dsimp only
      rw [fresh, if_pos List.length_nil, ← legacy, LevelDb.getLong]
  | some value =>
      have range : IsLong value := isLong_parseLongValue legacy
      have present : ¬ (ofLong value).length = 0 := by
        rw [List.length_eq_zero_iff]
        exact ofLong_ne_nil value
      have stored : (ldb.putLong key value).get key = ofLong value := LevelDb.get_put_self
      dsimp only
      rw [stored, if_neg present, parseLongValue_ofLong range]

end Ends

/-- What follows the copy of the latest number writes neither end. -/
def StoreKey.IsLate (key : StoreKey) : Prop :=
  key = latestHashKey ∨ key.IsNext ∨ key = schemaVersionKey

theorem late_migrateLatestHash (ldb : LevelDb) (latestBlockId : Int) :
    Writes StoreKey.IsLate ldb (migrateLatestHash env ldb latestBlockId) := by
  unfold migrateLatestHash
  split
  · dsimp only
    split
    · exact (Writes.refl _).put (.inl rfl)
    · exact Writes.refl _
  · exact Writes.refl _

theorem not_late {name : String} (other : name ≠ "latest_hash" ∧ name ≠ "schema_version") :
    ¬ (StoreKey.chainMeta name).IsLate := by
  intro late
  obtain same | ⟨hash, same⟩ | same := late
  · exact other.1 (StoreKey.chainMeta.inj same)
  · cases same
  · exact other.2 (StoreKey.chainMeta.inj same)

section LegacyEnds

variable (unmigrated : ∀ name, ldb.get (.chainMeta name) = [])
include unmigrated

theorem schemaVersion_ne : ldb.get schemaVersionKey ≠ ofLong currentSchemaVersion := by
  rw [schemaVersionKey, unmigrated]
  decide

theorem late_migrateSchema :
    Writes StoreKey.IsLate
      (migrateLong (migrateLong ldb (.chainMeta "first_block") .firstBlockId).2
        (.chainMeta "latest_block") .latestBlockId).2
      (migrateSchema env false ldb).2 := by
  rw [migrateSchema_eq (schemaVersion_ne unmigrated)]
  have hashed : Writes StoreKey.IsLate
      (migrateLong (migrateLong ldb (.chainMeta "first_block") .firstBlockId).2
        (.chainMeta "latest_block") .latestBlockId).2 (migrateEnds env ldb) :=
    late_migrateLatestHash _ _
  have links : Writes StoreKey.IsLate (migrateEnds env ldb)
      ((migrateEnds env ldb).putAll (legacyLinkEntries env (migrateEnds env ldb))) := by
    refine ⟨_, rfl, ?_⟩
    intro entry member
    obtain ⟨key, -, -, written⟩ := mem_legacyLinkEntries.mp member
    exact .inr (.inl (next_of_linkEntry written))
  exact (hashed.trans links).put (.inr (.inr rfl))

theorem getFirstBlockId_migrateSchema :
    getFirstBlockId (migrateSchema env false ldb).2 = getFirstBlockId ldb := by
  have writes : Writes StoreKey.IsMigrated ldb (migrateSchema env false ldb).2 :=
    writes_migrateSchema (schemaVersion_ne unmigrated)
  have latest := writes_migrateLong (migrateLong ldb (.chainMeta "first_block") .firstBlockId).2
    (.chainMeta "latest_block") .latestBlockId
  have kept : (migrateSchema env false ldb).2.get (.chainMeta "first_block") =
      (migrateLong ldb (.chainMeta "first_block") .firstBlockId).2.get (.chainMeta "first_block") := by
    rw [(late_migrateSchema unmigrated).get_eq (not_late (by decide)),
      latest.get_eq (by decide)]
  have legacy : (migrateSchema env false ldb).2.get .firstBlockId = ldb.get .firstBlockId :=
    writes.get_migrated (by decide)
  have read := read_migrateLong (unmigrated "first_block") .firstBlockId
  unfold getFirstBlockId
  dsimp only at read ⊢
  rw [kept, legacy, read, unmigrated, if_pos List.length_nil, LevelDb.getLong]

theorem getLatestBlockId_migrateSchema :
    getLatestBlockId (migrateSchema env false ldb).2 = getLatestBlockId ldb := by
  have writes : Writes StoreKey.IsMigrated ldb (migrateSchema env false ldb).2 :=
    writes_migrateSchema (schemaVersion_ne unmigrated)
  have first := writes_migrateLong ldb (.chainMeta "first_block") .firstBlockId
  have fresh : (migrateLong ldb (.chainMeta "first_block") .firstBlockId).2.get
      (.chainMeta "latest_block") = [] := by
    rw [first.get_eq (by decide), unmigrated]
  have kept : (migrateSchema env false ldb).2.get (.chainMeta "latest_block") =
      (migrateLong (migrateLong ldb (.chainMeta "first_block") .firstBlockId).2
        (.chainMeta "latest_block") .latestBlockId).2.get (.chainMeta "latest_block") :=
    (late_migrateSchema unmigrated).get_eq (not_late (by decide))
  have legacy : (migrateSchema env false ldb).2.get .latestBlockId = ldb.get .latestBlockId :=
    writes.get_migrated (by decide)
  have legacyFirst : (migrateLong ldb (.chainMeta "first_block") .firstBlockId).2.get
      .latestBlockId = ldb.get .latestBlockId := first.get_eq (by decide)
  have read := read_migrateLong fresh .latestBlockId
  unfold getLatestBlockId
  dsimp only at read ⊢
  rw [kept, legacy, ← legacyFirst, read, LevelDb.getLong, legacyFirst, unmigrated,
    if_pos List.length_nil]

end LegacyEnds

end Safire
