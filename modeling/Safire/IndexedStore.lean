/-
The redundant key families of the block database under the store operations.

Five families say where a block is: the blocks by hash, the canonical slots, the
slot keys, the hash links and the highest stored number. Each operation writes a
family only with what the others already say, so it keeps their agreement.
-/

import Safire.BlockContent
import Safire.CanonicalStore
import Safire.ChainRuns

namespace Safire

open Text ChainValidator

variable {env : Env} {db after : LevelDb} {block : Block}

/-! ### Values of the chain data -/

/-- No key of the chain data holds an empty value, so the readers that take an
empty value for a missing one see every key. -/
def Filled (db : LevelDb) : Prop :=
  ∀ key : StoreKey, key.isChainData = true → db[key.text]? ≠ some []

theorem Filled.get_eq (filled : Filled db) {key : StoreKey} (data : key.isChainData = true)
    {value : Text} (found : db[key.text]? = some value) : db.get key = value ∧ value ≠ [] := by
  constructor
  · rw [LevelDb.get_eq_getD, found, Option.getD_some]
  · intro empty
    rw [empty] at found
    exact filled key data found

theorem filled_empty : Filled ∅ := by
  intro key _
  simp

theorem Filled.put (filled : Filled db) {key : StoreKey} {value : Text} (present : value ≠ []) :
    Filled (db.put key value) := by
  intro other data
  rw [LevelDb.getElem?_put]
  split
  · simpa using present
  · exact filled other data

theorem Filled.of_writes (filled : Filled db) {kind : StoreKey → Prop}
    (writes : Writes kind db after) (other : ∀ key, kind key → key.isChainData = false) :
    Filled after := by
  intro key data
  have kept : ¬ kind key := by
    intro allowed
    rw [other key allowed] at data
    cases data
  rw [writes.getElem?_eq kept]
  exact filled key data

theorem Filled.putAll (filled : Filled db) {entries : List (StoreKey × Text)}
    (present : ∀ entry ∈ entries, entry.2 ≠ []) : Filled (db.putAll entries) := by
  intro key data
  have placed : (db.putAll entries)[key.text]? = db[key.text]? ∨ _ :=
    LevelDb.getElem?_putAll_cases entries
  cases placed with
  | inl kept =>
      rw [kept]
      exact filled key data
  | inr written =>
      obtain ⟨value, member, found⟩ := written
      rw [found]
      simpa using present _ member

theorem getElem?_eraseNextLinks {key : StoreKey}
    (kept : decide (key.family = 3 ∨ key.family = 4) = false) :
    (eraseNextLinks db)[key.text]? = db[key.text]? := by
  rw [← isNextEntry_text] at kept
  rw [eraseNextLinks, Std.ExtTreeMap.getElem?_filter', kept]
  cases db[key.text]? with
  | none => rfl
  | some value => rfl

theorem Filled.eraseNextLinks (filled : Filled db) : Filled (eraseNextLinks db) := by
  intro key data found
  rw [Safire.eraseNextLinks, Std.ExtTreeMap.getElem?_filter', Option.filter_eq_some_iff] at found
  exact filled key data found.1

theorem quiet_not_chainData {key : StoreKey} (written : key.IsTip ∨ key.IsQuiet) :
    key.isChainData = false := by
  rcases written with ((rfl | rfl) | rfl) | quiet
  · rfl
  · rfl
  · rfl
  · have side := quiet.side
    cases key <;> simp [StoreKey.IsSide, StoreKey.isChainData, StoreKey.family] at side ⊢

theorem Filled.writeStored (filled : Filled db) (trips : RoundTrips env block) :
    Filled (writeStored env db block) := by
  have entries : Filled ((db.put (.block block.hash) (blockJSON env block)).put
      (.slot block.number block.hash) block.hash) :=
    (filled.put (blockJSON_ne_nil env block)).put trips.facts.2.1
  apply entries.of_writes (highest_maybeUpdateHighestStoredBlock _ _)
  intro key highest
  rw [highest]
  rfl

theorem Filled.writeNextLinks (filled : Filled db) (trips : RoundTrips env block) :
    Filled (writeNextLinks env db block) := by
  have indexed : Filled (writeNextIndex env db block) := by
    unfold writeNextIndex
    dsimp only
    split
    · exact filled.put (ofLong_ne_nil block.number)
    · exact filled
  unfold Safire.writeNextLinks writeHashNextIndex
  dsimp only
  split
  · exact filled
  · split
    · split
      · exact indexed.put trips.facts.2.1
      · exact indexed
    · exact indexed

theorem Filled.writeBlock (filled : Filled db) (trips : RoundTrips env block) :
    Filled (writeBlock env db block) := by
  have stored : Filled (Safire.writeStored env db block) := filled.writeStored trips
  cases writeBlock_cases env db block with
  | inl refused =>
      rw [refused.2]
      exact stored.of_writes (quiet_countForkVariant _ block) fun _ quiet =>
        quiet_not_chainData (.inr quiet)
  | inr placed =>
      obtain ⟨-, counted, writes, same⟩ := placed
      rw [same]
      have canonical : Filled (writeCanonical env (Safire.writeStored env db block) block) :=
        (stored.put trips.facts.2.1).put (blockJSON_ne_nil env block)
      have linked := (canonical.of_writes writes fun _ quiet =>
        quiet_not_chainData (.inr quiet)).writeNextLinks trips
      exact linked.of_writes (tip_advanceLatest env _ block) fun _ => quiet_not_chainData

theorem Filled.writeChain (filled : Filled db) {chain : List Block}
    (held : ∀ block ∈ chain, block.hash ≠ []) : Filled (writeChain env db chain) := by
  rw [writeChain_eq]
  apply filled.putAll
  intro entry member
  cases mem_writtenEntries.mp member with
  | inl own =>
      obtain ⟨block, listed, entries⟩ := own
      simp only [blockEntries, List.mem_cons, List.not_mem_nil, or_false] at entries
      rcases entries with rfl | rfl | rfl
      · exact held block listed
      · exact blockJSON_ne_nil env block
      · exact blockJSON_ne_nil env block
  | inr link =>
      obtain ⟨before, parent, child, rest, place, entries⟩ := link
      simp only [linkEntries, List.mem_cons, List.not_mem_nil, or_false] at entries
      rcases entries with rfl | rfl
      · exact ofLong_ne_nil child.number
      · exact held child (by rw [place]; simp)

/-! ### The agreement of the families -/

def storedNumbers (env : Env) (db : LevelDb) : Set Int :=
  {number | ∃ block, Holds env db block ∧ block.number = number}

/-- The highest number is the largest one of a stored block, and missing where no
block is stored. -/
def HighestAgrees (env : Env) (db : LevelDb) : Prop :=
  match db.getLong highestKey with
  | some highest => IsGreatest (storedNumbers env db) highest
  | none => storedNumbers env db = ∅

/-- The hash links of a parent name a stored block that names it. -/
def LinkNames (env : Env) (db : LevelDb) (parentHash : Text) : Prop :=
  parentHash ≠ [] ∧ ∃ child, Holds env db child ∧ child.hash = db.get (.next parentHash) ∧
    child.previousBlockHash = parentHash

/-- What every operation keeps, whatever genesis blocks are stored. -/
structure Indexed (env : Env) (db : LevelDb) : Prop where
  sound : Sound env db
  filled : Filled db
  admitted : ∀ block, Holds env db block → ContentValid env block ∧ ParentStored env db block
  slots : ∀ number hash, (StoreKey.slot number hash).text ∈ db ↔
    ∃ block, Holds env db block ∧ block.hash = hash ∧ block.number = number
  links : ∀ parentHash, db.get (.next parentHash) ≠ [] → LinkNames env db parentHash
  highest : HighestAgrees env db

/-- The latest slot holds a block of its number. -/
def TipPlaced (env : Env) (db : LevelDb) : Prop :=
  0 < getLatestBlockId db →
    (getBlock env db (getLatestBlockId db)).number = getLatestBlockId db

theorem HighestAgrees.congr {db after : LevelDb} (agrees : HighestAgrees env db)
    (same : after.get highestKey = db.get highestKey)
    (numbers : storedNumbers env after = storedNumbers env db) : HighestAgrees env after := by
  rw [HighestAgrees, LevelDb.getLong, same, numbers]
  exact agrees

theorem storedNumbers_congr (same : ∀ block, Holds env after block ↔ Holds env db block) :
    storedNumbers env after = storedNumbers env db := by
  simp only [storedNumbers, same]

/-- The parent of a stored block that has one is stored, and the block connects to it. -/
theorem ParentStored.connects (parent : ParentStored env db block) (sound : Sound env db)
    (later : 0 < block.previousBlockId) :
    Holds env db (getBlockByHash env db block.previousBlockHash) ∧
      childConnectsToParent block (getBlockByHash env db block.previousBlockHash) = true := by
  cases parent with
  | inl genesis => exact absurd genesis (not_le.mpr later)
  | inr found =>
      obtain ⟨parent, accepted⟩ := found
      obtain ⟨-, lookup, positive, ids, above⟩ := storageParent_ok_iff.mp accepted
      have held := sound.holds_getBlockByHash (by rwa [lookup])
      rw [lookup] at held ⊢
      refine ⟨held.1, childConnectsToParent_iff.mpr ?_⟩
      exact ⟨positive, ids.symm, by omega, held.1.trips.facts.2.1, held.2.symm⟩

theorem indexed_empty (env : Env) : Indexed env ∅ := by
  have nothing := not_holds_empty env
  refine ⟨sound_empty env, filled_empty, ?_, ?_, ?_, ?_⟩
  · exact fun block holds => absurd holds (nothing block)
  · intro number hash
    constructor
    · exact fun member => absurd member Std.ExtTreeMap.not_mem_empty
    · rintro ⟨block, holds, -⟩
      exact absurd holds (nothing block)
  · exact fun parentHash present => absurd (LevelDb.get_empty _) present
  · have missing : (∅ : LevelDb).getLong highestKey = none := by
      rw [LevelDb.getLong, LevelDb.get_empty]
      rfl
    rw [HighestAgrees, missing]
    exact Set.eq_empty_of_forall_notMem fun number listed =>
      listed.elim fun block held => nothing block held.1

/-! ### Rewriting the chain -/

/-- An operation that stores no block keeps the agreement with the links that it writes. -/
theorem Indexed.of_rewritten (indexed : Indexed env db) (rewritten : Rewritten env db after)
    (filled : Filled after)
    (slots : ∀ number hash, (StoreKey.slot number hash).text ∈ after ↔
      (StoreKey.slot number hash).text ∈ db)
    (highest : after.get highestKey = db.get highestKey)
    (links : ∀ parentHash, after.get (.next parentHash) ≠ [] → LinkNames env after parentHash) :
    Indexed env after where
  sound := rewritten.sound
  filled := filled
  admitted := by
    intro block holds
    obtain ⟨content, parent⟩ := indexed.admitted block ((holds_of_rewritten rewritten).mp holds)
    exact ⟨content, parent.mono fun hash _ => getBlockByHash_congr (rewritten.contents hash)⟩
  slots := by
    intro number hash
    simp only [slots, indexed.slots, holds_of_rewritten rewritten]
  links := links
  highest := indexed.highest.congr highest
    (storedNumbers_congr fun _ => holds_of_rewritten rewritten)

theorem LinkNames.of_rewritten {parentHash : Text} (names : LinkNames env db parentHash)
    (rewritten : Rewritten env db after)
    (same : after.get (.next parentHash) = db.get (.next parentHash)) :
    LinkNames env after parentHash := by
  obtain ⟨named, child, holds, link, hashes⟩ := names
  exact ⟨named, child, rewritten.holds holds, link.trans same.symm, hashes⟩

/-- Writes that touch no family keep the agreement. -/
theorem Indexed.tip_writes (indexed : Indexed env db)
    (writes : Writes (fun key => key.IsTip ∨ key.IsQuiet) db after) : Indexed env after := by
  have ends : Writes (fun key => key.IsLatest ∨ key.IsSide) db after :=
    writes.mono fun _ => tip_or_quiet
  have kept : ∀ key : StoreKey, key.isChainData = true → ¬ (key.IsTip ∨ key.IsQuiet) := by
    intro key data written
    rw [quiet_not_chainData written] at data
    cases data
  have rewritten := ends.rewritten_ends indexed.sound
  apply indexed.of_rewritten rewritten
  · exact indexed.filled.of_writes writes fun _ => quiet_not_chainData
  · exact fun number hash => writes.mem_iff (kept _ rfl)
  · apply writes.get_eq
    rintro (tip | quiet)
    · simp [StoreKey.IsTip, StoreKey.IsLatest] at tip
    · exact quiet.2.1 rfl
  · intro parentHash present
    have same := writes.get_eq (kept (.next parentHash) rfl)
    rw [same] at present
    exact (indexed.links parentHash present).of_rewritten rewritten same

theorem get_next_eraseNextLinks (db : LevelDb) (parentHash : Text) :
    (eraseNextLinks db).get (.next parentHash) = [] := by
  have erased : isNextEntry (StoreKey.next parentHash).text = true := by
    rw [isNextEntry_text]
    rfl
  rw [LevelDb.get_eq_getD, eraseNextLinks, Std.ExtTreeMap.getElem?_filter', erased]
  cases db[(StoreKey.next parentHash).text]? with
  | none => rfl
  | some value => rfl

theorem Indexed.eraseNextLinks (indexed : Indexed env db) : Indexed env (eraseNextLinks db) := by
  apply indexed.of_rewritten (rewritten_eraseNextLinks indexed.sound)
  · exact indexed.filled.eraseNextLinks
  · intro number hash
    rw [Std.ExtTreeMap.mem_iff_isSome_getElem?, Std.ExtTreeMap.mem_iff_isSome_getElem?,
      getElem?_eraseNextLinks rfl]
  · exact get_eraseNextLinks rfl
  · exact fun parentHash present => absurd (get_next_eraseNextLinks db parentHash) present

/-- The hash links after writing a chain are the ones of the chain and old ones. -/
theorem get_next_writeChain (env : Env) (db : LevelDb) (chain : List Block) (parentHash : Text) :
    (writeChain env db chain).get (.next parentHash) = db.get (.next parentHash) ∨
      ∃ before parent child after, chain = before ++ parent :: child :: after ∧
        parent.hash = parentHash ∧
        (writeChain env db chain).get (.next parentHash) = child.hash := by
  rw [writeChain_eq, LevelDb.get_eq_getD, LevelDb.get_eq_getD]
  have placed : (db.putAll (writtenEntries env chain))[(StoreKey.next parentHash).text]? =
      db[(StoreKey.next parentHash).text]? ∨ _ := LevelDb.getElem?_putAll_cases (writtenEntries env chain)
  cases placed with
  | inl kept =>
      rw [kept]
      exact .inl rfl
  | inr written =>
      obtain ⟨value, member, found⟩ := written
      rw [found]
      rcases mem_writtenEntries.mp member with ⟨block, -, own⟩ | ⟨before, parent, child, rest, place, link⟩
      · simp [blockEntries] at own
      · simp only [linkEntries, List.mem_cons, List.not_mem_nil, or_false, Prod.mk.injEq,
          StoreKey.next.injEq, reduceCtorEq, false_and, false_or] at link
        exact .inr ⟨before, parent, child, rest, place, link.1.symm, link.2⟩

/-- Neighbours on the list are child and parent by hash. -/
def HashLinked (chain : List Block) : Prop :=
  chain.IsChain fun parent child => child.previousBlockHash = parent.hash

theorem HashLinked.at {chain before after : List Block} {parent child : Block}
    (linked : HashLinked chain) (place : chain = before ++ parent :: child :: after) :
    child.previousBlockHash = parent.hash := by
  exact List.isChain_iff_forall_rel_of_append_cons_cons.mp linked place

theorem Indexed.writeChain (indexed : Indexed env db) {chain : List Block}
    (held : ∀ block ∈ chain, Holds env db block) (linked : HashLinked chain) :
    Indexed env (writeChain env db chain) := by
  have rewritten := (rewritten_writeChain chain indexed.sound held).1
  have writes := writes_writeChain env db chain
  apply indexed.of_rewritten rewritten
  · exact indexed.filled.writeChain fun block member => (held block member).trips.facts.2.1
  · exact fun number hash => writes.mem_iff (by simp [StoreKey.family])
  · exact writes.get_eq (by simp [StoreKey.family])
  · intro parentHash present
    cases get_next_writeChain env db chain parentHash with
    | inl kept =>
        rw [kept] at present
        exact (indexed.links parentHash present).of_rewritten rewritten kept
    | inr written =>
        obtain ⟨before, parent, child, rest, place, named, link⟩ := written
        have members : parent ∈ chain ∧ child ∈ chain := by
          rw [place]
          simp
        have parentHashed := (held parent members.1).trips.facts.2.1
        refine ⟨named ▸ parentHashed, child, rewritten.holds (held child members.2), link.symm, ?_⟩
        rw [linked.at place, named]

/-! ### Adding a block -/

theorem get_next_writeNextLinks (env : Env) (db : LevelDb) (block : Block) (parentHash : Text) :
    (writeNextLinks env db block).get (.next parentHash) = db.get (.next parentHash) ∨
      parentHash ≠ [] ∧ block.previousBlockHash = parentHash ∧
        (writeNextLinks env db block).get (.next parentHash) = block.hash := by
  have indexed : (writeNextIndex env db block).get (.next parentHash) = db.get (.next parentHash) :=
    (writes_writeNextIndex env db block).get_eq (by simp)
  unfold writeNextLinks writeHashNextIndex
  dsimp only
  split
  · exact .inl rfl
  · split
    · rename_i named
      split
      · by_cases same : block.previousBlockHash = parentHash
        · rw [same, LevelDb.get_put_self]
          exact .inr ⟨List.length_pos_iff.mp (same ▸ named), rfl, rfl⟩
        · rw [LevelDb.get_put_of_ne (by simpa using same)]
          exact .inl indexed
      · exact .inl indexed
    · exact .inl indexed

theorem get_next_writeStored (env : Env) (db : LevelDb) (block : Block) (parentHash : Text) :
    (writeStored env db block).get (.next parentHash) = db.get (.next parentHash) := by
  rw [writeStored, (highest_maybeUpdateHighestStoredBlock _ _).get_eq (by simp),
    LevelDb.get_put_of_ne (by simp), LevelDb.get_put_of_ne (by simp)]

theorem get_next_advanceLatest (env : Env) (db : LevelDb) (block : Block) (parentHash : Text) :
    (advanceLatest env db block).get (.next parentHash) = db.get (.next parentHash) := by
  apply (tip_advanceLatest env db block).get_eq
  rintro (tip | quiet)
  · simp [StoreKey.IsTip, StoreKey.IsLatest] at tip
  · exact quiet.side

/-- An added block links its parent to itself or leaves the links alone. -/
theorem get_next_writeBlock (env : Env) (db : LevelDb) (block : Block) (parentHash : Text) :
    (writeBlock env db block).get (.next parentHash) = db.get (.next parentHash) ∨
      parentHash ≠ [] ∧ block.previousBlockHash = parentHash ∧
        (writeBlock env db block).get (.next parentHash) = block.hash := by
  have stored := get_next_writeStored env db block parentHash
  have quietKept : ¬ (StoreKey.next parentHash).IsQuiet := fun quiet => quiet.side
  cases writeBlock_cases env db block with
  | inl refused =>
      rw [refused.2, (quiet_countForkVariant _ block).get_eq quietKept]
      exact .inl stored
  | inr placed =>
      obtain ⟨-, counted, writes, same⟩ := placed
      have canonical : counted.get (.next parentHash) = db.get (.next parentHash) := by
        rw [writes.get_eq quietKept, (writes_writeCanonical env _ block).get_eq (by simp), stored]
      rw [same, get_next_advanceLatest, ← canonical]
      exact get_next_writeNextLinks env counted block parentHash

/-- A link to a stored child is never given to another child. -/
theorem Holds.keeps_link {parent child : Block} (childHolds : Holds env db child)
    (parentHolds : Holds env db parent) (connects : childConnectsToParent child parent = true)
    (link : db.get (.next parent.hash) = child.hash) :
    (writeNextLinks env db block).get (.next parent.hash) = child.hash := by
  have writes := writes_writeNextIndex env db block
  have aside : Writes StoreKey.IsAside db (writeNextIndex env db block) :=
    writes.mono fun _ written => .inr (.inl (written ▸ rfl))
  have indexed : (writeNextIndex env db block).get (.next parent.hash) = child.hash := by
    rw [writes.get_eq (by simp), link]
  have kept : (writeHashNextIndex env (writeNextIndex env db block) block).get
      (.next parent.hash) = child.hash := by
    unfold writeHashNextIndex
    dsimp only
    by_cases same : block.previousBlockHash = parent.hash
    · rw [same, indexed, (aside.holds_aside childHolds).getBlockByHash_eq,
        (aside.holds_aside parentHolds).getBlockByHash_eq, connects]
      split
      · rename_i relinks
        rw [LevelDb.get_put_self]
        rcases relinks with empty | own | broken
        · exact absurd (List.length_eq_zero_iff.mp empty) childHolds.trips.facts.2.1
        · exact own.symm
        · cases broken
      · exact indexed
    · split
      · rw [LevelDb.get_put_of_ne (by simpa using same)]
        exact indexed
      · exact indexed
  unfold writeNextLinks
  dsimp only
  split
  · exact link
  · split
    · exact kept
    · exact indexed

theorem keeps_link_writeBlock {parent child : Block} (sound : Sound env db)
    (trips : RoundTrips env block) (fresh : db.get (.block block.hash) = [])
    (childHolds : Holds env db child) (parentHolds : Holds env db parent)
    (connects : childConnectsToParent child parent = true)
    (link : db.get (.next parent.hash) = child.hash) :
    (writeBlock env db block).get (.next parent.hash) = child.hash := by
  have quietKept : ¬ (StoreKey.next parent.hash).IsQuiet := fun quiet => quiet.side
  have stored : (writeStored env db block).get (.next parent.hash) = child.hash := by
    rw [get_next_writeStored, link]
  obtain ⟨-, contents, -⟩ := writeStored_facts sound trips fresh
  cases writeBlock_cases env db block with
  | inl refused =>
      rw [refused.2, (quiet_countForkVariant _ block).get_eq quietKept]
      exact stored
  | inr placed =>
      obtain ⟨-, counted, writes, same⟩ := placed
      have held : ∀ {other : Block}, Holds env db other → Holds env counted other := by
        intro other holds
        have different : other.hash ≠ block.hash := by
          intro same
          rw [← same, holds.stored] at fresh
          exact blockJSON_ne_nil env other fresh
        have contentKept : ¬ (StoreKey.block other.hash).IsQuiet := fun quiet => quiet.side
        apply holds.congr
        rw [writes.get_eq contentKept,
          (writes_writeCanonical env _ block).get_eq (by simp), contents, if_neg different]
      have canonical : counted.get (.next parent.hash) = child.hash := by
        rw [writes.get_eq quietKept, (writes_writeCanonical env _ block).get_eq (by simp), stored]
      rw [same, get_next_advanceLatest]
      exact (held childHolds).keeps_link (held parentHolds) connects canonical

/-- A block that takes its slot leaves its parent with a link. -/
theorem linked_writeBlock (takes : TakesSlot env (writeStored env db block) block)
    (hashed : block.hash ≠ []) (later : ¬ block.previousBlockId ≤ -1)
    (named : block.previousBlockHash ≠ []) :
    (writeBlock env db block).get (.next block.previousBlockHash) ≠ [] := by
  cases writeBlock_cases env db block with
  | inl refused => exact absurd takes refused.1
  | inr placed =>
      obtain ⟨-, counted, -, same⟩ := placed
      rw [same, get_next_advanceLatest]
      unfold writeNextLinks writeHashNextIndex
      dsimp only
      rw [if_neg later, if_pos (List.length_pos_iff.mpr named)]
      split
      · rw [LevelDb.get_put_self]
        exact hashed
      · rename_i kept
        rw [not_or, List.length_eq_zero_iff] at kept
        exact kept.1

/-- The slot keys after adding a block are the old ones and its own. -/
theorem mem_slot_writeBlock (env : Env) (db : LevelDb) (block : Block) (number : Int) (hash : Text) :
    (StoreKey.slot number hash).text ∈ writeBlock env db block ↔
      number = block.number ∧ hash = block.hash ∨ (StoreKey.slot number hash).text ∈ db := by
  have placing : ¬ (StoreKey.slot number hash).IsPlacing block := by
    rintro (same | same | (same | same) | ((same | same) | same) | quiet)
    case inr.inr.inr.inr => exact quiet.side
    all_goals cases same
  have highest := highest_maybeUpdateHighestStoredBlock ((db.put (.block block.hash)
    (blockJSON env block)).put (.slot block.number block.hash) block.hash) block.number
  rw [(placing_writeBlock env db block).mem_iff placing, writeStored, highest.mem_iff (by simp),
    Std.ExtTreeMap.mem_iff_isSome_getElem?, LevelDb.getElem?_put]
  by_cases same : number = block.number ∧ hash = block.hash
  · simp [same]
  · have different : StoreKey.slot block.number block.hash ≠ .slot number hash := by
      intro again
      injection again with numbers hashes
      exact same ⟨numbers.symm, hashes.symm⟩
    rw [if_neg different, LevelDb.getElem?_put, if_neg (by simp), or_iff_right same,
      ← Std.ExtTreeMap.mem_iff_isSome_getElem?]

/-- The highest number after adding a block is the larger of the old one and its own. -/
theorem getLong_highest_writeBlock (trips : RoundTrips env block) :
    (writeBlock env db block).getLong highestKey =
      some (match db.getLong highestKey with
        | some highest => max highest block.number
        | none => block.number) := by
  have placing : ¬ highestKey.IsPlacing block := fun written => written.notHighest rfl
  have entries : ((db.put (.block block.hash) (blockJSON env block)).put
      (.slot block.number block.hash) block.hash).getLong highestKey = db.getLong highestKey := by
    rw [LevelDb.getLong, LevelDb.getLong, LevelDb.get_put_of_ne (by simp),
      LevelDb.get_put_of_ne (by simp)]
  have own : ∀ db : LevelDb, (db.putLong highestKey block.number).getLong highestKey =
      some block.number := fun db => LevelDb.getLong_putLong_self trips.facts.2.2
  rw [LevelDb.getLong, (placing_writeBlock env db block).get_eq placing, ← LevelDb.getLong,
    writeStored, maybeUpdateHighestStoredBlock, if_neg (not_le.mpr trips.facts.1), entries]
  cases found : db.getLong highestKey with
  | none => exact own _
  | some highest =>
      dsimp only
      split
      · rename_i above
        rw [own, max_eq_right above.le]
      · rename_i below
        rw [entries, found, max_eq_left (not_lt.mp below)]

theorem HighestAgrees.writeBlock (agrees : HighestAgrees env db) (sound : Sound env db)
    (trips : RoundTrips env block) (fresh : db.get (.block block.hash) = [])
    (below : block.previousBlockId < block.number ∨ block.previousBlockId = -1) :
    HighestAgrees env (writeBlock env db block) := by
  have numbers : storedNumbers env (Safire.writeBlock env db block) =
      insert block.number (storedNumbers env db) := by
    ext number
    constructor
    · rintro ⟨other, holds, same⟩
      cases (holds_writeBlock sound trips fresh below).mp holds with
      | inl new => exact .inl (by rw [← same, new])
      | inr old => exact .inr ⟨other, old, same⟩
    · rintro (same | ⟨other, old, same⟩)
      · exact ⟨block, (holds_writeBlock sound trips fresh below).mpr (.inl rfl), same.symm⟩
      · exact ⟨other, (holds_writeBlock sound trips fresh below).mpr (.inr old), same⟩
  rw [HighestAgrees] at agrees ⊢
  rw [getLong_highest_writeBlock trips, numbers]
  cases found : db.getLong highestKey with
  | none =>
      rw [found] at agrees
      dsimp only at agrees ⊢
      rw [agrees]
      simp
  | some highest =>
      rw [found] at agrees
      dsimp only at agrees ⊢
      rw [max_comm]
      exact agrees.insert block.number

theorem Indexed.writeBlock (indexed : Indexed env db) (trips : RoundTrips env block)
    (fresh : db.get (.block block.hash) = []) (content : ContentValid env block)
    (parent : ParentStored env db block) : Indexed env (writeBlock env db block) := by
  have below := checkAddedBlock_below content.added
  have held : ∀ other, Holds env (Safire.writeBlock env db block) other ↔
      other = block ∨ Holds env db other :=
    fun other => holds_writeBlock indexed.sound trips fresh below
  have kept : ∀ hash, 0 < (getBlockByHash env db hash).number →
      getBlockByHash env (Safire.writeBlock env db block) hash = getBlockByHash env db hash := by
    intro hash found
    obtain ⟨holds, named⟩ := indexed.sound.holds_getBlockByHash found
    have again := ((held _).mpr (.inr holds)).getBlockByHash_eq
    rwa [named] at again
  refine ⟨(written_writeBlock indexed.sound trips fresh below).sound,
    indexed.filled.writeBlock trips, ?_, ?_, ?_, ?_⟩
  · intro other holds
    cases (held other).mp holds with
    | inl new =>
        rw [new]
        exact ⟨content, parent.mono kept⟩
    | inr old =>
        obtain ⟨otherContent, otherParent⟩ := indexed.admitted other old
        exact ⟨otherContent, otherParent.mono kept⟩
  · intro number hash
    rw [mem_slot_writeBlock, indexed.slots]
    constructor
    · rintro (⟨numbers, hashes⟩ | ⟨other, holds, named⟩)
      · exact ⟨block, (held block).mpr (.inl rfl), hashes.symm, numbers.symm⟩
      · exact ⟨other, (held other).mpr (.inr holds), named⟩
    · rintro ⟨other, holds, named, numbered⟩
      cases (held other).mp holds with
      | inl new => exact .inl ⟨by rw [← numbered, new], by rw [← named, new]⟩
      | inr old => exact .inr ⟨other, old, named, numbered⟩
  · intro parentHash present
    cases get_next_writeBlock env db block parentHash with
    | inl same =>
        rw [same] at present
        obtain ⟨named, child, holds, link, hashes⟩ := indexed.links parentHash present
        exact ⟨named, child, (held child).mpr (.inr holds), link.trans same.symm, hashes⟩
    | inr own =>
        obtain ⟨named, hashes, link⟩ := own
        exact ⟨named, block, (held block).mpr (.inl rfl), link.symm, hashes⟩
  · exact indexed.highest.writeBlock indexed.sound trips fresh below

/-! ### Rebuilding and adopting -/

/-- The highest number is never scanned again. -/
theorem Indexed.highestStoredBlock_eq (indexed : Indexed env db) :
    (highestStoredBlock env db).2 = db := by
  have agrees := indexed.highest
  rw [HighestAgrees] at agrees
  unfold highestStoredBlock
  cases found : db.getLong highestKey with
  | some highest => rfl
  | none =>
      rw [found] at agrees
      have nothing : getStoredBlocks env db = [] := by
        rw [List.eq_nil_iff_forall_not_mem]
        intro block member
        have listed : block.number ∈ storedNumbers env db :=
          ⟨block, indexed.sound.mem_getStoredBlocks.mp member, rfl⟩
        rw [agrees] at listed
        exact listed
      dsimp only
      rw [scanHighestStoredBlock, nothing]
      rfl

theorem Indexed.quiet_fastPath (indexed : Indexed env db) :
    Writes StoreKey.IsQuiet db (tryValidatedCheckpointFastPath env db).2 := by
  cases Safire.quiet_fastPath env db with
  | inl same =>
      rw [same]
      exact .refl db
  | inr writes => rwa [indexed.highestStoredBlock_eq] at writes

theorem hashLinked_of_accepts {chain : List Block} (accepted : Accepts env chain) :
    HashLinked chain := by
  rw [HashLinked, List.isChain_iff_forall_rel_of_append_cons_cons]
  intro parent child before after place
  exact (link_of_accepts accepted place).2.2

theorem hashLinked_of_connects {chain : List Block}
    (connects : chain.IsChain fun parent child => childConnectsToParent child parent = true) :
    HashLinked chain :=
  connects.imp fun _ _ connected => (childConnectsToParent_iff.mp connected).2.2.2.2

/-- The collected branch is linked from its first block to its last. -/
theorem collectBranch_linked {firstBlockId : Int} (rounds : Nat) :
    ∀ {visited : TextSet} {collected branch : List Block} {current : Block},
      ((current :: collected).IsChain fun parent child =>
        childConnectsToParent child parent = true) →
      collectBranch env db firstBlockId rounds visited collected current = some branch →
      branch.IsChain fun parent child => childConnectsToParent child parent = true := by
  induction rounds with
  | zero =>
      intro visited collected branch current linked found
      cases found
      exact linked.tail
  | succ rounds ih =>
      intro visited collected branch current linked found
      rcases collectBranch_cases found with ⟨-, rfl⟩ | ⟨-, ⟨-, -, rfl⟩ | ⟨-, connects, later⟩⟩
      · exact linked.tail
      · exact linked
      · exact ih (linked.cons_cons connects) later

theorem Indexed.rebuildFully {previousTip : Block} (indexed : Indexed env db) (now : Int) :
    Indexed env (rebuildFully env now previousTip db).2 := by
  unfold Safire.rebuildFully
  dsimp only
  cases tip : (bestValidChain env db).getLast? with
  | none => exact indexed
  | some newTip =>
      have present : bestValidChain env db ≠ [] := by
        intro empty
        rw [empty] at tip
        cases tip
      have erased := rewritten_eraseNextLinks indexed.sound
      have written := indexed.eraseNextLinks.writeChain
        (fun block member => erased.holds (indexed.sound.bestValidChain_holds block member))
        (hashLinked_of_accepts (bestValidChain_accepts present))
      exact written.tip_writes (tip_finishChain _ _ _ _ _)

theorem Indexed.rebuildBestChainIndex (indexed : Indexed env db) (now : Int) :
    Indexed env (rebuildBestChainIndex env now db).2 := by
  have fast := indexed.tip_writes (indexed.quiet_fastPath.mono fun _ => .inr)
  unfold Safire.rebuildBestChainIndex
  split
  · exact indexed
  · generalize tryValidatedCheckpointFastPath env db = attempt at fast ⊢
    obtain ⟨verdict, attempted⟩ := attempt
    cases verdict with
    | some tip => exact fast
    | none => exact fast.rebuildFully now

theorem Indexed.adoptStoredChainEndingAtHash (indexed : Indexed env db) (now : Int)
    (tipHash : Text) : Indexed env (adoptStoredChainEndingAtHash env now db tipHash).2 := by
  rcases adopt_cases indexed.sound now tipHash with
    refused | ⟨tip, branch, adoptable, ⟨-, kept⟩ | ⟨-, moved⟩⟩
  · rw [refused]
    exact indexed
  · rw [kept]
    exact indexed
  · rw [moved]
    have linked := collectBranch_linked _ (List.isChain_singleton tip) adoptable.collected
    have written := indexed.writeChain (adoptable.adoptedPart_facts indexed.sound).2
      (hashLinked_of_connects (linked.drop _))
    exact written.tip_writes (tip_finishChain _ _ _ _ _)

/-! ### The latest slot -/

theorem TipPlaced.side (placed : TipPlaced env db) (writes : Writes StoreKey.IsSide db after) :
    TipPlaced env after := by
  intro positive
  rw [writes.getLatestBlockId_side] at positive ⊢
  rw [writes.getBlock_side]
  exact placed positive

theorem TipPlaced.of_finishChain {middle : LevelDb} {newTip : Block} (trips : RoundTrips env newTip)
    (slot : getBlock env middle newTip.number = newTip) (now : Int) (reason : String)
    (previousTip : Block) :
    TipPlaced env (finishChain env middle now reason previousTip newTip) := by
  intro _
  rw [getLatestBlockId_finishChain trips.facts.2.2, (writes_finishChain _ _ _ _ _).getBlock_ends,
    slot]

theorem TipPlaced.writeBlock (placed : TipPlaced env db) (sound : Sound env db)
    (trips : RoundTrips env block) (fresh : db.get (.block block.hash) = [])
    (below : block.previousBlockId < block.number ∨ block.previousBlockId = -1) :
    TipPlaced env (writeBlock env db block) := by
  have written := written_writeBlock sound trips fresh below
  intro positive
  by_cases moves : TakesSlot env db block ∧ ExtendsTip env db block
  · rw [written.extended moves.1 moves.2, written.taken moves.1]
  · have latest : getLatestBlockId (Safire.writeBlock env db block) = getLatestBlockId db :=
      written.latest moves
    rw [latest] at positive ⊢
    by_cases slot : block.number = getLatestBlockId db ∧ TakesSlot env db block
    · rw [← slot.1, written.taken slot.2]
    · rw [written.kept, placed positive]
      rw [not_and_or] at slot
      exact slot.imp_left Ne.symm

theorem TipPlaced.rebuildBestChainIndex (placed : TipPlaced env db) (sound : Sound env db)
    (now : Int) : TipPlaced env (rebuildBestChainIndex env now db).2 := by
  have fast := writes_fastPath env db
  have attempted := placed.side fast
  have attemptedSound := (fast.aside.rewritten_aside sound).sound
  unfold Safire.rebuildBestChainIndex
  split
  · exact placed
  · generalize tryValidatedCheckpointFastPath env db = attempt at attempted attemptedSound ⊢
    obtain ⟨verdict, middle⟩ := attempt
    cases verdict with
    | some tip => exact attempted
    | none =>
        dsimp only [rebuildFully]
        cases tip : (bestValidChain env middle).getLast? with
        | none => exact attempted
        | some newTip =>
            have held := attemptedSound.bestValidChain_holds newTip (List.mem_of_getLast? tip)
            exact .of_finishChain held.trips ((rewritten_bestValidChain attemptedSound).2 _ tip) _ _ _

theorem TipPlaced.adoptStoredChainEndingAtHash (placed : TipPlaced env db) (sound : Sound env db)
    (now : Int) (tipHash : Text) :
    TipPlaced env (adoptStoredChainEndingAtHash env now db tipHash).2 := by
  rcases adopt_cases sound now tipHash with
    refused | ⟨tip, branch, adoptable, ⟨-, kept⟩ | ⟨-, moved⟩⟩
  · rw [refused]
    exact placed
  · rw [kept]
    exact placed
  · rw [moved]
    obtain ⟨last, held⟩ := adoptable.adoptedPart_facts sound
    exact .of_finishChain adoptable.holds.trips ((rewritten_writeChain _ sound held).2 tip last) _ _ _

end Safire
