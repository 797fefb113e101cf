/-
The fork counters against a recount of the slots.

`AddBlock` counts one block at a time, from a scan where no count is stored, and
`getForkVariantCount` writes a recount over it. The slot keys are those of the
stored blocks, so a block that finds its slot taken adds one to the recount and
raises its latest slot exactly as it raises the counters.
-/

import Safire.Library.Repeats
import Safire.Library.Runs
import Safire.RebuildTwice

namespace Safire

open Text Repeats

variable {env : Env} {db after : LevelDb} {block : Block}

/-! ### The recount -/

structure ForkVariantStats where
  count : Int
  latestBlock : Int

/-- One round of the loop over the counted slots. -/
def addVariants (numbers : List Int) (stats : ForkVariantStats) (number : Int) :
    ForkVariantStats :=
  if 1 < numbers.count number then
    { count := stats.count + ((numbers.count number : Int) - 1)
      latestBlock := if stats.latestBlock < number then number else stats.latestBlock }
  else stats

/-- The order of the map does not matter to a sum and a maximum. -/
def scanForkVariantStats (db : LevelDb) : ForkVariantStats :=
  (slotNumbers db).dedup.foldl (addVariants (slotNumbers db)) ⟨0, -1⟩

/-- The recount, with the database after it is written. -/
def getForkVariantCount (db : LevelDb) : Int × LevelDb :=
  let stats := scanForkVariantStats db
  let counted := db.putLong .forkVariantCount stats.count
  (stats.count,
    if 0 < stats.latestBlock then counted.putLong .forkVariantLatestBlock stats.latestBlock
    else counted)

theorem foldl_addVariants (numbers listed : List Int) (stats : ForkVariantStats)
    (known : ∀ number ∈ listed, number ∈ numbers) :
    listed.foldl (addVariants numbers) stats =
      { count := stats.count + (listed.map fun number => (numbers.count number : Int) - 1).sum
        latestBlock := (listed.filter fun number => decide (1 < numbers.count number)).foldl max
          stats.latestBlock } := by
  induction listed generalizing stats with
  | nil => simp
  | cons number rest ih =>
      have member := known number List.mem_cons_self
      have later : ∀ number ∈ rest, number ∈ numbers :=
        fun number listed => known number (List.mem_cons_of_mem _ listed)
      rw [List.foldl_cons, ih _ later, addVariants, List.map_cons, List.sum_cons, List.filter_cons]
      by_cases twice : 1 < numbers.count number
      · rw [if_pos twice, decide_eq_true twice, if_pos rfl, List.foldl_cons, add_assoc]
        congr 2
        split
        · rename_i higher
          exact (max_eq_right higher.le).symm
        · rename_i reached
          exact (max_eq_left (not_lt.mp reached)).symm
      · have once : numbers.count number = 1 := by
          have present := List.count_pos_iff.mpr member
          omega
        rw [if_neg twice, decide_eq_false twice, if_neg Bool.false_ne_true, once]
        simp

theorem scanForkVariantStats_eq (db : LevelDb) :
    scanForkVariantStats db =
      ⟨surplus (slotNumbers db), highestRepeat (-1) (slotNumbers db)⟩ := by
  rw [scanForkVariantStats, foldl_addVariants _ _ _ fun number => List.mem_dedup.mp, zero_add]
  rfl

/-- `AddBlock` reads the same count. -/
theorem scanForkVariantCount_eq (db : LevelDb) :
    scanForkVariantCount db = (scanForkVariantStats db).count := by
  rw [scanForkVariantStats_eq]
  rfl

theorem scanForkVariantStats_perm (same : (slotNumbers after).Perm (slotNumbers db)) :
    scanForkVariantStats after = scanForkVariantStats db := by
  rw [scanForkVariantStats_eq, scanForkVariantStats_eq, surplus_perm same,
    highestRepeat_perm (-1) same]

/-! ### Slot keys -/

theorem slotNumbers_eq (db : LevelDb) : slotNumbers db = db.keys.filterMap slotNumber := by
  rw [slotNumbers, ← Std.ExtTreeMap.map_fst_toList_eq_keys, List.filterMap_map]
  rfl

theorem perm_filterMap_slotNumber {left right : List Text} (single : left.Nodup)
    (singleRight : right.Nodup)
    (same : ∀ text, (slotNumber text).isSome = true → (text ∈ left ↔ text ∈ right)) :
    (left.filterMap slotNumber).Perm (right.filterMap slotNumber) := by
  have slots : ∀ texts : List Text, texts.filterMap slotNumber =
      (texts.filter fun text => (slotNumber text).isSome).filterMap slotNumber := by
    intro texts
    rw [List.filterMap_filter]
    apply List.filterMap_congr
    intro text _
    cases slotNumber text with
    | none => rfl
    | some number => rfl
  rw [slots left, slots right]
  apply List.Perm.filterMap
  apply (List.perm_ext_iff_of_nodup (single.filter _) (singleRight.filter _)).mpr
  intro text
  rw [List.mem_filter, List.mem_filter]
  constructor
  · intro member
    exact ⟨(same text member.2).mp member.1, member.2⟩
  · intro member
    exact ⟨(same text member.2).mpr member.1, member.2⟩

theorem slotNumbers_perm
    (same : ∀ text, (slotNumber text).isSome = true → (text ∈ after ↔ text ∈ db)) :
    (slotNumbers after).Perm (slotNumbers db) := by
  rw [slotNumbers_eq, slotNumbers_eq]
  apply perm_filterMap_slotNumber Std.ExtTreeMap.nodup_keys Std.ExtTreeMap.nodup_keys
  intro text slot
  rw [Std.ExtTreeMap.mem_keys, Std.ExtTreeMap.mem_keys]
  exact same text slot

/-- A new slot key adds its number. -/
theorem slotNumbers_perm_cons {own : Text} {number : Int} (read : slotNumber own = some number)
    (absent : own ∉ db)
    (members : ∀ text, (slotNumber text).isSome = true → (text ∈ after ↔ text = own ∨ text ∈ db)) :
    (slotNumbers after).Perm (number :: slotNumbers db) := by
  have front : number :: slotNumbers db = (own :: db.keys).filterMap slotNumber := by
    rw [List.filterMap_cons_some read, slotNumbers_eq]
  have single : (own :: db.keys).Nodup := by
    rw [List.nodup_cons, Std.ExtTreeMap.mem_keys]
    exact ⟨absent, Std.ExtTreeMap.nodup_keys⟩
  rw [front, slotNumbers_eq]
  apply perm_filterMap_slotNumber Std.ExtTreeMap.nodup_keys single
  intro text slot
  rw [List.mem_cons, Std.ExtTreeMap.mem_keys, Std.ExtTreeMap.mem_keys]
  exact members text slot

theorem startsWith_slot (key : StoreKey) :
    startsWith key.text "slot:".toList = decide (key.family = 5) := by
  cases key <;> rfl

theorem slot_of_slotNumber {key : StoreKey} (slot : (slotNumber key.text).isSome = true) :
    ∃ number hash, key = .slot number hash := by
  have family : key.family = 5 := by
    by_contra other
    rw [slotNumber, startsWith_slot, decide_eq_false other, if_pos rfl] at slot
    cases slot
  cases key with
  | slot number hash => exact ⟨number, hash, rfl⟩
  | _ => simp [StoreKey.family] at family

theorem Holds.slotNumber (holds : Holds env db block) :
    slotNumber (StoreKey.slot block.number block.hash).text = some block.number :=
  slotNumber_slot holds.trips.facts.2.2 block.hash

/-- The slot keys are those of the stored blocks. -/
theorem Indexed.slotText_mem (indexed : Indexed env db) {text : Text}
    (slot : (slotNumber text).isSome = true) :
    text ∈ db ↔ ∃ block, Holds env db block ∧ (StoreKey.slot block.number block.hash).text = text := by
  constructor
  · intro member
    obtain ⟨key, rfl⟩ := indexed.sound.keys text member
    obtain ⟨number, hash, rfl⟩ := slot_of_slotNumber slot
    obtain ⟨block, holds, rfl, rfl⟩ := (indexed.slots number hash).mp member
    exact ⟨block, holds, rfl⟩
  · intro stored
    obtain ⟨block, holds, rfl⟩ := stored
    exact (indexed.slots _ _).mpr ⟨block, holds, rfl, rfl⟩

theorem Indexed.mem_slotNumbers (indexed : Indexed env db) {number : Int} :
    number ∈ slotNumbers db ↔ ∃ block, Holds env db block ∧ block.number = number := by
  rw [slotNumbers_eq, List.mem_filterMap]
  constructor
  · intro found
    obtain ⟨text, listed, read⟩ := found
    have slot : (slotNumber text).isSome = true := Option.isSome_of_eq_some read
    obtain ⟨block, holds, rfl⟩ :=
      (indexed.slotText_mem slot).mp (Std.ExtTreeMap.mem_keys.mp listed)
    rw [holds.slotNumber] at read
    exact ⟨block, holds, Option.some.inj read⟩
  · intro stored
    obtain ⟨block, holds, rfl⟩ := stored
    refine ⟨_, Std.ExtTreeMap.mem_keys.mpr ?_, holds.slotNumber⟩
    exact (indexed.slots _ _).mpr ⟨block, holds, rfl, rfl⟩

/-- Two stored blocks of one slot make its number repeat. -/
theorem Indexed.duplicate (indexed : Indexed env db) {left right : Block}
    (holds : Holds env db left) (holdsRight : Holds env db right)
    (numbers : left.number = right.number) (different : left ≠ right) :
    List.Duplicate left.number (slotNumbers db) := by
  have texts : (StoreKey.slot left.number left.hash).text ≠
      (StoreKey.slot right.number right.hash).text := by
    intro same
    have keys := StoreKey.text_injective same
    injection keys with _ hashes
    exact different (holds.unique holdsRight hashes)
  have listed : ∀ {block}, Holds env db block →
      (StoreKey.slot block.number block.hash).text ∈ db.keys := fun stored =>
    Std.ExtTreeMap.mem_keys.mpr ((indexed.slots _ _).mpr ⟨_, stored, rfl, rfl⟩)
  have rest : (StoreKey.slot right.number right.hash).text ∈
      db.keys.erase (StoreKey.slot left.number left.hash).text :=
    (List.mem_erase_of_ne texts.symm).mpr (listed holdsRight)
  have front := (List.perm_cons_erase (listed holds)).filterMap slotNumber
  rw [List.filterMap_cons_some holds.slotNumber, ← slotNumbers_eq] at front
  rw [List.duplicate_iff_two_le_count, front.count_eq, ← List.duplicate_iff_two_le_count,
    List.duplicate_cons_iff]
  refine .inl ⟨rfl, List.mem_filterMap.mpr ⟨_, rest, ?_⟩⟩
  rw [holdsRight.slotNumber, numbers]

theorem ForksKept.stats_eq (kept : ForksKept env db after) (indexed : Indexed env db)
    (indexedAfter : Indexed env after) :
    scanForkVariantStats after = scanForkVariantStats db := by
  apply scanForkVariantStats_perm
  apply slotNumbers_perm
  intro text slot
  simp only [indexedAfter.slotText_mem slot, indexed.slotText_mem slot, kept.held]

theorem Indexed.slot_absent (indexed : Indexed env db) (fresh : db.get (.block block.hash) = []) :
    (StoreKey.slot block.number block.hash).text ∉ db := by
  rw [indexed.slots]
  intro stored
  obtain ⟨other, holds, hashes, -⟩ := stored
  rw [← hashes, holds.stored] at fresh
  exact blockJSON_ne_nil env other fresh

/-- The slots before the block is counted. -/
theorem slotNumbers_added (indexed : Indexed env db) (range : IsLong block.number)
    (fresh : db.get (.block block.hash) = [])
    (writes : Writes (StoreKey.IsOwn block) db after)
    (slot : (StoreKey.slot block.number block.hash).text ∈ after) :
    (slotNumbers after).Perm (block.number :: slotNumbers db) := by
  apply slotNumbers_perm_cons (slotNumber_slot range block.hash) (indexed.slot_absent fresh)
  intro text isSlot
  constructor
  · intro member
    cases writes.mem member with
    | inl old => exact .inr old
    | inr written =>
        obtain ⟨key, own, rfl⟩ := written
        obtain ⟨number, hash, rfl⟩ := slot_of_slotNumber isSlot
        cases own with
        | inl data => simp [StoreKey.isBlockData, StoreKey.family] at data
        | inr rest =>
            cases rest with
            | inl same => exact .inl (congrArg StoreKey.text same)
            | inr highest => cases highest
  · intro member
    by_cases same : text = (StoreKey.slot block.number block.hash).text
    · rw [same]
      exact slot
    · have old := member.resolve_left same
      obtain ⟨key, rfl⟩ := indexed.sound.keys text old
      obtain ⟨number, hash, rfl⟩ := slot_of_slotNumber isSlot
      rw [writes.mem_iff]
      · exact old
      · intro own
        cases own with
        | inl data => simp [StoreKey.isBlockData, StoreKey.family] at data
        | inr rest =>
            cases rest with
            | inl own => exact same (congrArg StoreKey.text own)
            | inr highest => cases highest

theorem slotNumbers_writeBlock (indexed : Indexed env db)
    (indexedAfter : Indexed env (writeBlock env db block)) (trips : RoundTrips env block)
    (fresh : db.get (.block block.hash) = [])
    (below : block.previousBlockId < block.number ∨ block.previousBlockId = -1) :
    (slotNumbers (writeBlock env db block)).Perm (block.number :: slotNumbers db) := by
  have held : ∀ {other}, Holds env (writeBlock env db block) other ↔
      other = block ∨ Holds env db other := holds_writeBlock indexed.sound trips fresh below
  apply slotNumbers_perm_cons (slotNumber_slot trips.facts.2.2 block.hash)
  · exact indexed.slot_absent fresh
  · intro text slot
    rw [indexedAfter.slotText_mem slot, indexed.slotText_mem slot]
    constructor
    · intro found
      obtain ⟨other, holds, text_eq⟩ := found
      cases held.mp holds with
      | inl own => exact .inl (own ▸ text_eq.symm)
      | inr old => exact .inr ⟨other, old, text_eq⟩
    · intro found
      cases found with
      | inl own => exact ⟨block, held.mpr (.inl rfl), own.symm⟩
      | inr old =>
          obtain ⟨other, holds, text_eq⟩ := old
          exact ⟨other, held.mpr (.inr holds), text_eq⟩

/-! ### The counters -/

/-- The count is the recount wherever it is stored, as the `long` it is read into. The
latest slot is the one of the recount. -/
structure ForksTallied (env : Env) (db : LevelDb) : Prop where
  occupied : ∀ block, Holds env db block → db.get (.canonical block.number) ≠ []
  count : db.get .forkVariantCount ≠ [] →
    db.getLong .forkVariantCount = some (min longMax (scanForkVariantStats db).count)
  latest : latestFork db = (scanForkVariantStats db).latestBlock
  present : 0 < (scanForkVariantStats db).count → db.get .forkVariantCount ≠ []

theorem forksTallied_empty (env : Env) : ForksTallied env ∅ where
  occupied := (forksCounted_empty env).occupied
  count := fun stored => absurd (LevelDb.get_empty _) stored
  latest := rfl
  present := fun positive => absurd positive (by decide)

theorem parseLongValue_ofLong_nonneg {value : Int} (nonneg : 0 ≤ value) :
    parseLongValue (ofLong value) = some (min longMax value) := by
  have clamped : max longMin (min longMax value) = min longMax value := by
    apply max_eq_right
    exact le_trans (by decide) (le_min (by decide) nonneg)
  unfold parseLongValue
  rw [strtol_ofLong]
  dsimp only
  rw [clamped]

/-- A count at the limit of its type stays there. -/
theorem parseLongValue_next {count : Int} (nonneg : 0 ≤ count) :
    parseLongValue (ofLong (min longMax count + 1)) = some (min longMax (count + 1)) := by
  have limit : (0 : Int) ≤ longMax := by decide
  have value : 0 ≤ min longMax count := le_min limit nonneg
  rw [parseLongValue_ofLong_nonneg (by omega)]
  apply congrArg some
  generalize longMax = limit
  omega

/-- What counting a variant leaves in the two keys. -/
theorem countForkVariant_counters (range : IsLong block.number) :
    (countForkVariant db block).get .forkVariantCount =
        ofLong (if 0 < (db.get .forkVariantCount).length then
          (db.getLong .forkVariantCount).getD 0 + 1 else scanForkVariantCount db) ∧
      latestFork (countForkVariant db block) = max (latestFork db) block.number := by
  have read : db.getLong .forkVariantCount = parseLongValue (db.get .forkVariantCount) := rfl
  unfold countForkVariant
  dsimp only
  rw [read]
  generalize (if 0 < (db.get .forkVariantCount).length then
    (parseLongValue (db.get .forkVariantCount)).getD 0 + 1 else scanForkVariantCount db) = count
  have kept : ((db.putLong .forkVariantCount count).getLong .forkVariantLatestBlock).getD (-1) =
      latestFork db := latestFork_congr (LevelDb.get_putLong_of_ne (by simp))
  rw [kept]
  split
  · rename_i higher
    constructor
    · rw [LevelDb.get_putLong_of_ne (by simp), LevelDb.putLong, LevelDb.get_put_self]
    · rw [latestFork, LevelDb.getLong_putLong_self range, max_eq_right higher.le]
      rfl
  · rename_i reached
    constructor
    · rw [LevelDb.putLong, LevelDb.get_put_self]
    · rw [latestFork, kept, max_eq_left (not_lt.mp reached)]

theorem ForksTallied.kept (tallied : ForksTallied env db) (kept : ForksKept env db after)
    (stats : scanForkVariantStats after = scanForkVariantStats db) : ForksTallied env after where
  occupied := kept.occupied tallied.occupied
  count := by
    rw [LevelDb.getLong, kept.count, stats]
    exact tallied.count
  latest := by
    rw [latestFork_congr kept.latest, stats]
    exact tallied.latest
  present := by
    rw [kept.count, stats]
    exact tallied.present

/-- Adding a block counts it exactly where the recount does. -/
theorem ForksTallied.writeBlock (tallied : ForksTallied env db) (indexed : Indexed env db)
    (indexedAfter : Indexed env (writeBlock env db block)) (trips : RoundTrips env block)
    (fresh : db.get (.block block.hash) = [])
    (below : block.previousBlockId < block.number ∨ block.previousBlockId = -1) :
    ForksTallied env (writeBlock env db block) := by
  have range := trips.facts.2.2
  have occupied := occupied_writeBlock indexed.sound trips fresh below tallied.occupied
  have after := slotNumbers_writeBlock indexed indexedAfter trips fresh below
  obtain ⟨placed, own, slot, counting⟩ := writeBlock_counting env db block
  have count : placed.get .forkVariantCount = db.get .forkVariantCount :=
    own.get_eq fun other => other.not_counter (.inl rfl)
  have latest : placed.get .forkVariantLatestBlock = db.get .forkVariantLatestBlock :=
    own.get_eq fun other => other.not_counter (.inr rfl)
  have taken : 0 < (getBlock env db block.number).number ↔ block.number ∈ slotNumbers db := by
    rw [← indexed.sound.occupied_iff, indexed.mem_slotNumbers]
    constructor
    · intro present
      obtain ⟨holds, same, -⟩ :=
        indexed.sound.holds_getBlock (indexed.sound.occupied_iff.mp present)
      exact ⟨_, holds, same⟩
    · intro stored
      obtain ⟨other, holds, same⟩ := stored
      rw [← same]
      exact tallied.occupied other holds
  rw [(writeStored_facts indexed.sound trips fresh).2.2.1] at counting
  cases counting with
  | inr free =>
      obtain ⟨free, writes⟩ := free
      have sameCount := (writes.get_eq fun spared => spared.1 (.inl rfl)).trans count
      have sameLatest := (writes.get_eq fun spared => spared.1 (.inr rfl)).trans latest
      have alone : block.number ∉ slotNumbers db := fun member => free (taken.mpr member)
      have stats : scanForkVariantStats (Safire.writeBlock env db block) =
          scanForkVariantStats db := by
        rw [scanForkVariantStats_eq, scanForkVariantStats_eq, surplus_perm after,
          highestRepeat_perm (-1) after, surplus_cons_of_notMem alone,
          highestRepeat_cons_of_notMem alone]
      constructor
      case occupied => exact occupied
      case count =>
        rw [LevelDb.getLong, sameCount, stats]
        exact tallied.count
      case latest =>
        rw [latestFork_congr sameLatest, stats]
        exact tallied.latest
      case present =>
        rw [sameCount, stats]
        exact tallied.present
  | inl variant =>
      obtain ⟨variant, writes⟩ := variant
      have beside := taken.mp variant
      have stats : scanForkVariantStats (Safire.writeBlock env db block) =
          ⟨(scanForkVariantStats db).count + 1,
            max (scanForkVariantStats db).latestBlock block.number⟩ := by
        rw [scanForkVariantStats_eq, scanForkVariantStats_eq, surplus_perm after,
          highestRepeat_perm (-1) after, surplus_cons_of_mem beside,
          highestRepeat_cons_of_mem beside]
      have scanned : scanForkVariantCount placed = (scanForkVariantStats db).count + 1 := by
        rw [scanForkVariantCount_eq,
          scanForkVariantStats_perm ((slotNumbers_added indexed range fresh own slot).trans
            after.symm), stats]
      have sameCount := writes.get_eq fun spared => spared.1 (.inl rfl)
      have sameLatest := writes.get_eq fun spared => spared.1 (.inr rfl)
      obtain ⟨newCount, newLatest⟩ := @countForkVariant_counters placed block range
      rw [count, LevelDb.getLong, count, ← LevelDb.getLong, scanned] at newCount
      rw [latestFork_congr latest, tallied.latest] at newLatest
      have nonneg : 0 ≤ (scanForkVariantStats db).count := by
        rw [scanForkVariantStats_eq]
        exact surplus_nonneg _
      constructor
      case occupied => exact occupied
      case count =>
        intro _
        rw [LevelDb.getLong, sameCount, newCount, stats]
        split
        · rename_i stored
          rw [tallied.count (List.ne_nil_of_length_pos stored), Option.getD_some]
          exact parseLongValue_next nonneg
        · exact parseLongValue_ofLong_nonneg (by omega)
      case latest =>
        rw [latestFork_congr sameLatest, newLatest, stats]
      case present =>
        intro _
        rw [sameCount, newCount]
        exact ofLong_ne_nil _

/-! ### Writing the recount -/

theorem quiet_getForkVariantCount (db : LevelDb) :
    Writes StoreKey.IsQuiet db (getForkVariantCount db).2 := by
  have counted : Writes StoreKey.IsQuiet db
      (db.putLong .forkVariantCount (scanForkVariantStats db).count) :=
    (Writes.refl db).put ⟨trivial, by simp, by simp⟩
  unfold getForkVariantCount
  dsimp only
  split
  · exact counted.put ⟨trivial, by simp, by simp⟩
  · exact counted

theorem Reached.getForkVariantCount (reached : Reached env db) :
    Reached env (getForkVariantCount db).2 where
  toIndexed := reached.toIndexed.tip_writes
    ((quiet_getForkVariantCount db).mono fun _ => Or.inr)
  tip := reached.tip.side ((quiet_getForkVariantCount db).mono fun _ quiet => quiet.1)

/-- A recounted slot has a number that is read as a `long`. -/
theorem isLong_latestBlock (indexed : Indexed env db)
    (positive : 0 < (scanForkVariantStats db).latestBlock) :
    IsLong (scanForkVariantStats db).latestBlock := by
  rw [scanForkVariantStats_eq] at positive ⊢
  dsimp only at positive ⊢
  cases (isGreatest_highestRepeat (-1) (slotNumbers db)).1 with
  | inl bottom =>
      rw [bottom] at positive
      exact absurd positive (by decide)
  | inr twice =>
      obtain ⟨block, holds, same⟩ := indexed.mem_slotNumbers.mp twice.mem
      rw [← same]
      exact holds.trips.facts.2.2

theorem ForksTallied.getForkVariantCount (tallied : ForksTallied env db)
    (indexed : Indexed env db) : ForksTallied env (getForkVariantCount db).2 := by
  have writes := quiet_getForkVariantCount db
  have indexedAfter : Indexed env (Safire.getForkVariantCount db).2 :=
    indexed.tip_writes (writes.mono fun _ => Or.inr)
  have side : Writes StoreKey.IsSide db (Safire.getForkVariantCount db).2 :=
    writes.mono fun _ quiet => quiet.1
  have rewritten := side.aside.rewritten_aside indexed.sound
  have stats : scanForkVariantStats (Safire.getForkVariantCount db).2 =
      scanForkVariantStats db := by
    apply scanForkVariantStats_perm
    apply slotNumbers_perm
    intro text slot
    simp only [indexedAfter.slotText_mem slot, indexed.slotText_mem slot,
      holds_of_rewritten rewritten]
  have nonneg : 0 ≤ (scanForkVariantStats db).count := by
    rw [scanForkVariantStats_eq]
    exact surplus_nonneg _
  have own : (Safire.getForkVariantCount db).2.get .forkVariantCount =
      ofLong (scanForkVariantStats db).count := by
    unfold Safire.getForkVariantCount
    dsimp only
    split
    · rw [LevelDb.get_putLong_of_ne (by simp), LevelDb.putLong, LevelDb.get_put_self]
    · rw [LevelDb.putLong, LevelDb.get_put_self]
  constructor
  case occupied =>
    intro block holds
    rw [writes.get_eq (by simp [StoreKey.IsQuiet, StoreKey.IsSide])]
    exact tallied.occupied block ((holds_of_rewritten rewritten).mp holds)
  case count =>
    intro _
    rw [LevelDb.getLong, own, stats]
    exact parseLongValue_ofLong_nonneg nonneg
  case latest =>
    rw [stats]
    unfold Safire.getForkVariantCount
    dsimp only
    split
    · rename_i positive
      rw [latestFork, LevelDb.getLong_putLong_self (isLong_latestBlock indexed positive)]
      rfl
    · rw [← tallied.latest]
      exact latestFork_congr (LevelDb.get_putLong_of_ne (by simp))
  case present =>
    intro _
    rw [own]
    exact ofLong_ne_nil _

/-! ### Runs -/

/-- An operation on the chain, or a recount. -/
inductive ForkCall where
  | chain (step : ChainStep)
  | getForkVariantCount

def ForkCall.apply (env : Env) (node : Node) : ForkCall → Node
  | .chain step => step.apply env node
  | .getForkVariantCount => { node with db := (Safire.getForkVariantCount node.db).2 }

/-- An added block reads back. -/
def ForkCall.Reads (env : Env) : ForkCall → Prop
  | .chain step => step.Adds (RoundTrips env)
  | .getForkVariantCount => True

def runForkCalls (env : Env) (calls : List ForkCall) : Node :=
  calls.foldl (ForkCall.apply env) .empty

theorem ForksTallied.call {node : Node} {call : ForkCall} (tallied : ForksTallied env node.db)
    (reached : Reached env node.db) (reads : call.Reads env) :
    Reached env (call.apply env node).db ∧ ForksTallied env (call.apply env node).db := by
  cases call with
  | getForkVariantCount =>
      exact ⟨reached.getForkVariantCount, tallied.getForkVariantCount reached.toIndexed⟩
  | chain step =>
      have reachedAfter : Reached env (step.apply env node).db := reached.step reads
      refine ⟨reachedAfter, ?_⟩
      cases step.forks_cases reached.sound reads with
      | inl kept =>
          exact tallied.kept kept (kept.stats_eq reached.toIndexed reachedAfter.toIndexed)
      | inr added =>
          obtain ⟨block, trips, fresh, below, written⟩ := added
          have indexedAfter := reachedAfter.toIndexed
          change ForksTallied env (step.apply env node).db
          rw [written] at indexedAfter ⊢
          exact tallied.writeBlock reached.toIndexed indexedAfter trips fresh below

theorem tallied_of_run {calls : List ForkCall} (reads : ∀ call ∈ calls, call.Reads env) :
    Reached env (runForkCalls env calls).db ∧ ForksTallied env (runForkCalls env calls).db := by
  have keeps : ∀ (node : Node) (call : ForkCall),
      Reached env node.db ∧ ForksTallied env node.db → call.Reads env →
      Reached env (call.apply env node).db ∧ ForksTallied env (call.apply env node).db :=
    fun _ _ invariant reads => invariant.2.call invariant.1 reads
  exact Runs.invariant keeps ⟨reached_empty env, forksTallied_empty env⟩
    (Runs.meets_of_forall Node.empty reads)

/-! ### What the counters are good for -/

/-- Two stored blocks of one slot. -/
structure SameSlot (env : Env) (db : LevelDb) (left right : Block) : Prop where
  first : Holds env db left
  second : Holds env db right
  number : left.number = right.number
  different : left ≠ right

/-- The stored counters are those of a recount, they are stored once a slot holds two
blocks, and the checkpoint shortcut passes no such slot. -/
structure CountersExact (env : Env) (db : LevelDb) : Prop where
  count : db.get .forkVariantCount ≠ [] → IsLong (scanForkVariantStats db).count →
    db.getLong .forkVariantCount = some (scanForkVariantStats db).count
  forked : ∀ left right, SameSlot env db left right →
    db.get .forkVariantCount ≠ [] ∧
      db.getLong .forkVariantLatestBlock = some (scanForkVariantStats db).latestBlock
  shortcut : ∀ tip, (tryValidatedCheckpointFastPath env db).1 = some tip →
    ∀ checkpoint, readValidatedCheckpoint db = some checkpoint →
      ∀ left right, SameSlot env db left right → left.number < checkpoint.1

theorem ForksTallied.forked (tallied : ForksTallied env db) (indexed : Indexed env db)
    {left right : Block} (same : SameSlot env db left right) :
    0 < forkCount db ∧ db.get .forkVariantCount ≠ [] ∧
      db.getLong .forkVariantLatestBlock = some (scanForkVariantStats db).latestBlock ∧
      left.number ≤ (scanForkVariantStats db).latestBlock := by
  have twice := indexed.duplicate same.first same.second same.number same.different
  have counted : 0 < (scanForkVariantStats db).count := by
    rw [scanForkVariantStats_eq]
    exact surplus_pos twice
  have above : left.number ≤ (scanForkVariantStats db).latestBlock := by
    rw [scanForkVariantStats_eq]
    exact le_highestRepeat twice
  have present := tallied.present counted
  refine ⟨?_, present, ?_, above⟩
  · rw [forkCount, tallied.count present, Option.getD_some]
    exact lt_min (by decide) counted
  · have latest := tallied.latest
    have positive := same.first.trips.facts.1
    rw [latestFork] at latest
    cases stored : db.getLong .forkVariantLatestBlock with
    | none =>
        rw [stored, Option.getD_none] at latest
        omega
    | some number =>
        rw [stored, Option.getD_some] at latest
        rw [latest]

theorem ForksTallied.exact (tallied : ForksTallied env db) (indexed : Indexed env db) :
    CountersExact env db where
  count := by
    intro stored range
    rw [tallied.count stored, min_eq_right range.2]
  forked := by
    intro left right same
    obtain ⟨-, present, latest, -⟩ := tallied.forked indexed same
    exact ⟨present, latest⟩
  shortcut := by
    intro tip fast checkpoint read left right same
    obtain ⟨stored, current, shortcut⟩ := exists_shortcut indexed fast
    rw [shortcut.read] at read
    obtain rfl := Option.some.inj read
    by_contra reaches
    rw [not_lt] at reaches
    obtain ⟨counted, -, latest, above⟩ := tallied.forked indexed same
    have lower := (shortcut.start indexed.sound).1.trips.facts.1
    have different : left.hash ≠ right.hash :=
      fun hashes => same.different (same.first.unique same.second hashes)
    have forked := hasFork_of_slots same.first.trips.facts.2.2 lower reaches
      ((indexed.slots _ _).mpr ⟨left, same.first, rfl, rfl⟩)
      ((indexed.slots _ _).mpr ⟨right, same.second, rfl, same.number.symm⟩) different
    have unforked := shortcut.unforked
    have positive : 0 < (db.getLong .forkVariantCount).getD 0 := counted
    rw [forkBlocksCheckpoint, latest, decide_eq_true positive, forked, Option.all_some,
      decide_eq_true (reaches.trans above)] at unforked
    cases unforked

/-- After every run over a fresh database. -/
theorem fork_counters_exact (env : Env) (calls : List ForkCall)
    (reads : ∀ call ∈ calls, call.Reads env) : CountersExact env (runForkCalls env calls).db :=
  (tallied_of_run reads).2.exact (tallied_of_run reads).1.toIndexed

namespace Sample

/-- Two blocks of one slot, recounted at the end. -/
def variantCalls : List ForkCall :=
  variantSteps.map .chain ++ [.getForkVariantCount]

theorem reads_variantCalls : ∀ call ∈ variantCalls, call.Reads Sample.env := by
  intro call member
  cases List.mem_append.mp member with
  | inl chained =>
      obtain ⟨step, listed, rfl⟩ := List.mem_map.mp chained
      exact (adds_variantSteps step listed).reads
  | inr last =>
      rw [List.mem_singleton.mp last]
      exact trivial

theorem variantCalls_exact : CountersExact Sample.env (runForkCalls Sample.env variantCalls).db :=
  fork_counters_exact Sample.env variantCalls reads_variantCalls

end Sample

end Safire
