/-
The fork counters of a database: the number of variants and the highest slot with
a second block.

`AddBlock` counts a block exactly where its slot is taken, and nothing else
writes the counters or empties a slot. So where the counters let the checkpoint
shortcut through, no slot from the checkpoint on holds two blocks.
-/

import Safire.IndexIntegrity

namespace Safire

open Text

variable {env : Env} {db after : LevelDb} {block : Block}

/-! ### Slot numbers -/

theorem slotNumber_slot {number : Int} (range : IsLong number) (hash : Text) :
    slotNumber (StoreKey.slot number hash).text = some number := by
  have colon : ':' ∉ ofLong number := by
    intro member
    cases mem_ofLong member with
    | inl minus => exact absurd minus (by decide)
    | inr digit => exact absurd digit (by decide)
  have text : (StoreKey.slot number hash).text =
      "slot".toList ++ (":".toList ++ (ofLong number ++ (":".toList ++ hash))) := by
    have front : "slot:".toList = "slot".toList ++ ":".toList := rfl
    unfold StoreKey.text
    rw [front]
    simp only [List.append_assoc]
  have starts : startsWith (StoreKey.slot number hash).text "slot:".toList = true :=
    List.isPrefixOf_iff_prefix.mpr ⟨ofLong number ++ (":".toList ++ hash), by rw [text]; rfl⟩
  have first : find (StoreKey.slot number hash).text ":".toList 0 = some 4 := by
    rw [text]
    exact @find_of_clear _ ":".toList "slot".toList _ 0 rfl
      (Search.clear_of_notMem (by decide))
  have tail : (StoreKey.slot number hash).text.drop 5 =
      ofLong number ++ (":".toList ++ hash) := by
    rw [text]
    rfl
  have second : find (StoreKey.slot number hash).text ":".toList 5 =
      some (5 + (ofLong number).length) :=
    find_of_clear tail (Search.clear_of_notMem colon)
  have content : Text.substr (StoreKey.slot number hash).text 5
      (5 + (ofLong number).length - 4 - 1) = ofLong number := by
    have width : 5 + (ofLong number).length - 4 - 1 = (ofLong number).length := by omega
    unfold Text.substr
    rw [width, tail, List.take_left]
  unfold slotNumber
  rw [starts, if_neg (by decide), first]
  dsimp only
  rw [second]
  dsimp only
  rw [content, parseLongValue_ofLong range]

/-- Two entries that are not for one slot from the minimum on. -/
def SlotsApart (minimum : Int) (one other : Text × Text) : Prop :=
  ∀ number, slotNumber one.1 = some number → slotNumber other.1 = some number → ¬ minimum ≤ number

instance (minimum : Int) : Std.Symm (SlotsApart minimum) where
  symm := fun _ _ apart number read readAgain => apart number readAgain read

theorem slotsApart_of_unforked {minimum : Int} (lower : 0 < minimum)
    (unforked : hasForkVariantAtOrAfter db minimum = false) :
    db.toList.Pairwise (SlotsApart minimum) := by
  rw [hasForkVariantAtOrAfter, decide_eq_true lower, Bool.true_and, Bool.not_eq_false',
    decide_eq_true_eq] at unforked
  apply (List.pairwise_filterMap.mp (List.pairwise_filter.mp unforked)).imp
  intro one other apart number read readAgain reaches
  exact apart number read number readAgain (decide_eq_true reaches) (decide_eq_true reaches) rfl

/-- A slot with two blocks is a fork from every number up to it on. -/
theorem hasFork_of_slots {number minimum : Int} {left right : Text} (range : IsLong number)
    (lower : 0 < minimum) (above : minimum ≤ number)
    (first : (StoreKey.slot number left).text ∈ db)
    (second : (StoreKey.slot number right).text ∈ db) (different : left ≠ right) :
    hasForkVariantAtOrAfter db minimum = true := by
  rw [← Bool.not_eq_false]
  intro unforked
  rw [Std.ExtTreeMap.mem_iff_isSome_getElem?, Option.isSome_iff_exists] at first second
  obtain ⟨leftValue, leftFound⟩ := first
  obtain ⟨rightValue, rightFound⟩ := second
  have keys : ((StoreKey.slot number left).text, leftValue) ≠
      ((StoreKey.slot number right).text, rightValue) := by
    intro same
    have texts := StoreKey.text_injective (Prod.mk.inj same).1
    injection texts with _ hashes
    exact different hashes
  exact (slotsApart_of_unforked lower unforked).forall
    (Std.ExtTreeMap.mem_toList_iff_getElem?_eq_some.mpr leftFound)
    (Std.ExtTreeMap.mem_toList_iff_getElem?_eq_some.mpr rightFound) keys number
    (slotNumber_slot range left) (slotNumber_slot range right) above

/-- The scan counts a slot with two blocks. -/
theorem scan_positive {number : Int} {left right : Text} (range : IsLong number)
    (lower : 0 < number) (first : (StoreKey.slot number left).text ∈ db)
    (second : (StoreKey.slot number right).text ∈ db) (different : left ≠ right) :
    0 < scanForkVariantCount db := by
  have forked := hasFork_of_slots range lower le_rfl first second different
  rw [hasForkVariantAtOrAfter, Bool.and_eq_true, Bool.not_eq_true', decide_eq_false_iff_not]
    at forked
  have repeated : ¬ (slotNumbers db).Nodup := fun single => forked.2 (single.filter _)
  rw [List.nodup_iff_count_le_one] at repeated
  push Not at repeated
  obtain ⟨slot, twice⟩ := repeated
  have member : slot ∈ (slotNumbers db).dedup :=
    List.mem_dedup.mpr (List.count_pos_iff.mp (by omega))
  unfold scanForkVariantCount
  dsimp only
  have each : ∀ variants ∈ (slotNumbers db).dedup.map
      (fun number => ((slotNumbers db).count number : Int) - 1), 0 ≤ variants := by
    intro variants listed
    obtain ⟨other, known, rfl⟩ := List.mem_map.mp listed
    have present := List.count_pos_iff.mpr (List.mem_dedup.mp known)
    omega
  have own := List.single_le_sum each _ (List.mem_map_of_mem member)
  omega

theorem slotNumbers_congr (same : ∀ text, startsWith text "slot:".toList = true →
    after[text]? = db[text]?) : slotNumbers after = slotNumbers db := by
  have entries : ∀ db : LevelDb, slotNumbers db =
      (db.filter (fun text _ => startsWith text "slot:".toList)).toList.filterMap
        (fun entry => slotNumber entry.1) := by
    intro db
    rw [slotNumbers, Std.ExtTreeMap.toList_filter, List.filterMap_filter]
    apply List.filterMap_congr
    intro entry _
    cases starts : startsWith entry.1 "slot:".toList with
    | true => rfl
    | false =>
        have unread : slotNumber entry.1 = none := by rw [slotNumber, starts, if_pos rfl]
        rw [unread, if_neg Bool.false_ne_true]
  have filtered : after.filter (fun text _ => startsWith text "slot:".toList) =
      db.filter (fun text _ => startsWith text "slot:".toList) := by
    apply Std.ExtTreeMap.ext_getElem?
    intro text
    rw [Std.ExtTreeMap.getElem?_filter', Std.ExtTreeMap.getElem?_filter']
    cases isSlot : startsWith text "slot:".toList with
    | true => rw [same text isSlot]
    | false => simp
  rw [entries, entries, filtered]

/-! ### Counting a variant -/

/-- The keys that the counters are read from. -/
def StoreKey.IsCounter (key : StoreKey) : Prop :=
  key = .forkVariantCount ∨ key = .forkVariantLatestBlock

def forkCount (db : LevelDb) : Int :=
  (db.getLong .forkVariantCount).getD 0

def latestFork (db : LevelDb) : Int :=
  (db.getLong .forkVariantLatestBlock).getD (-1)

theorem positive_of_print {count : Int} (positive : 0 < count) :
    0 < (parseLongValue (ofLong count)).getD 0 := by
  unfold parseLongValue
  rw [strtol_ofLong]
  have clamped : 0 < max longMin (min longMax count) :=
    lt_max_of_lt_right (lt_min (by decide) positive)
  exact clamped

/-- The count stays positive and the latest fork reaches the block. -/
theorem countForkVariant_counts (range : IsLong block.number)
    (scanned : db.get .forkVariantCount = [] → 0 < scanForkVariantCount db)
    (counting : db.get .forkVariantCount ≠ [] → 0 < forkCount db) :
    (countForkVariant db block).get .forkVariantCount ≠ [] ∧
      0 < forkCount (countForkVariant db block) ∧
      block.number ≤ latestFork (countForkVariant db block) ∧
      latestFork db ≤ latestFork (countForkVariant db block) := by
  unfold countForkVariant
  dsimp only
  generalize counts : (if 0 < (db.get .forkVariantCount).length then
    (parseLongValue (db.get .forkVariantCount)).getD 0 + 1 else scanForkVariantCount db) = count
  have positive : 0 < count := by
    rw [← counts]
    split
    · rename_i stored
      have old : 0 < (parseLongValue (db.get .forkVariantCount)).getD 0 :=
        counting (List.ne_nil_of_length_pos stored)
      omega
    · rename_i missing
      exact scanned (List.length_eq_zero_iff.mp (by omega))
  have kept : (db.putLong .forkVariantCount count).getLong .forkVariantLatestBlock =
      db.getLong .forkVariantLatestBlock := by
    rw [LevelDb.getLong, LevelDb.getLong, LevelDb.get_putLong_of_ne (by simp)]
  have own : (db.putLong .forkVariantCount count).get .forkVariantCount = ofLong count :=
    LevelDb.get_put_self
  split
  · rename_i lower
    rw [kept] at lower
    have latest : latestFork ((db.putLong .forkVariantCount count).putLong .forkVariantLatestBlock
        block.number) = block.number := by
      rw [latestFork, LevelDb.getLong_putLong_self range]
      rfl
    have same : ((db.putLong .forkVariantCount count).putLong .forkVariantLatestBlock
        block.number).get .forkVariantCount = ofLong count := by
      rw [LevelDb.get_putLong_of_ne (by simp), own]
    rw [forkCount, LevelDb.getLong, same, latest]
    exact ⟨ofLong_ne_nil count, positive_of_print positive, le_rfl, lower.le⟩
  · rename_i reached
    rw [kept] at reached
    rw [forkCount, LevelDb.getLong, own, latestFork, kept]
    exact ⟨ofLong_ne_nil count, positive_of_print positive, not_lt.mp reached, le_rfl⟩

/-! ### Writers that leave the counters alone -/

/-- Neither a counter nor a canonical slot. -/
def StoreKey.SparesForks (key : StoreKey) : Prop :=
  ¬ key.IsCounter ∧ ∀ number, key ≠ .canonical number

theorem StoreKey.SparesForks.chainMeta (name : String) : (StoreKey.chainMeta name).SparesForks :=
  ⟨by simp [StoreKey.IsCounter], by simp⟩

theorem StoreKey.IsTip.spares {key : StoreKey} (tip : key.IsTip) : key.SparesForks := by
  rcases tip with (rfl | rfl) | rfl
  · exact ⟨by simp [StoreKey.IsCounter], by simp⟩
  · exact .chainMeta _
  · exact .chainMeta _

theorem StoreKey.IsCheckpoint.spares {key : StoreKey} (checkpoint : key.IsCheckpoint) :
    key.SparesForks := by
  cases checkpoint with
  | inl block => exact block ▸ .chainMeta _
  | inr hash => exact hash ▸ .chainMeta _

theorem spares_finishChain (db : LevelDb) (now : Int) (reason : String)
    (previousTip newTip : Block) :
    Writes StoreKey.SparesForks db (finishChain env db now reason previousTip newTip) := by
  have latest : Writes StoreKey.SparesForks db (setLatestBlockId env db newTip.number) :=
    (tip_setLatestBlockId db _).mono fun _ => StoreKey.IsTip.spares
  have reorg : ∀ start, Writes StoreKey.SparesForks start
      (writeReorg start now reason previousTip newTip) := by
    intro start
    apply (reorg_writeReorg start now reason previousTip newTip).mono
    intro key named
    obtain ⟨name, rfl⟩ := named
    exact ⟨by simp [StoreKey.IsCounter], by simp⟩
  unfold finishChain
  dsimp only
  exact ((latest.put (.chainMeta _)).trans
    ((checkpoint_maybeAdvanceValidatedCheckpoint _ _).mono fun _ =>
      StoreKey.IsCheckpoint.spares)).trans (reorg _)

theorem spares_advanceLatest (env : Env) (db : LevelDb) (block : Block) :
    Writes StoreKey.SparesForks db (advanceLatest env db block) := by
  have latest : Writes StoreKey.SparesForks db (setLatestBlockId env db block.number) :=
    (tip_setLatestBlockId db _).mono fun _ => StoreKey.IsTip.spares
  unfold advanceLatest
  dsimp only
  split
  · exact latest
  · split
    · split
      · exact latest.trans ((checkpoint_maybeAdvanceValidatedCheckpoint _ _).mono fun _ =>
          StoreKey.IsCheckpoint.spares)
      · exact .refl db
    · exact .refl db

theorem spares_writeNextLinks (env : Env) (db : LevelDb) (block : Block) :
    Writes StoreKey.SparesForks db (writeNextLinks env db block) := by
  apply (writes_writeNextLinks env db block).mono
  intro key link
  rcases link with rfl | rfl
  · exact ⟨by simp [StoreKey.IsCounter], by simp⟩
  · exact ⟨by simp [StoreKey.IsCounter], by simp⟩

/-- The fast path writes the highest number, the connected tip and the checkpoint. -/
theorem spares_fastPath (env : Env) (db : LevelDb) :
    Writes StoreKey.SparesForks db (tryValidatedCheckpointFastPath env db).2 := by
  have read : Writes StoreKey.SparesForks db (highestStoredBlock env db).2 := by
    apply (highest_highestStoredBlock db).mono
    intro key highest
    exact highest ▸ .chainMeta _
  unfold tryValidatedCheckpointFastPath
  dsimp only
  split
  · exact .refl db
  · split
    · exact .refl db
    · split
      · exact .refl db
      · split
        · exact read
        · split
          · exact read
          · split
            · exact read
            · split
              · exact read
              · split
                · exact read
                · exact (read.put (.chainMeta _)).trans
                    ((checkpoint_maybeAdvanceValidatedCheckpoint _ _).mono fun _ =>
                      StoreKey.IsCheckpoint.spares)

/-! ### The invariant -/

/-- Every stored block has its slot occupied, and a slot with two blocks is counted. -/
structure ForksCounted (env : Env) (db : LevelDb) : Prop where
  occupied : ∀ block, Holds env db block → db.get (.canonical block.number) ≠ []
  positive : db.get .forkVariantCount ≠ [] → 0 < forkCount db
  counted : ∀ left right, Holds env db left → Holds env db right → left.number = right.number →
    left ≠ right → db.get .forkVariantCount ≠ [] ∧ left.number ≤ latestFork db

theorem forksCounted_empty (env : Env) : ForksCounted env ∅ where
  occupied := by
    intro block holds
    exact absurd (holds.stored.symm.trans (LevelDb.get_empty _)) (blockJSON_ne_nil env block)
  positive := fun present => absurd (LevelDb.get_empty _) present
  counted := by
    intro left _ holds
    exact absurd (holds.stored.symm.trans (LevelDb.get_empty _)) (blockJSON_ne_nil env left)

theorem Sound.occupied_iff (sound : Sound env db) {number : Int} :
    db.get (.canonical number) ≠ [] ↔ 0 < (getBlock env db number).number := by
  cases sound.getBlock_cases number with
  | inl missing =>
      rw [missing.1]
      exact iff_of_false (not_not.mpr missing.2.1) (by decide)
  | inr held =>
      rw [held.2.2]
      exact iff_of_true held.1.trips.facts.2.1 held.1.trips.facts.1

theorem forkCount_congr (same : after.get .forkVariantCount = db.get .forkVariantCount) :
    forkCount after = forkCount db := by
  rw [forkCount, forkCount, LevelDb.getLong, LevelDb.getLong, same]

theorem latestFork_congr
    (same : after.get .forkVariantLatestBlock = db.get .forkVariantLatestBlock) :
    latestFork after = latestFork db := by
  rw [latestFork, latestFork, LevelDb.getLong, LevelDb.getLong, same]

/-- The same blocks and counters, and no slot is emptied. -/
structure ForksKept (env : Env) (db after : LevelDb) : Prop where
  held : ∀ block, Holds env after block ↔ Holds env db block
  count : after.get .forkVariantCount = db.get .forkVariantCount
  latest : after.get .forkVariantLatestBlock = db.get .forkVariantLatestBlock
  slots : ∀ number, db.get (.canonical number) ≠ [] → after.get (.canonical number) ≠ []

namespace ForksKept

theorem refl (env : Env) (db : LevelDb) : ForksKept env db db where
  held := fun _ => Iff.rfl
  count := rfl
  latest := rfl
  slots := fun _ => id

theorem trans {middle : LevelDb} (first : ForksKept env db middle)
    (second : ForksKept env middle after) : ForksKept env db after where
  held := fun block => (second.held block).trans (first.held block)
  count := second.count.trans first.count
  latest := second.latest.trans first.latest
  slots := fun number occupied => second.slots number (first.slots number occupied)

/-- What neither counts a variant nor writes a slot. -/
theorem of_spares (held : ∀ block, Holds env after block ↔ Holds env db block)
    (writes : Writes StoreKey.SparesForks db after) : ForksKept env db after where
  held := held
  count := writes.get_eq fun spared => spared.1 (.inl rfl)
  latest := writes.get_eq fun spared => spared.1 (.inr rfl)
  slots := by
    intro number occupied
    rw [writes.get_eq fun spared => spared.2 number rfl]
    exact occupied

/-- Every stored block has its slot occupied. -/
theorem occupied (kept : ForksKept env db after)
    (occupied : ∀ block, Holds env db block → db.get (.canonical block.number) ≠ []) :
    ∀ block, Holds env after block → after.get (.canonical block.number) ≠ [] :=
  fun block holds => kept.slots block.number (occupied block ((kept.held block).mp holds))

theorem setFirstBlockId (env : Env) (db : LevelDb) (number : Int) :
    ForksKept env db (setFirstBlockId db number) := by
  apply of_spares
  · intro block
    constructor
    · exact fun holds => holds.congr (setFirstBlockId_blockData db number rfl).symm
    · exact fun holds => holds.congr (setFirstBlockId_blockData db number rfl)
  · apply (writes_setFirstBlockId db number).mono
    intro key first
    cases first with
    | inl plain => exact plain ▸ ⟨by simp [StoreKey.IsCounter], by simp⟩
    | inr named => exact named ▸ .chainMeta _

theorem eraseNextLinks (env : Env) (db : LevelDb) : ForksKept env db (eraseNextLinks db) where
  held := by
    intro block
    constructor
    · exact fun holds => holds.congr (get_eraseNextLinks rfl).symm
    · exact fun holds => holds.congr (get_eraseNextLinks rfl)
  count := get_eraseNextLinks rfl
  latest := get_eraseNextLinks rfl
  slots := by
    intro number occupied
    rw [get_eraseNextLinks rfl]
    exact occupied

end ForksKept

theorem ForksCounted.kept (forks : ForksCounted env db) (kept : ForksKept env db after) :
    ForksCounted env after where
  occupied := kept.occupied forks.occupied
  positive := by
    rw [kept.count, forkCount_congr kept.count]
    exact forks.positive
  counted := by
    intro left right holds holdsRight
    rw [kept.count, latestFork_congr kept.latest]
    exact forks.counted left right ((kept.held left).mp holds) ((kept.held right).mp holdsRight)

/-- A chain only writes hashes into the slots. -/
theorem canonical_writeChain {chain : List Block} (named : ∀ block ∈ chain, block.hash ≠ [])
    {number : Int} (occupied : db.get (.canonical number) ≠ []) :
    (writeChain env db chain).get (.canonical number) ≠ [] := by
  rw [writeChain_eq]
  cases @LevelDb.getElem?_putAll_cases db (.canonical number) (writtenEntries env chain) with
  | inl same =>
      rw [LevelDb.get_eq_getD, same, ← LevelDb.get_eq_getD]
      exact occupied
  | inr written =>
      obtain ⟨value, member, found⟩ := written
      rw [LevelDb.get_eq_getD, found]
      cases mem_writtenEntries.mp member with
      | inl own =>
          obtain ⟨block, listed, entry⟩ := own
          simp only [blockEntries, List.mem_cons, Prod.mk.injEq, List.not_mem_nil, or_false,
            reduceCtorEq, false_and] at entry
          rw [entry.2]
          exact named block listed
      | inr link =>
          obtain ⟨_, parent, child, _, _, entry⟩ := link
          simp [linkEntries] at entry

theorem ForksKept.writeChain (sound : Sound env db) {chain : List Block}
    (held : ∀ block ∈ chain, Holds env db block) :
    ForksKept env db (writeChain env db chain) := by
  have writes := writes_writeChain env db chain
  constructor
  case held => exact fun _ => holds_of_rewritten (rewritten_writeChain chain sound held).1
  case count => exact writes.get_eq (by simp [StoreKey.family])
  case latest => exact writes.get_eq (by simp [StoreKey.family])
  case slots =>
    intro number occupied
    exact canonical_writeChain (fun block member => (held block member).trips.facts.2.1) occupied

theorem ForksKept.finishChain (sound : Sound env db) (now : Int) (reason : String)
    (previousTip newTip : Block) :
    ForksKept env db (finishChain env db now reason previousTip newTip) :=
  .of_spares
    (fun _ => holds_of_rewritten
      ((writes_finishChain db now reason previousTip newTip).rewritten_ends sound))
    (spares_finishChain db now reason previousTip newTip)

/-! ### Adding a block -/

/-- The keys of a block itself and of its slot. -/
def StoreKey.IsOwn (block : Block) (key : StoreKey) : Prop :=
  key.isBlockData = true ∨ key = .slot block.number block.hash ∨ key = highestKey

theorem StoreKey.IsOwn.not_counter {key : StoreKey} (own : key.IsOwn block) : ¬ key.IsCounter := by
  intro counter
  cases counter with
  | inl count =>
      rw [count] at own
      simp [StoreKey.IsOwn, StoreKey.isBlockData, StoreKey.family] at own
  | inr latest =>
      rw [latest] at own
      simp [StoreKey.IsOwn, StoreKey.isBlockData, StoreKey.family] at own

theorem own_writeStored (env : Env) (db : LevelDb) (block : Block) :
    Writes (StoreKey.IsOwn block) db (writeStored env db block) := by
  have entries : Writes (StoreKey.IsOwn block) db
      ((db.put (.block block.hash) (blockJSON env block)).put (.slot block.number block.hash)
        block.hash) :=
    ((Writes.refl db).put (.inl rfl)).put (.inr (.inl rfl))
  apply entries.trans
  apply (highest_maybeUpdateHighestStoredBlock _ _).mono
  exact fun _ highest => .inr (.inr highest)

theorem own_writeCanonical (env : Env) (db : LevelDb) (block : Block) :
    Writes (StoreKey.IsOwn block) db (writeCanonical env db block) := by
  apply (writes_writeCanonical env db block).mono
  intro key slot
  cases slot with
  | inl canonical => exact .inl (canonical ▸ rfl)
  | inr legacy => exact .inl (legacy ▸ rfl)

/-- A block is counted exactly where its slot was occupied before. -/
theorem writeBlock_counting (env : Env) (db : LevelDb) (block : Block) :
    ∃ placed, Writes (StoreKey.IsOwn block) db placed ∧
      (StoreKey.slot block.number block.hash).text ∈ placed ∧
      (0 < (getBlock env (writeStored env db block) block.number).number ∧
          Writes StoreKey.SparesForks (countForkVariant placed block) (writeBlock env db block) ∨
        ¬ 0 < (getBlock env (writeStored env db block) block.number).number ∧
          Writes StoreKey.SparesForks placed (writeBlock env db block)) := by
  have own := own_writeStored env db block
  have slotStored : (StoreKey.slot block.number block.hash).text ∈ writeStored env db block := by
    rw [writeStored, (highest_maybeUpdateHighestStoredBlock _ _).mem_iff (by simp),
      Std.ExtTreeMap.mem_iff_isSome_getElem?, LevelDb.getElem?_put, if_pos rfl]
    rfl
  have slotPlaced : (StoreKey.slot block.number block.hash).text ∈
      writeCanonical env (writeStored env db block) block := by
    rw [(writes_writeCanonical env _ block).mem_iff (by simp)]
    exact slotStored
  have linked : ∀ counted, Writes StoreKey.SparesForks counted
      (advanceLatest env (writeNextLinks env counted block) block) :=
    fun counted => (spares_writeNextLinks env counted block).trans (spares_advanceLatest env _ block)
  unfold writeBlock
  dsimp only
  generalize writeStored env db block = stored at own slotStored slotPlaced ⊢
  by_cases occupied : 0 < (getBlock env stored block.number).number
  · rw [decide_eq_true occupied, if_pos rfl, Bool.true_and]
    by_cases takes : TakesSlot env stored block
    · rw [(TakesSlot.decide_iff env stored block).mpr takes, if_pos rfl, Bool.not_true,
        if_neg Bool.false_ne_true]
      exact ⟨_, own.trans (own_writeCanonical env stored block), slotPlaced,
        .inl ⟨occupied, linked _⟩⟩
    · have refused : (decide ((getBlock env stored block.number).number ≤ 0) ||
          preferBlockVariant block (getBlock env stored block.number)) = false := by
        rw [← Bool.not_eq_true, TakesSlot.decide_iff]
        exact takes
      rw [refused, if_neg Bool.false_ne_true, Bool.not_false, if_pos rfl]
      exact ⟨stored, own, slotStored, .inl ⟨occupied, .refl _⟩⟩
  · have free : TakesSlot env stored block := .inl (not_lt.mp occupied)
    rw [(TakesSlot.decide_iff env stored block).mpr free, decide_eq_false occupied, if_pos rfl,
      if_neg Bool.false_ne_true, Bool.false_and, if_neg Bool.false_ne_true]
    exact ⟨_, own.trans (own_writeCanonical env stored block), slotPlaced,
      .inr ⟨occupied, linked _⟩⟩

/-- The counters after adding a block. -/
theorem ForksCounted.counters_writeBlock (forks : ForksCounted env db) (indexed : Indexed env db)
    (trips : RoundTrips env block) (fresh : db.get (.block block.hash) = []) :
    ((writeBlock env db block).get .forkVariantCount ≠ [] →
        0 < forkCount (writeBlock env db block)) ∧
      (db.get .forkVariantCount ≠ [] → (writeBlock env db block).get .forkVariantCount ≠ []) ∧
      latestFork db ≤ latestFork (writeBlock env db block) ∧
      (0 < (getBlock env db block.number).number →
        (writeBlock env db block).get .forkVariantCount ≠ [] ∧
          block.number ≤ latestFork (writeBlock env db block)) := by
  obtain ⟨positive, named, range⟩ := trips.facts
  obtain ⟨placed, own, slot, counting⟩ := writeBlock_counting env db block
  have count : placed.get .forkVariantCount = db.get .forkVariantCount :=
    own.get_eq fun other => other.not_counter (.inl rfl)
  have latest : placed.get .forkVariantLatestBlock = db.get .forkVariantLatestBlock :=
    own.get_eq fun other => other.not_counter (.inr rfl)
  rw [(writeStored_facts indexed.sound trips fresh).2.2.1] at counting
  cases counting with
  | inr free =>
      obtain ⟨free, writes⟩ := free
      have sameCount := (writes.get_eq fun spared => spared.1 (.inl rfl)).trans count
      have sameLatest := (writes.get_eq fun spared => spared.1 (.inr rfl)).trans latest
      rw [sameCount, forkCount_congr sameCount, latestFork_congr sameLatest]
      exact ⟨forks.positive, id, le_rfl, fun occupied => absurd occupied free⟩
  | inl variant =>
      obtain ⟨occupied, writes⟩ := variant
      obtain ⟨holds, sameNumber, -⟩ := indexed.sound.holds_getBlock occupied
      have different : block.hash ≠ (getBlock env db block.number).hash := by
        intro same
        rw [same, holds.stored] at fresh
        exact blockJSON_ne_nil env _ fresh
      have other : (StoreKey.slot block.number (getBlock env db block.number).hash).text ∈ placed := by
        rw [own.mem_iff (by simpa [StoreKey.IsOwn, StoreKey.isBlockData, StoreKey.family] using
          different.symm), indexed.slots]
        exact ⟨_, holds, rfl, sameNumber⟩
      obtain ⟨present, counted, reached, grown⟩ := countForkVariant_counts range
        (fun _ => scan_positive range positive slot other different)
        (by rw [count, forkCount_congr count]; exact forks.positive)
      rw [latestFork_congr latest] at grown
      have sameCount := writes.get_eq fun spared => spared.1 (.inl rfl)
      have sameLatest := writes.get_eq fun spared => spared.1 (.inr rfl)
      rw [sameCount, forkCount_congr sameCount, latestFork_congr sameLatest]
      exact ⟨fun _ => counted, fun _ => present, grown, fun _ => ⟨present, reached⟩⟩

/-- An added block fills its own slot and empties no other. -/
theorem occupied_writeBlock (sound : Sound env db) (trips : RoundTrips env block)
    (fresh : db.get (.block block.hash) = [])
    (below : block.previousBlockId < block.number ∨ block.previousBlockId = -1)
    (occupied : ∀ other, Holds env db other → db.get (.canonical other.number) ≠ []) :
    ∀ other, Holds env (writeBlock env db block) other →
      (writeBlock env db block).get (.canonical other.number) ≠ [] := by
  have written := written_writeBlock sound trips fresh below
  intro other holds
  rw [written.sound.occupied_iff]
  by_cases takes : other.number = block.number ∧ TakesSlot env db block
  · rw [takes.1, written.taken takes.2]
    exact trips.facts.1
  · have apart : other.number ≠ block.number ∨ ¬ TakesSlot env db block :=
      not_and_or.mp takes
    rw [written.kept other.number apart]
    cases (holds_writeBlock sound trips fresh below).mp holds with
    | inr old => exact sound.occupied_iff.mp (occupied other old)
    | inl own =>
        subst own
        have refused := apart.resolve_left (not_not.mpr rfl)
        exact not_le.mp fun empty => refused (.inl empty)

theorem ForksCounted.writeBlock (forks : ForksCounted env db) (indexed : Indexed env db)
    (trips : RoundTrips env block) (fresh : db.get (.block block.hash) = [])
    (below : block.previousBlockId < block.number ∨ block.previousBlockId = -1) :
    ForksCounted env (writeBlock env db block) := by
  obtain ⟨positive, stays, grown, variant⟩ := forks.counters_writeBlock indexed trips fresh
  have beside : ∀ other, Holds env db other → other.number = block.number →
      0 < (getBlock env db block.number).number := by
    intro other holds same
    rw [← same]
    exact indexed.sound.occupied_iff.mp (forks.occupied other holds)
  constructor
  · exact occupied_writeBlock indexed.sound trips fresh below forks.occupied
  · exact positive
  · intro left right holds holdsRight numbers different
    cases (holds_writeBlock indexed.sound trips fresh below).mp holds with
    | inl own =>
        subst own
        cases (holds_writeBlock indexed.sound trips fresh below).mp holdsRight with
        | inl again => exact absurd again.symm different
        | inr old => exact variant (beside right old numbers.symm)
    | inr old =>
        cases (holds_writeBlock indexed.sound trips fresh below).mp holdsRight with
        | inl own =>
            subst own
            rw [numbers]
            exact variant (beside left old numbers)
        | inr oldRight =>
            obtain ⟨present, reached⟩ := forks.counted left right old oldRight numbers different
            exact ⟨stays present, reached.trans grown⟩

/-! ### Runs -/

theorem ForksKept.rebuildBestChainIndex (sound : Sound env db) (now : Int) :
    ForksKept env db (rebuildBestChainIndex env now db).2 := by
  have fast : ForksKept env db (tryValidatedCheckpointFastPath env db).2 ∧
      Sound env (tryValidatedCheckpointFastPath env db).2 := by
    have rewritten := (writes_fastPath env db).aside.rewritten_aside sound
    exact ⟨.of_spares (fun _ => holds_of_rewritten rewritten) (spares_fastPath env db),
      rewritten.sound⟩
  unfold Safire.rebuildBestChainIndex
  split
  · exact .refl env db
  · generalize tryValidatedCheckpointFastPath env db = attempt at fast ⊢
    obtain ⟨verdict, attempted⟩ := attempt
    obtain ⟨kept, sound⟩ := fast
    cases verdict with
    | some tip => exact kept
    | none =>
        dsimp only at kept sound ⊢
        unfold Safire.rebuildFully
        dsimp only
        cases tip : (bestValidChain env attempted).getLast? with
        | none => exact kept
        | some newTip =>
            have erased := rewritten_eraseNextLinks sound
            have held : ∀ block ∈ bestValidChain env attempted,
                Holds env (Safire.eraseNextLinks attempted) block :=
              fun block member => erased.holds (sound.bestValidChain_holds block member)
            have cleared := kept.trans (.eraseNextLinks env attempted)
            have rewritten := cleared.trans (.writeChain erased.sound held)
            exact rewritten.trans
              (.finishChain (rewritten_bestValidChain sound).1.sound now _ _ _)

theorem ForksKept.adoptStoredChainEndingAtHash (sound : Sound env db) (now : Int)
    (tipHash : Text) : ForksKept env db (adoptStoredChainEndingAtHash env now db tipHash).2 := by
  cases adopt_cases sound now tipHash with
  | inl refused =>
      rw [refused]
      exact .refl env db
  | inr adopted =>
      obtain ⟨tip, branch, adoptable, outcome⟩ := adopted
      cases outcome with
      | inl kept =>
          rw [kept.2]
          exact .refl env db
      | inr moved =>
          rw [moved.2]
          have held := (adoptable.adoptedPart_facts sound).2
          exact (ForksKept.writeChain sound held).trans
            (.finishChain (rewritten_writeChain _ sound held).1.sound now _ _ _)

/-- A step adds a block or leaves the forks alone. -/
theorem ChainStep.forks_cases {node : Node} (step : ChainStep) (sound : Sound env node.db)
    (reads : step.Adds (RoundTrips env)) :
    ForksKept env node.db (step.apply env node).db ∨
      ∃ block, RoundTrips env block ∧ node.db.get (.block block.hash) = [] ∧
        (block.previousBlockId < block.number ∨ block.previousBlockId = -1) ∧
        (step.apply env node).db = writeBlock env node.db block := by
  cases step with
  | addBlock ambient block =>
      change ForksKept env node.db (Safire.addBlock env ambient node block).2.db ∨ _
      cases addBlock_cases env ambient node block with
      | inl unchanged =>
          rw [unchanged]
          exact .inl (.refl env node.db)
      | inr added =>
          obtain ⟨checked, fresh, -, written⟩ := added
          refine .inr ⟨block, reads, fresh, checkAddedBlock_below checked, ?_⟩
          change (Safire.addBlock env ambient node block).2.db = writeBlock env node.db block
          rw [written]
  | setFirstBlockId number => exact .inl (.setFirstBlockId env node.db number)
  | rebuildBestChainIndex now => exact .inl (.rebuildBestChainIndex sound now)
  | adoptStoredChainEndingAtHash now tipHash =>
      exact .inl (.adoptStoredChainEndingAtHash sound now tipHash)

theorem ForksCounted.step {node : Node} {step : ChainStep} (forks : ForksCounted env node.db)
    (reached : Reached env node.db) (reads : step.Adds (RoundTrips env)) :
    ForksCounted env (step.apply env node).db := by
  cases step.forks_cases reached.sound reads with
  | inl kept => exact forks.kept kept
  | inr added =>
      obtain ⟨block, trips, fresh, below, written⟩ := added
      rw [written]
      exact forks.writeBlock reached.toIndexed trips fresh below

theorem forksCounted_of_run {steps : List ChainStep}
    (reads : ∀ step ∈ steps, step.Adds (RoundTrips env)) :
    ForksCounted env (runSteps env .empty steps).db := by
  have keeps : ∀ (node : Node) (step : ChainStep),
      Reached env node.db ∧ ForksCounted env node.db → step.Adds (RoundTrips env) →
      Reached env (step.apply env node).db ∧ ForksCounted env (step.apply env node).db :=
    fun _ _ invariant reads => ⟨invariant.1.step reads, invariant.2.step invariant.1 reads⟩
  exact (Runs.invariant keeps ⟨reached_empty env, forksCounted_empty env⟩
    (Runs.meets_of_forall Node.empty reads)).2

/-- Where the counters let the shortcut through, a block from the checkpoint on is
alone in its slot. -/
theorem ForksCounted.canonical_of_unforked (forks : ForksCounted env db) (indexed : Indexed env db)
    {checkpointBlock : Int} (lower : 0 < checkpointBlock)
    (unforked : forkBlocksCheckpoint db checkpointBlock = false) (holds : Holds env db block)
    (above : checkpointBlock ≤ block.number) : db.get (.canonical block.number) = block.hash := by
  have occupied := indexed.sound.occupied_iff.mp (forks.occupied block holds)
  obtain ⟨slotHolds, sameNumber, slot⟩ := indexed.sound.holds_getBlock occupied
  by_cases alone : getBlock env db block.number = block
  · rw [slot, alone]
  · obtain ⟨present, reached⟩ := forks.counted _ block slotHolds holds sameNumber alone
    have different : (getBlock env db block.number).hash ≠ block.hash :=
      fun same => alone (slotHolds.unique holds same)
    have forked := hasFork_of_slots holds.trips.facts.2.2 lower above
      ((indexed.slots _ _).mpr ⟨_, slotHolds, rfl, sameNumber⟩)
      ((indexed.slots _ _).mpr ⟨block, holds, rfl, rfl⟩) different
    have counted : 0 < (db.getLong .forkVariantCount).getD 0 := forks.positive present
    have latest : ((db.getLong .forkVariantLatestBlock).all
        (fun latest => checkpointBlock ≤ latest)) = true := by
      cases stored : db.getLong .forkVariantLatestBlock with
      | none => rfl
      | some latest =>
          rw [latestFork, stored, Option.getD_some, sameNumber] at reached
          exact decide_eq_true (above.trans reached)
    rw [forkBlocksCheckpoint, decide_eq_true counted, latest, forked] at unforked
    cases unforked

theorem forkBlocksCheckpoint_mono {earlier later : Int} (lower : 0 < earlier)
    (above : earlier ≤ later) (unforked : forkBlocksCheckpoint db earlier = false) :
    forkBlocksCheckpoint db later = false := by
  rw [← Bool.not_eq_true] at unforked ⊢
  intro blocked
  apply unforked
  rw [forkBlocksCheckpoint, Bool.and_eq_true, Bool.and_eq_true] at blocked ⊢
  obtain ⟨⟨counted, latest⟩, forked⟩ := blocked
  refine ⟨⟨counted, ?_⟩, ?_⟩
  · cases stored : db.getLong .forkVariantLatestBlock with
    | none => rfl
    | some fork =>
        rw [stored] at latest
        exact decide_eq_true (above.trans (of_decide_eq_true latest))
  · rw [hasForkVariantAtOrAfter, Bool.and_eq_true, Bool.not_eq_true', decide_eq_false_iff_not]
      at forked ⊢
    refine ⟨decide_eq_true lower, fun single => forked.2 ?_⟩
    have within : (slotNumbers db).filter (fun number => later ≤ number) =
        ((slotNumbers db).filter (fun number => earlier ≤ number)).filter
          (fun number => later ≤ number) := by
      rw [List.filter_filter]
      apply List.filter_congr
      intro number _
      by_cases reaches : later ≤ number
      · simp [reaches, above.trans reaches]
      · simp [reaches]
    rw [within]
    exact single.filter _

end Safire
