/-
Reading a database after writes: distinct keys have distinct texts, so a write
changes one key, and the lookups of blocks depend on the keys of blocks alone.
-/

import Safire.BestChain

namespace Safire

open Text

/-! ### Keys -/

private theorem eq_of_append_colon {first second : Int} {left right : Text}
    (same : ofLong first ++ ':' :: left = ofLong second ++ ':' :: right) :
    first = second ∧ left = right := by
  have absent : ∀ number, ':' ∉ ofLong number := by
    intro number member
    rcases mem_ofLong member with minus | digit
    · exact absurd minus (by decide)
    · exact absurd digit (by decide)
  rcases List.append_eq_append_iff.mp same with ⟨middle, grown, rest⟩ | ⟨middle, grown, rest⟩
  · cases middle with
    | nil =>
        rw [List.append_nil] at grown
        exact ⟨(ofLong_injective grown).symm, (List.cons.inj rest).2⟩
    | cons byte middle =>
        have head := (List.cons.inj rest).1
        exact absurd (by rw [grown, head]; simp) (absent second)
  · cases middle with
    | nil =>
        rw [List.append_nil] at grown
        exact ⟨ofLong_injective grown, (List.cons.inj rest).2.symm⟩
    | cons byte middle =>
        have head := (List.cons.inj rest).1
        exact absurd (by rw [grown, head]; simp) (absent first)

/-- A number for each key family. -/
def StoreKey.family : StoreKey → Nat
  | .block _ => 0
  | .canonical _ => 1
  | .legacyBlock _ => 2
  | .next _ => 3
  | .nextBlock _ => 4
  | .slot _ _ => 5
  | .chainMeta _ => 6
  | .firstBlockId => 7
  | .latestBlockId => 8
  | .forkVariantCount => 9
  | .forkVariantLatestBlock => 10
  | .reorgMeta _ => 11

/-- The family that the first bytes of a key name. -/
def keyFamily : Text → Nat
  | 'b' :: 'l' :: _ => 0
  | 'c' :: 'a' :: _ => 1
  | 'b' :: '_' :: _ => 2
  | 'n' :: 'e' :: 'x' :: 't' :: ':' :: _ => 3
  | 'n' :: 'e' :: 'x' :: 't' :: '_' :: _ => 4
  | 's' :: _ => 5
  | 'c' :: 'h' :: _ => 6
  | 'f' :: 'i' :: _ => 7
  | 'l' :: 'a' :: 't' :: _ => 8
  | 'f' :: 'o' :: _ :: _ :: _ :: _ :: _ :: _ :: _ :: _ :: _ :: _ :: _ :: 'c' :: _ => 9
  | 'f' :: _ => 10
  | _ => 11

theorem keyFamily_text (key : StoreKey) : keyFamily key.text = key.family := by
  cases key <;> rfl

theorem StoreKey.text_injective : Function.Injective StoreKey.text := by
  intro left right same
  have family : left.family = right.family := by
    rw [← keyFamily_text left, ← keyFamily_text right, same]
  -- keys of different families differ in their first bytes
  cases left <;> cases right <;> simp [StoreKey.family] at family
  case block.block => rw [List.append_cancel_left same]
  case canonical.canonical => rw [ofLong_injective (List.append_cancel_left same)]
  case legacyBlock.legacyBlock => rw [ofLong_injective (List.append_cancel_left same)]
  case next.next => rw [List.append_cancel_left same]
  case nextBlock.nextBlock => rw [ofLong_injective (List.append_cancel_left same)]
  case slot.slot number hash number' hash' =>
    have parts : "slot:".toList ++ (ofLong number ++ (":".toList ++ hash)) =
        "slot:".toList ++ (ofLong number' ++ (":".toList ++ hash')) := by
      rw [← List.append_assoc, ← List.append_assoc, ← List.append_assoc, ← List.append_assoc]
      exact same
    obtain ⟨rfl, rfl⟩ := eq_of_append_colon (List.append_cancel_left parts)
    rfl
  case chainMeta.chainMeta => rw [String.toList_inj.mp (List.append_cancel_left same)]
  case reorgMeta.reorgMeta => rw [String.toList_inj.mp (List.append_cancel_left same)]
  all_goals rfl

theorem isBlockEntry_text (key : StoreKey) :
    isBlockEntry key.text = decide (key.family = 0 ∨ key.family = 2) := by
  cases key <;> rfl

theorem isNextEntry_text (key : StoreKey) :
    isNextEntry key.text = decide (key.family = 3 ∨ key.family = 4) := by
  cases key <;> rfl

/-! ### Reads after writes -/

namespace LevelDb

variable {db : LevelDb} {key other : StoreKey} {value : Text} {number : Int}

theorem get_empty (key : StoreKey) : get ∅ key = [] := by
  simp [get]

@[simp] theorem get_put_self : (db.put key value).get key = value := by
  simp [get, put]

theorem get_put_of_ne (different : key ≠ other) : (db.put key value).get other = db.get other := by
  have texts : key.text ≠ other.text := fun same => different (StoreKey.text_injective same)
  simp [get, put, Std.ExtTreeMap.getD_insert, texts]

theorem get_put : (db.put key value).get other = if key = other then value else db.get other := by
  split
  · rename_i same
    rw [← same, get_put_self]
  · rename_i different
    exact get_put_of_ne different

theorem get_putLong_of_ne (different : key ≠ other) :
    (db.putLong key number).get other = db.get other :=
  get_put_of_ne different

theorem getLong_putLong_self (range : IsLong number) :
    (db.putLong key number).getLong key = some number := by
  rw [getLong, putLong, get_put_self, parseLongValue_ofLong range]

theorem put_comm {otherValue : Text} (different : key ≠ other) :
    (db.put key value).put other otherValue = (db.put other otherValue).put key value := by
  have texts : key.text ≠ other.text := fun same => different (StoreKey.text_injective same)
  refine Std.ExtTreeMap.ext_getElem? fun text => ?_
  simp only [put, Std.ExtTreeMap.getElem?_insert, Std.LawfulEqCmp.compare_eq_iff_eq]
  split
  · rename_i same
    rw [if_neg fun again => texts (again.trans same.symm)]
  · rfl

/-- Several writes, in order. -/
def putAll (db : LevelDb) (entries : List (StoreKey × Text)) : LevelDb :=
  entries.foldl (fun db entry => db.put entry.1 entry.2) db

theorem putAll_append (db : LevelDb) (first second : List (StoreKey × Text)) :
    db.putAll (first ++ second) = (db.putAll first).putAll second :=
  List.foldl_append

theorem putAll_snoc (db : LevelDb) (earlier : List (StoreKey × Text)) (last : StoreKey × Text) :
    db.putAll (earlier ++ [last]) = (db.putAll earlier).put last.1 last.2 :=
  putAll_append db earlier [last]

theorem getElem?_put : (db.put key value)[other.text]? =
    if key = other then some value else db[other.text]? := by
  rw [put, Std.ExtTreeMap.getElem?_insert]
  by_cases same : key = other
  · rw [if_pos same, same, if_pos Std.ReflCmp.compare_self]
  · have texts : key.text ≠ other.text := fun again => same (StoreKey.text_injective again)
    rw [if_neg same, if_neg (by rwa [Std.LawfulEqCmp.compare_eq_iff_eq])]

theorem get_eq_getD (db : LevelDb) (key : StoreKey) : db.get key = (db[key.text]?).getD [] :=
  Std.ExtTreeMap.getD_eq_getD_getElem?

/-- A key holds what it held before or what one of the entries writes. -/
theorem getElem?_putAll_cases (entries : List (StoreKey × Text)) :
    (db.putAll entries)[key.text]? = db[key.text]? ∨
      ∃ value, (key, value) ∈ entries ∧ (db.putAll entries)[key.text]? = some value := by
  induction entries using List.reverseRecOn with
  | nil => exact .inl rfl
  | append_singleton earlier last ih =>
      rw [putAll_snoc, getElem?_put]
      by_cases same : last.1 = key
      · rw [if_pos same]
        exact .inr ⟨last.2, by rw [← same]; exact List.mem_append_right _ (by simp), rfl⟩
      · rw [if_neg same]
        cases ih with
        | inl kept => exact .inl kept
        | inr written =>
            obtain ⟨value, member, found⟩ := written
            exact .inr ⟨value, List.mem_append_left _ member, found⟩

theorem getElem?_putAll_of_absent {entries : List (StoreKey × Text)}
    (absent : ∀ entry ∈ entries, entry.1 ≠ other) :
    (db.putAll entries)[other.text]? = db[other.text]? := by
  have placed : (db.putAll entries)[other.text]? = db[other.text]? ∨ _ :=
    getElem?_putAll_cases entries
  cases placed with
  | inl kept => exact kept
  | inr written =>
      obtain ⟨value, member, -⟩ := written
      exact absurd rfl (absent (other, value) member)

theorem get_putAll_of_absent {entries : List (StoreKey × Text)}
    (absent : ∀ entry ∈ entries, entry.1 ≠ other) : (db.putAll entries).get other = db.get other := by
  rw [get_eq_getD, get_eq_getD, getElem?_putAll_of_absent absent]

/-- Entries that agree on their keys can all be read back. -/
theorem get_putAll {entries : List (StoreKey × Text)}
    (agree : ∀ left ∈ entries, ∀ right ∈ entries, left.1 = right.1 → left.2 = right.2)
    (member : (key, value) ∈ entries) : (db.putAll entries).get key = value := by
  induction entries using List.reverseRecOn with
  | nil => cases member
  | append_singleton earlier last ih =>
      rw [putAll_snoc, get_put]
      split
      · rename_i same
        exact agree last (by simp) (key, value) member same
      · rename_i different
        refine ih (fun left leftMember right rightMember => agree left
          (List.mem_append_left _ leftMember) right (List.mem_append_left _ rightMember)) ?_
        rcases List.mem_append.mp member with old | new
        · exact old
        · rw [← List.mem_singleton.mp new] at different
          exact absurd rfl different

end LevelDb

/-! ### What the lookups depend on -/

section Frames

variable {env : Env} {left right : LevelDb}

theorem getBlockByHash_congr {hash : Text}
    (same : left.get (.block hash) = right.get (.block hash)) :
    getBlockByHash env left hash = getBlockByHash env right hash := by
  rw [getBlockByHash, getBlockByHash, same]

theorem getBlock_congr {number : Int}
    (slot : left.get (.canonical number) = right.get (.canonical number))
    (legacy : left.get (.legacyBlock number) = right.get (.legacyBlock number))
    (blocks : ∀ hash, left.get (.block hash) = right.get (.block hash)) :
    getBlock env left number = getBlock env right number := by
  simp only [getBlock, slot, legacy, getBlockByHash_congr (blocks _)]

theorem getFirstBlockId_congr
    (named : left.get (.chainMeta "first_block") = right.get (.chainMeta "first_block"))
    (plain : left.get .firstBlockId = right.get .firstBlockId) :
    getFirstBlockId left = getFirstBlockId right := by
  simp only [getFirstBlockId, named, plain]

theorem getLatestBlockId_congr
    (named : left.get (.chainMeta "latest_block") = right.get (.chainMeta "latest_block"))
    (plain : left.get .latestBlockId = right.get .latestBlockId) :
    getLatestBlockId left = getLatestBlockId right := by
  simp only [getLatestBlockId, named, plain]

theorem getStoredBlocks_congr
    (same : ∀ text, isBlockEntry text = true → left[text]? = right[text]?) :
    getStoredBlocks env left = getStoredBlocks env right := by
  have entries : ∀ db : LevelDb, db.toList.filter (fun entry => isBlockEntry entry.1) =
      (db.filter (fun text _ => isBlockEntry text)).toList :=
    fun db => (Std.ExtTreeMap.toList_filter (f := fun text _ => isBlockEntry text)).symm
  have filtered : left.filter (fun text _ => isBlockEntry text) =
      right.filter (fun text _ => isBlockEntry text) := by
    refine Std.ExtTreeMap.ext_getElem? fun text => ?_
    rw [Std.ExtTreeMap.getElem?_filter', Std.ExtTreeMap.getElem?_filter']
    cases isEntry : isBlockEntry text with
    | true => rw [same text isEntry]
    | false => simp
  rw [getStoredBlocks, getStoredBlocks, entries, entries, filtered]

/-- The next block depends on the links of its parent, apart from the number that is
looked up last. -/
theorem getNextBlock_of_nextId {block : Block}
    (stored : getStoredBlocks env left = getStoredBlocks env right)
    (contents : ∀ hash, left.get (.block hash) = right.get (.block hash))
    (slots : ∀ number, getBlock env left number = getBlock env right number)
    (link : left.get (.next block.hash) = right.get (.next block.hash))
    (index : left.get (.nextBlock block.number) = right.get (.nextBlock block.number))
    (nextId : getNextBlockId env left block.number = getNextBlockId env right block.number) :
    getNextBlock env left block = getNextBlock env right block := by
  have byHash : getBlockByHash env left = getBlockByHash env right :=
    funext fun hash => getBlockByHash_congr (contents hash)
  have bySlot : getBlock env left = getBlock env right := funext slots
  have linked : linkedNextBlock env left block = linkedNextBlock env right block := by
    unfold linkedNextBlock LevelDb.getLong
    rw [link, index, byHash, bySlot]
  have next : getNextBlockByHash env left block = getNextBlockByHash env right block := by
    unfold getNextBlockByHash
    rw [linked, stored]
  unfold getNextBlock
  rw [next, nextId, bySlot]

end Frames

/-! ### What a next block can be -/

section Lookups

variable {env : Env} {db : LevelDb} {motive : Block → Prop}
variable (missing : motive .missing) (byHash : ∀ hash, motive (getBlockByHash env db hash))
variable (byNumber : ∀ number, motive (getBlock env db number))
include missing byHash byNumber

theorem linkedNextBlock_of_lookups (block : Block) : motive (linkedNextBlock env db block) := by
  have linked : motive (if 0 < (db.get (.next block.hash)).length then
      getBlockByHash env db (db.get (.next block.hash)) else .missing) := by
    split
    · exact byHash _
    · exact missing
  unfold linkedNextBlock
  dsimp only
  generalize (if 0 < (db.get (.next block.hash)).length then
    getBlockByHash env db (db.get (.next block.hash)) else Block.missing) = found at linked ⊢
  split
  · exact linked
  · split
    · exact byNumber _
    · exact linked

variable (stored : ∀ block ∈ getStoredBlocks env db, motive block)
include stored

theorem getNextBlockByHash_of_lookups (block : Block) :
    motive (getNextBlockByHash env db block) := by
  have linked := linkedNextBlock_of_lookups missing byHash byNumber block
  unfold getNextBlockByHash
  split
  · exact missing
  · dsimp only
    split
    · exact linked
    · apply List.foldlRecOn (motive := motive)
      · exact linked
      · intro chosen held candidate listed
        split
        · exact stored candidate listed
        · exact held

/-- What holds of every block that a lookup returns holds of the next one. -/
theorem getNextBlock_of_lookups
    (unfound : ∀ block, motive block → motive { block with number := -1 }) (block : Block) :
    motive (getNextBlock env db block) := by
  unfold getNextBlock
  dsimp only
  split
  · exact getNextBlockByHash_of_lookups missing byHash byNumber stored block
  · split
    · exact byNumber _
    · exact unfound _ (byNumber _)

end Lookups

/-! ### What the writers change -/

/-- A run of writes to keys of one kind. -/
def Writes (kind : StoreKey → Prop) (db after : LevelDb) : Prop :=
  ∃ entries, after = db.putAll entries ∧ ∀ entry ∈ entries, kind entry.1

namespace Writes

variable {kind wider : StoreKey → Prop} {db middle after : LevelDb} {key : StoreKey}

theorem refl (db : LevelDb) : Writes kind db db :=
  ⟨[], rfl, by simp⟩

theorem trans (first : Writes kind db middle) (second : Writes kind middle after) :
    Writes kind db after := by
  obtain ⟨entries, rfl, allowed⟩ := first
  obtain ⟨later, rfl, allowedLater⟩ := second
  refine ⟨entries ++ later, (LevelDb.putAll_append _ _ _).symm, ?_⟩
  intro entry member
  rcases List.mem_append.mp member with early | late
  · exact allowed entry early
  · exact allowedLater entry late

theorem put (writes : Writes kind db after) {value : Text} (allowed : kind key) :
    Writes kind db (after.put key value) :=
  writes.trans ⟨[(key, value)], rfl, by simpa using allowed⟩

theorem mono (writes : Writes kind db after) (wide : ∀ key, kind key → wider key) :
    Writes wider db after := by
  obtain ⟨entries, same, allowed⟩ := writes
  exact ⟨entries, same, fun entry member => wide _ (allowed entry member)⟩

theorem getElem?_eq (writes : Writes kind db after) (kept : ¬ kind key) :
    after[key.text]? = db[key.text]? := by
  obtain ⟨entries, rfl, allowed⟩ := writes
  exact LevelDb.getElem?_putAll_of_absent fun entry member same => kept (same ▸ allowed entry member)

theorem get_eq (writes : Writes kind db after) (kept : ¬ kind key) :
    after.get key = db.get key := by
  rw [LevelDb.get_eq_getD, LevelDb.get_eq_getD, writes.getElem?_eq kept]

/-- Every text in the database comes from it or from a written key. -/
theorem mem (writes : Writes kind db after) {text : Text} (member : text ∈ after) :
    text ∈ db ∨ ∃ key : StoreKey, kind key ∧ key.text = text := by
  obtain ⟨entries, rfl, allowed⟩ := writes
  induction entries using List.reverseRecOn with
  | nil => exact .inl member
  | append_singleton earlier last ih =>
      rw [LevelDb.putAll_snoc] at member
      rcases Std.ExtTreeMap.mem_insert.mp member with same | old
      · rw [Std.LawfulEqCmp.compare_eq_iff_eq] at same
        exact .inr ⟨last.1, allowed last (by simp), same⟩
      · exact ih (fun entry early => allowed entry (List.mem_append_left _ early)) old

/-- A key that is not written is present exactly where it was before. -/
theorem mem_iff (writes : Writes kind db after) (kept : ¬ kind key) :
    key.text ∈ after ↔ key.text ∈ db := by
  rw [Std.ExtTreeMap.mem_iff_isSome_getElem?, Std.ExtTreeMap.mem_iff_isSome_getElem?,
    writes.getElem?_eq kept]

end Writes

/-- Keys of the chain ends, counters and checkpoints that no lookup of a block
and no reader of the first and latest numbers looks at. -/
def StoreKey.IsSide : StoreKey → Prop
  | .chainMeta name => name ≠ "first_block" ∧ name ≠ "latest_block"
  | .forkVariantCount | .forkVariantLatestBlock | .reorgMeta _ => True
  | _ => False

/-- Keys of blocks, slots and links. -/
def StoreKey.isChainData (key : StoreKey) : Bool :=
  decide (key.family < 6)

/-- The keys that `getLatestBlockId` reads. -/
def StoreKey.IsLatest (key : StoreKey) : Prop :=
  key = .latestBlockId ∨ key = .chainMeta "latest_block"

abbrev highestKey : StoreKey :=
  .chainMeta "stored_highest_block"

abbrev latestHashKey : StoreKey :=
  .chainMeta "latest_hash"

/-- The keys that `setLatestBlockId` writes. -/
def StoreKey.IsTip (key : StoreKey) : Prop :=
  key.IsLatest ∨ key = latestHashKey

/-- Side keys that neither the highest number nor the tip is read from. -/
def StoreKey.IsQuiet (key : StoreKey) : Prop :=
  key.IsSide ∧ key ≠ highestKey ∧ key ≠ latestHashKey

section Writers

variable {env : Env} {db after : LevelDb}

/-- Writes to other keys leave an entry alone. -/
theorem Writes.getElem?_of_text {kind : StoreKey → Prop} (writes : Writes kind db after)
    {text : Text} (other : ∀ key, kind key → key.text ≠ text) : after[text]? = db[text]? := by
  obtain ⟨entries, rfl, allowed⟩ := writes
  induction entries using List.reverseRecOn with
  | nil => rfl
  | append_singleton earlier last ih =>
      have different : last.1.text ≠ text := other _ (allowed last (by simp))
      rw [LevelDb.putAll_snoc, LevelDb.put, Std.ExtTreeMap.getElem?_insert,
        if_neg (by rwa [Std.LawfulEqCmp.compare_eq_iff_eq])]
      exact ih fun entry early => allowed entry (List.mem_append_left _ early)

/-- Writes to other keys leave the entries alone that are read as blocks. -/
theorem Writes.getElem?_of_entry {kind : StoreKey → Prop} (writes : Writes kind db after)
    (other : ∀ key, kind key → isBlockEntry key.text = false) {text : Text}
    (entry : isBlockEntry text = true) : after[text]? = db[text]? := by
  apply writes.getElem?_of_text
  intro key written same
  rw [← same, other key written] at entry
  cases entry

theorem Writes.getStoredBlocks_eq {kind : StoreKey → Prop} (writes : Writes kind db after)
    (other : ∀ key, kind key → isBlockEntry key.text = false) :
    getStoredBlocks env after = getStoredBlocks env db :=
  getStoredBlocks_congr fun _ entry => writes.getElem?_of_entry other entry

private theorem ofLong_length (number : Int) : (ofLong number).length ≠ 0 := by
  rw [ne_eq, List.length_eq_zero_iff]
  exact ofLong_ne_nil number

theorem writes_setFirstBlockId (db : LevelDb) (number : Int) :
    Writes (fun key => key = .firstBlockId ∨ key = .chainMeta "first_block") db
      (setFirstBlockId db number) :=
  ((Writes.refl db).put (.inl rfl)).put (.inr rfl)

theorem getFirstBlockId_setFirstBlockId {number : Int} (range : IsLong number) :
    getFirstBlockId (setFirstBlockId db number) = number := by
  have written : (setFirstBlockId db number).get (.chainMeta "first_block") = ofLong number :=
    LevelDb.get_put_self
  rw [getFirstBlockId, written, if_neg (ofLong_length number), parseLongValue_ofLong range]
  rfl

theorem tip_setLatestBlockId (db : LevelDb) (number : Int) :
    Writes StoreKey.IsTip db (setLatestBlockId env db number) := by
  unfold setLatestBlockId
  dsimp only
  have numbers : Writes StoreKey.IsTip db
      ((db.putLong .latestBlockId number).putLong (.chainMeta "latest_block") number) :=
    ((Writes.refl db).put (.inl (.inl rfl))).put (.inl (.inr rfl))
  split
  · exact numbers.put (.inr rfl)
  · exact numbers

theorem StoreKey.IsTip.latest_or_side {key : StoreKey} (tip : key.IsTip) :
    key.IsLatest ∨ key.IsSide := by
  cases tip with
  | inl latest => exact .inl latest
  | inr hashKey =>
      rw [hashKey]
      exact .inr ⟨by decide, by decide⟩

theorem getLatestBlockId_setLatestBlockId {number : Int} (range : IsLong number) :
    getLatestBlockId (setLatestBlockId env db number) = number := by
  have written : (setLatestBlockId env db number).get (.chainMeta "latest_block") =
      ofLong number := by
    unfold setLatestBlockId
    dsimp only
    split
    · rw [LevelDb.get_put_of_ne (by decide)]
      exact LevelDb.get_put_self
    · exact LevelDb.get_put_self
  rw [getLatestBlockId, written, if_neg (ofLong_length number), parseLongValue_ofLong range]
  rfl

/-- A name outside the chain ends, the highest number and the tip. -/
theorem quiet_chainMeta {name : String}
    (other : name ∉ ["first_block", "latest_block", "stored_highest_block", "latest_hash"]) :
    (StoreKey.chainMeta name).IsQuiet := by
  simp only [List.mem_cons, List.not_mem_nil, or_false, not_or] at other
  obtain ⟨first, latest, highest, hash⟩ := other
  exact ⟨⟨first, latest⟩, by simpa using highest, by simpa using hash⟩

/-- The keys of the validated checkpoint. -/
def StoreKey.IsCheckpoint (key : StoreKey) : Prop :=
  key = .chainMeta "validated_checkpoint_block" ∨ key = .chainMeta "validated_checkpoint_hash"

theorem StoreKey.IsCheckpoint.quiet {key : StoreKey} (checkpoint : key.IsCheckpoint) :
    key.IsQuiet := by
  cases checkpoint with
  | inl block =>
      rw [block]
      exact quiet_chainMeta (by decide)
  | inr hash =>
      rw [hash]
      exact quiet_chainMeta (by decide)

theorem checkpoint_maybeAdvanceValidatedCheckpoint (db : LevelDb) (tip : Block) :
    Writes StoreKey.IsCheckpoint db (maybeAdvanceValidatedCheckpoint env db tip) := by
  unfold maybeAdvanceValidatedCheckpoint
  dsimp only
  split
  · exact .refl db
  · split
    · exact .refl db
    · split
      · exact .refl db
      · split
        · exact .refl db
        · exact ((Writes.refl db).put (.inl rfl)).put (.inr rfl)

theorem quiet_maybeAdvanceValidatedCheckpoint (db : LevelDb) (tip : Block) :
    Writes StoreKey.IsQuiet db (maybeAdvanceValidatedCheckpoint env db tip) :=
  (checkpoint_maybeAdvanceValidatedCheckpoint db tip).mono fun _ => StoreKey.IsCheckpoint.quiet

theorem reorg_writeReorg (db : LevelDb) (now : Int) (reason : String) (previousTip newTip : Block) :
    Writes (fun key => ∃ name, key = .reorgMeta name) db
      (writeReorg db now reason previousTip newTip) := by
  unfold writeReorg
  split
  · exact (((((Writes.refl db).put ⟨_, rfl⟩).put ⟨_, rfl⟩).put ⟨_, rfl⟩).put ⟨_, rfl⟩
      |>.put ⟨_, rfl⟩).put ⟨_, rfl⟩
  · exact .refl db

theorem quiet_writeReorg (db : LevelDb) (now : Int) (reason : String)
    (previousTip newTip : Block) :
    Writes StoreKey.IsQuiet db (writeReorg db now reason previousTip newTip) := by
  apply (reorg_writeReorg db now reason previousTip newTip).mono
  intro key reorg
  obtain ⟨name, rfl⟩ := reorg
  exact ⟨trivial, by simp, by simp⟩

theorem quiet_countForkVariant (db : LevelDb) (block : Block) :
    Writes StoreKey.IsQuiet db (countForkVariant db block) := by
  have counted : ∀ value, Writes StoreKey.IsQuiet db (db.put .forkVariantCount value) :=
    fun value => Writes.put (.refl db) ⟨trivial, by simp, by simp⟩
  unfold countForkVariant
  dsimp only
  generalize (if 0 < (db.get .forkVariantCount).length then _ else _) = forkCount
  split
  · exact Writes.put (counted _) ⟨trivial, by simp, by simp⟩
  · exact counted _

theorem StoreKey.IsQuiet.side {key : StoreKey} (quiet : key.IsQuiet) : key.IsSide :=
  quiet.1

/-- Quiet writes are side writes. -/
theorem Writes.side (writes : Writes StoreKey.IsQuiet db after) : Writes StoreKey.IsSide db after :=
  writes.mono fun _ => StoreKey.IsQuiet.side

theorem writes_maybeAdvanceValidatedCheckpoint (db : LevelDb) (tip : Block) :
    Writes StoreKey.IsSide db (maybeAdvanceValidatedCheckpoint env db tip) :=
  (quiet_maybeAdvanceValidatedCheckpoint db tip).side

theorem writes_writeReorg (db : LevelDb) (now : Int) (reason : String)
    (previousTip newTip : Block) :
    Writes StoreKey.IsSide db (writeReorg db now reason previousTip newTip) :=
  (quiet_writeReorg db now reason previousTip newTip).side

theorem writes_countForkVariant (db : LevelDb) (block : Block) :
    Writes StoreKey.IsSide db (countForkVariant db block) :=
  (quiet_countForkVariant db block).side

private theorem side_highestKey {key : StoreKey} (highest : key = highestKey) : key.IsSide := by
  rw [highest]
  exact ⟨by decide, by decide⟩

theorem highest_maybeUpdateHighestStoredBlock (db : LevelDb) (number : Int) :
    Writes (fun key => key = highestKey) db (maybeUpdateHighestStoredBlock db number) := by
  unfold maybeUpdateHighestStoredBlock
  split
  · exact .refl db
  · split
    · split
      · exact Writes.put (.refl db) rfl
      · exact .refl db
    · exact Writes.put (.refl db) rfl

theorem highest_highestStoredBlock (db : LevelDb) :
    Writes (fun key => key = highestKey) db (highestStoredBlock env db).2 := by
  unfold highestStoredBlock
  split
  · exact .refl db
  · dsimp only
    split
    · exact Writes.put (.refl db) rfl
    · exact .refl db

theorem writes_maybeUpdateHighestStoredBlock (db : LevelDb) (number : Int) :
    Writes StoreKey.IsSide db (maybeUpdateHighestStoredBlock db number) :=
  (highest_maybeUpdateHighestStoredBlock db number).mono fun _ => side_highestKey

theorem writes_highestStoredBlock (db : LevelDb) :
    Writes StoreKey.IsSide db (highestStoredBlock env db).2 :=
  (highest_highestStoredBlock db).mono fun _ => side_highestKey

/-! ### Side writes -/

namespace Writes

variable (writes : Writes StoreKey.IsSide db after)
include writes

theorem chainData {key : StoreKey} (data : key.isChainData = true) :
    after.get key = db.get key := by
  refine writes.get_eq fun side => ?_
  cases key <;> simp [StoreKey.IsSide, StoreKey.isChainData, StoreKey.family] at side data

theorem getBlockByHash_side (hash : Text) :
    getBlockByHash env after hash = getBlockByHash env db hash :=
  getBlockByHash_congr (writes.chainData rfl)

theorem getBlock_side (number : Int) : getBlock env after number = getBlock env db number :=
  getBlock_congr (writes.chainData rfl) (writes.chainData rfl)
    (fun _ => writes.chainData rfl)

theorem getFirstBlockId_side : getFirstBlockId after = getFirstBlockId db :=
  getFirstBlockId_congr (writes.get_eq fun side => side.1 rfl) (writes.get_eq fun side => side)

theorem getLatestBlockId_side : getLatestBlockId after = getLatestBlockId db :=
  getLatestBlockId_congr (writes.get_eq fun side => side.2 rfl) (writes.get_eq fun side => side)

theorem getStoredBlocks_side : getStoredBlocks env after = getStoredBlocks env db := by
  refine writes.getStoredBlocks_eq fun key side => ?_
  rw [isBlockEntry_text]
  cases key <;> simp [StoreKey.IsSide, StoreKey.family] at side ⊢

end Writes

theorem tip_or_quiet {key : StoreKey} (written : key.IsTip ∨ key.IsQuiet) :
    key.IsLatest ∨ key.IsSide := by
  cases written with
  | inl tip => exact tip.latest_or_side
  | inr quiet => exact .inr quiet.side

/-- The last writes of a rebuild and of an adoption. -/
theorem tip_finishChain (db : LevelDb) (now : Int) (reason : String)
    (previousTip newTip : Block) :
    Writes (fun key => key.IsTip ∨ key.IsQuiet) db
      (finishChain env db now reason previousTip newTip) := by
  have quiet : ∀ {start finish : LevelDb}, Writes StoreKey.IsQuiet start finish →
      Writes (fun key => key.IsTip ∨ key.IsQuiet) start finish :=
    fun writes => writes.mono fun _ => .inr
  have latest : Writes (fun key => key.IsTip ∨ key.IsQuiet) db
      (setLatestBlockId env db newTip.number) :=
    (tip_setLatestBlockId db _).mono fun _ => .inl
  unfold finishChain
  dsimp only
  exact ((latest.put (.inr (quiet_chainMeta (by decide)))).trans
    (quiet (quiet_maybeAdvanceValidatedCheckpoint _ _))).trans (quiet (quiet_writeReorg _ _ _ _ _))

/-- They leave the chain data alone. -/
theorem writes_finishChain (db : LevelDb) (now : Int) (reason : String)
    (previousTip newTip : Block) :
    Writes (fun key => key.IsLatest ∨ key.IsSide) db
      (finishChain env db now reason previousTip newTip) := by
  exact (tip_finishChain db now reason previousTip newTip).mono fun _ => tip_or_quiet

theorem get_finishChain {now : Int} {reason : String} {previousTip newTip : Block}
    {key : StoreKey} (data : key.isChainData = true) :
    (finishChain env db now reason previousTip newTip).get key = db.get key := by
  refine (writes_finishChain db now reason previousTip newTip).get_eq ?_
  rintro ((rfl | rfl) | side)
  · exact absurd data (by decide)
  · exact absurd data (by decide)
  · cases key <;> simp [StoreKey.IsSide, StoreKey.isChainData, StoreKey.family] at side data

theorem getFirstBlockId_finishChain {now : Int} {reason : String} {previousTip newTip : Block} :
    getFirstBlockId (finishChain env db now reason previousTip newTip) = getFirstBlockId db := by
  have writes : Writes (fun key => key.IsLatest ∨ key.IsSide) db
      (finishChain env db now reason previousTip newTip) := writes_finishChain _ _ _ _ _
  refine getFirstBlockId_congr (writes.get_eq ?_) (writes.get_eq ?_)
  · rintro ((same | same) | side)
    · exact absurd same (by decide)
    · exact absurd same (by decide)
    · exact side.1 rfl
  · rintro ((same | same) | side)
    · exact absurd same (by decide)
    · exact absurd same (by decide)
    · exact side

theorem getLatestBlockId_finishChain {now : Int} {reason : String} {previousTip newTip : Block}
    (range : IsLong newTip.number) :
    getLatestBlockId (finishChain env db now reason previousTip newTip) = newTip.number := by
  unfold finishChain
  dsimp only
  rw [(writes_writeReorg _ _ _ _ _).getLatestBlockId_side,
    (writes_maybeAdvanceValidatedCheckpoint _ _).getLatestBlockId_side]
  have connected : Writes StoreKey.IsSide (setLatestBlockId env db newTip.number)
      ((setLatestBlockId env db newTip.number).putLong (.chainMeta "connected_latest")
        newTip.number) :=
    (Writes.refl _).put ⟨by decide, by decide⟩
  rw [connected.getLatestBlockId_side, getLatestBlockId_setLatestBlockId range]

end Writers

end Safire
