/-
`AddBlock` as the list of its writes, and a second call after an interruption.

The writes are not batched. The entry under the block hash comes first, and a call
that finds it returns at once, so what a call leaves out before it is interrupted is
never written by the next one.
-/

import Safire.StoreGrowth
import Safire.Library.Journal

namespace Safire

open Text ChainValidator

variable {env : Env} {db : LevelDb} {block : Block}

abbrev DbWrites := List (StoreKey × Text)

/-! ### The writes in their order -/

/-- The second writes read the database after the first. -/
def DbWrites.andThen (first : DbWrites) (second : LevelDb → DbWrites) (db : LevelDb) : DbWrites :=
  first ++ second (db.putAll first)

def highestWrites (db : LevelDb) (blockNumber : Int) : DbWrites :=
  if blockNumber ≤ 0 then []
  else
    match db.getLong (.chainMeta "stored_highest_block") with
    | some highest =>
        if highest < blockNumber then [(.chainMeta "stored_highest_block", ofLong blockNumber)]
        else []
    | none => [(.chainMeta "stored_highest_block", ofLong blockNumber)]

def storedWrites (env : Env) (db : LevelDb) (block : Block) : DbWrites :=
  DbWrites.andThen
    [(.block block.hash, blockJSON env block), (.slot block.number block.hash, block.hash)]
    (fun db => highestWrites db block.number) db

def canonicalWrites (env : Env) (block : Block) : DbWrites :=
  [(.canonical block.number, block.hash), (.legacyBlock block.number, blockJSON env block)]

def forkWrites (db : LevelDb) (block : Block) : DbWrites :=
  let stored := db.get .forkVariantCount
  let forkCount :=
    if 0 < stored.length then (parseLongValue stored).getD 0 + 1 else scanForkVariantCount db
  DbWrites.andThen [(.forkVariantCount, ofLong forkCount)]
    (fun counted =>
      if (counted.getLong .forkVariantLatestBlock).getD (-1) < block.number then
        [(.forkVariantLatestBlock, ofLong block.number)]
      else []) db

def nextIndexWrites (env : Env) (db : LevelDb) (block : Block) : DbWrites :=
  let existing := db.get (.nextBlock block.previousBlockId)
  if existing.length = 0 ∨ existing = ofLong block.number ∨
      (getBlock env db (atol existing)).number ≤ 0 then
    [(.nextBlock block.previousBlockId, ofLong block.number)]
  else []

def hashNextIndexWrites (env : Env) (db : LevelDb) (block : Block) : DbWrites :=
  let existing := db.get (.next block.previousBlockHash)
  if existing.length = 0 ∨ existing = block.hash ∨
      childConnectsToParent (getBlockByHash env db existing)
        (getBlockByHash env db block.previousBlockHash) = false then
    [(.next block.previousBlockHash, block.hash)]
  else []

def nextLinkWrites (env : Env) (db : LevelDb) (block : Block) : DbWrites :=
  if block.previousBlockId ≤ -1 then []
  else
    DbWrites.andThen (nextIndexWrites env db block)
      (fun indexed =>
        if 0 < block.previousBlockHash.length then hashNextIndexWrites env indexed block else []) db

def latestBlockIdWrites (env : Env) (db : LevelDb) (number : Int) : DbWrites :=
  DbWrites.andThen [(.latestBlockId, ofLong number), (.chainMeta "latest_block", ofLong number)]
    (fun written =>
      let latestBlock := getBlock env written number
      if 0 < latestBlock.hash.length then [(.chainMeta "latest_hash", latestBlock.hash)] else []) db

def checkpointWrites (env : Env) (db : LevelDb) (tip : Block) : DbWrites :=
  if tip.number ≤ 0 ∨ tip.hash.length = 0 ∨ blockEnvelopeIsValid env tip = false then []
  else
    let current := readValidatedCheckpoint db
    if current.any (fun checkpoint => tip.number - checkpoint.1 < validatedCheckpointDepth * 2) then
      []
    else
      let checkpoint := checkpointBelow env db validatedCheckpointDepth tip
      if checkpoint.number ≤ 0 ∨ checkpoint.hash.length = 0 then []
      else if current.any (fun previous => checkpoint.number ≤ previous.1) then []
      else
        [(.chainMeta "validated_checkpoint_block", ofLong checkpoint.number),
          (.chainMeta "validated_checkpoint_hash", checkpoint.hash)]

def latestWrites (env : Env) (db : LevelDb) (block : Block) : DbWrites :=
  let latestBlockId := getLatestBlockId db
  if block.previousBlockId ≤ 0 ∧ latestBlockId < 0 then latestBlockIdWrites env db block.number
  else if block.previousBlockId = latestBlockId then
    let latestBlock := getBlock env db latestBlockId
    if latestBlock.number = latestBlockId ∧ 0 < latestBlock.hash.length ∧
        latestBlock.hash = block.previousBlockHash then
      DbWrites.andThen (latestBlockIdWrites env db block.number)
        (fun moved => checkpointWrites env moved block) db
    else []
  else []

/-- The writes after those of the block itself. -/
def placingWrites (env : Env) (stored : LevelDb) (block : Block) : DbWrites :=
  let canonicalBlock := getBlock env stored block.number
  let sameSlotVariant := decide (0 < canonicalBlock.number)
  let shouldWriteCanonical :=
    decide (canonicalBlock.number ≤ 0) || preferBlockVariant block canonicalBlock
  DbWrites.andThen (if shouldWriteCanonical then canonicalWrites env block else [])
    (fun placed =>
      DbWrites.andThen (if sameSlotVariant then forkWrites placed block else [])
        (fun counted =>
          if sameSlotVariant && !shouldWriteCanonical then []
          else
            DbWrites.andThen (nextLinkWrites env counted block)
              (fun linked => latestWrites env linked block) counted) placed) stored

/-- The writes of an admitted block. -/
def blockWrites (env : Env) (db : LevelDb) (block : Block) : DbWrites :=
  DbWrites.andThen (storedWrites env db block) (fun stored => placingWrites env stored block) db

/-! ### The writes make the store -/

@[simp] theorem putAll_andThen (first : DbWrites) (second : LevelDb → DbWrites) :
    db.putAll (first.andThen second db) = (db.putAll first).putAll (second (db.putAll first)) :=
  LevelDb.putAll_append db first _

theorem putAll_highestWrites (number : Int) :
    db.putAll (highestWrites db number) = maybeUpdateHighestStoredBlock db number := by
  unfold highestWrites maybeUpdateHighestStoredBlock
  split
  · rfl
  · cases db.getLong (.chainMeta "stored_highest_block") with
    | none => rfl
    | some highest =>
        dsimp only
        split
        · rfl
        · rfl

theorem putAll_storedWrites :
    db.putAll (storedWrites env db block) = writeStored env db block := by
  rw [storedWrites, putAll_andThen, putAll_highestWrites]
  rfl

theorem putAll_forkWrites : db.putAll (forkWrites db block) = countForkVariant db block := by
  rw [forkWrites, putAll_andThen, countForkVariant]
  generalize (if 0 < (db.get .forkVariantCount).length then _ else _) = forkCount
  have counted : db.putAll [(.forkVariantCount, ofLong forkCount)] =
      db.putLong .forkVariantCount forkCount := rfl
  rw [counted]
  split
  · rfl
  · rfl

theorem putAll_nextIndexWrites :
    db.putAll (nextIndexWrites env db block) = writeNextIndex env db block := by
  unfold nextIndexWrites writeNextIndex
  dsimp only
  split
  · rfl
  · rfl

theorem putAll_hashNextIndexWrites :
    db.putAll (hashNextIndexWrites env db block) = writeHashNextIndex env db block := by
  unfold hashNextIndexWrites writeHashNextIndex
  dsimp only
  split
  · rfl
  · rfl

theorem putAll_nextLinkWrites :
    db.putAll (nextLinkWrites env db block) = writeNextLinks env db block := by
  unfold nextLinkWrites writeNextLinks
  split
  · rfl
  · rw [putAll_andThen, putAll_nextIndexWrites]
    dsimp only
    split
    · exact putAll_hashNextIndexWrites
    · rfl

theorem putAll_latestBlockIdWrites (number : Int) :
    db.putAll (latestBlockIdWrites env db number) = setLatestBlockId env db number := by
  rw [latestBlockIdWrites, putAll_andThen, setLatestBlockId]
  have named : db.putAll [(.latestBlockId, ofLong number),
      (.chainMeta "latest_block", ofLong number)] =
        (db.putLong .latestBlockId number).putLong (.chainMeta "latest_block") number := rfl
  rw [named]
  dsimp only
  split
  · rfl
  · rfl

theorem putAll_checkpointWrites (tip : Block) :
    db.putAll (checkpointWrites env db tip) = maybeAdvanceValidatedCheckpoint env db tip := by
  unfold checkpointWrites maybeAdvanceValidatedCheckpoint
  dsimp only
  split
  · rfl
  · split
    · rfl
    · split
      · rfl
      · split
        · rfl
        · rfl

theorem putAll_latestWrites :
    db.putAll (latestWrites env db block) = advanceLatest env db block := by
  unfold latestWrites advanceLatest
  dsimp only
  split
  · exact putAll_latestBlockIdWrites block.number
  · split
    · split
      · rw [putAll_andThen, putAll_latestBlockIdWrites]
        exact putAll_checkpointWrites block
      · rfl
    · rfl

theorem putAll_blockWrites : db.putAll (blockWrites env db block) = writeBlock env db block := by
  rw [blockWrites, putAll_andThen, putAll_storedWrites, placingWrites, writeBlock]
  generalize writeStored env db block = stored
  generalize decide (0 < (getBlock env stored block.number).number) = variant
  generalize (decide ((getBlock env stored block.number).number ≤ 0) ||
    preferBlockVariant block (getBlock env stored block.number)) = canonical
  have placed : stored.putAll (if canonical = true then canonicalWrites env block else []) =
      if canonical = true then writeCanonical env stored block else stored := by
    split
    · rfl
    · rfl
  rw [putAll_andThen, placed]
  generalize (if canonical = true then writeCanonical env stored block else stored) = middle
  have counted : middle.putAll (if variant = true then forkWrites middle block else []) =
      if variant = true then countForkVariant middle block else middle := by
    split
    · exact putAll_forkWrites
    · rfl
  rw [putAll_andThen, counted]
  generalize (if variant = true then countForkVariant middle block else middle) = last
  split
  · rfl
  · rw [putAll_andThen, putAll_nextLinkWrites, putAll_latestWrites]

/-! ### The order of the keys -/

/-- The keys that a block can be written under, in the order of the writes. -/
def blockKeys (block : Block) : List StoreKey :=
  [.block block.hash, .slot block.number block.hash, .chainMeta "stored_highest_block",
    .canonical block.number, .legacyBlock block.number, .forkVariantCount,
    .forkVariantLatestBlock, .nextBlock block.previousBlockId, .next block.previousBlockHash,
    .latestBlockId, .chainMeta "latest_block", .chainMeta "latest_hash",
    .chainMeta "validated_checkpoint_block", .chainMeta "validated_checkpoint_hash"]

theorem nodup_blockKeys (block : Block) : (blockKeys block).Nodup := by
  simp [blockKeys]

/-- The keys of the writes appear in a list of keys, in its order. -/
def DbWrites.Under (keys : List StoreKey) (writes : DbWrites) : Prop :=
  (writes.map Prod.fst).Sublist keys

theorem under_nil (keys : List StoreKey) : DbWrites.Under keys [] :=
  List.nil_sublist keys

theorem DbWrites.Under.andThen {early late : List StoreKey} {first : DbWrites}
    {second : LevelDb → DbWrites} (firstUnder : first.Under early)
    (secondUnder : ∀ db, (second db).Under late) : (first.andThen second db).Under (early ++ late) := by
  rw [DbWrites.Under, DbWrites.andThen, List.map_append]
  exact firstUnder.append (secondUnder _)

theorem under_highestWrites (number : Int) :
    (highestWrites db number).Under [.chainMeta "stored_highest_block"] := by
  unfold highestWrites
  split
  · exact under_nil _
  · split
    · split
      · exact .refl _
      · exact under_nil _
    · exact .refl _

theorem under_storedWrites : (storedWrites env db block).Under
    ([StoreKey.block block.hash, StoreKey.slot block.number block.hash] ++
      [StoreKey.chainMeta "stored_highest_block"]) := by
  apply DbWrites.Under.andThen
  · exact .refl _
  · exact fun db => under_highestWrites block.number

theorem under_forkWrites :
    (forkWrites db block).Under ([StoreKey.forkVariantCount] ++ [StoreKey.forkVariantLatestBlock]) := by
  unfold forkWrites
  apply DbWrites.Under.andThen
  · exact .refl _
  · intro counted
    split
    · exact .refl _
    · exact under_nil _

theorem under_nextLinkWrites : (nextLinkWrites env db block).Under
    ([StoreKey.nextBlock block.previousBlockId] ++ [StoreKey.next block.previousBlockHash]) := by
  unfold nextLinkWrites
  split
  · exact under_nil _
  · apply DbWrites.Under.andThen
    · unfold nextIndexWrites
      dsimp only
      split
      · exact .refl _
      · exact under_nil _
    · intro indexed
      split
      · unfold hashNextIndexWrites
        dsimp only
        split
        · exact .refl _
        · exact under_nil _
      · exact under_nil _

theorem under_latestBlockIdWrites (number : Int) : (latestBlockIdWrites env db number).Under
    ([StoreKey.latestBlockId, StoreKey.chainMeta "latest_block"] ++
      [StoreKey.chainMeta "latest_hash"]) := by
  apply DbWrites.Under.andThen
  · exact .refl _
  · intro written
    dsimp only
    split
    · exact .refl _
    · exact under_nil _

theorem under_checkpointWrites (tip : Block) : (checkpointWrites env db tip).Under
    [StoreKey.chainMeta "validated_checkpoint_block",
      StoreKey.chainMeta "validated_checkpoint_hash"] := by
  unfold checkpointWrites
  dsimp only
  split
  · exact under_nil _
  · split
    · exact under_nil _
    · split
      · exact under_nil _
      · split
        · exact under_nil _
        · exact .refl _

theorem under_latestWrites : (latestWrites env db block).Under
    (([StoreKey.latestBlockId, StoreKey.chainMeta "latest_block"] ++
        [StoreKey.chainMeta "latest_hash"]) ++
      [StoreKey.chainMeta "validated_checkpoint_block",
        StoreKey.chainMeta "validated_checkpoint_hash"]) := by
  unfold latestWrites
  dsimp only
  split
  · exact (under_latestBlockIdWrites block.number).trans (List.sublist_append_left _ _)
  · split
    · split
      · apply DbWrites.Under.andThen
        · exact under_latestBlockIdWrites block.number
        · exact fun moved => under_checkpointWrites block
      · exact under_nil _
    · exact under_nil _

theorem under_placingWrites : (placingWrites env db block).Under
    ([StoreKey.canonical block.number, StoreKey.legacyBlock block.number] ++
      (([StoreKey.forkVariantCount] ++ [StoreKey.forkVariantLatestBlock]) ++
        (([StoreKey.nextBlock block.previousBlockId] ++ [StoreKey.next block.previousBlockHash]) ++
          (([StoreKey.latestBlockId, StoreKey.chainMeta "latest_block"] ++
              [StoreKey.chainMeta "latest_hash"]) ++
            [StoreKey.chainMeta "validated_checkpoint_block",
              StoreKey.chainMeta "validated_checkpoint_hash"])))) := by
  unfold placingWrites
  dsimp only
  generalize decide (0 < (getBlock env db block.number).number) = variant
  generalize (decide ((getBlock env db block.number).number ≤ 0) ||
    preferBlockVariant block (getBlock env db block.number)) = canonical
  have slot : DbWrites.Under [StoreKey.canonical block.number, StoreKey.legacyBlock block.number]
      (if canonical = true then canonicalWrites env block else []) := by
    split
    · exact .refl _
    · exact under_nil _
  have forks : ∀ placed, DbWrites.Under ([StoreKey.forkVariantCount] ++ [StoreKey.forkVariantLatestBlock])
      (if variant = true then forkWrites placed block else []) := by
    intro placed
    split
    · exact under_forkWrites
    · exact under_nil _
  have links : ∀ counted, DbWrites.Under
      (([StoreKey.nextBlock block.previousBlockId] ++ [StoreKey.next block.previousBlockHash]) ++
        (([StoreKey.latestBlockId, StoreKey.chainMeta "latest_block"] ++
            [StoreKey.chainMeta "latest_hash"]) ++
          [StoreKey.chainMeta "validated_checkpoint_block",
            StoreKey.chainMeta "validated_checkpoint_hash"]))
      (if (variant && !canonical) = true then []
      else
        DbWrites.andThen (nextLinkWrites env counted block)
          (fun linked => latestWrites env linked block) counted) := by
    intro counted
    split
    · exact under_nil _
    · exact under_nextLinkWrites.andThen fun linked => under_latestWrites
  exact slot.andThen fun placed => (forks placed).andThen links

/-- A block is written under its keys in one order, and under none of them twice. -/
theorem under_blockWrites : (blockWrites env db block).Under (blockKeys block) := by
  unfold blockWrites
  have placed : ∀ stored, (placingWrites env stored block).Under _ :=
    fun stored => under_placingWrites
  exact under_storedWrites.andThen placed

theorem distinct_blockWrites : ((blockWrites env db block).map Prod.fst).Nodup :=
  (nodup_blockKeys block).sublist under_blockWrites

/-! ### The second call -/

/-- The keys that place a block: its slot, the links to it and the tip. -/
def StoreKey.Places : StoreKey → Prop
  | .canonical _ | .legacyBlock _ | .slot _ _ | .next _ | .nextBlock _ | .latestBlockId => True
  | .chainMeta name => name = "latest_block" ∨ name = "latest_hash"
  | _ => False

def SamePlaces (left right : LevelDb) : Prop :=
  ∀ key : StoreKey, key.Places → left[key.text]? = right[key.text]?

theorem Node.eta (node : Node) : (⟨node.db, node.caches⟩ : Node) = node := rfl

/-- A call that finds the block stored writes nothing. -/
def addBlockWrites (env : Env) (db : LevelDb) (block : Block) : DbWrites :=
  if 0 < (db.get (.block block.hash)).length then [] else blockWrites env db block

/-- The database after the first writes of an interrupted call. -/
def interruptedAdd (env : Env) (db : LevelDb) (block : Block) (cut : Nat) : LevelDb :=
  db.putAll ((addBlockWrites env db block).take cut)

theorem getElem?_putAll (writes : DbWrites) (key : StoreKey) :
    (db.putAll writes)[key.text]? =
      Journal.replay (fun key : StoreKey => db[key.text]?) writes key := by
  induction writes using List.reverseRecOn generalizing key with
  | nil => rfl
  | append_singleton earlier last ih =>
      rw [LevelDb.putAll_snoc, LevelDb.getElem?_put, Journal.replay_append]
      change _ = Journal.write _ last key
      unfold Journal.write
      by_cases same : last.1 = key
      · rw [if_pos same, same, Function.update_self]
      · rw [if_neg same, Function.update_of_ne (Ne.symm same), ih]

section Resumed

variable {ambient : Ambient} {node : Node}

/-- An accepted call makes all of its writes. -/
theorem addBlock_writes (accepted : (addBlock env ambient node block).1 = .ok ()) :
    checkAddedBlock env block = .ok () ∧
      (addBlock env ambient node block).2.db =
        node.db.putAll (addBlockWrites env node.db block) := by
  unfold addBlock at accepted ⊢
  cases checked : checkAddedBlock env block with
  | error reason =>
      rw [checked] at accepted
      cases accepted
  | ok value =>
      rw [checked] at accepted
      dsimp only at accepted ⊢
      refine ⟨rfl, ?_⟩
      unfold addBlockWrites
      split
      · rfl
      · rename_i absent
        rw [if_neg absent] at accepted
        generalize validateBlockForStorage env ambient node.db node.caches block = verdict
          at accepted ⊢
        obtain ⟨outcome, caches⟩ := verdict
        cases outcome with
        | error reason => cases accepted
        | ok value => exact putAll_blockWrites.symm

theorem addBlock_stored (checked : checkAddedBlock env block = .ok ())
    (stored : node.db.get (.block block.hash) ≠ []) :
    (addBlock env ambient node block).2.db = node.db := by
  unfold addBlock
  rw [checked]
  dsimp only
  rw [if_pos (List.length_pos_of_ne_nil stored)]

/-- The first write of a new block is its entry. -/
theorem interruptedAdd_stored {cut : Nat} (absent : db.get (.block block.hash) = [])
    (begun : cut ≠ 0) : (interruptedAdd env db block cut).get (.block block.hash) ≠ [] := by
  obtain ⟨more, rfl⟩ := Nat.exists_eq_succ_of_ne_zero begun
  have listed : (StoreKey.block block.hash, blockJSON env block) ∈
      (blockWrites env db block).take (more + 1) := by
    rw [blockWrites, storedWrites, DbWrites.andThen, DbWrites.andThen]
    simp
  rw [interruptedAdd, addBlockWrites, absent, if_neg (by simp), LevelDb.get_eq_getD,
    getElem?_putAll, Journal.replay_of_mem _ listed]
  · exact blockJSON_ne_nil env block
  · rw [List.map_take]
    exact distinct_blockWrites.sublist (List.take_sublist _ _)

/-- A second call after the first write changes nothing. -/
theorem addBlock_interrupted {retryAmbient : Ambient} {caches : Caches} {cut : Nat}
    (accepted : (addBlock env ambient node block).1 = .ok ()) (begun : cut ≠ 0) :
    (addBlock env retryAmbient ⟨interruptedAdd env node.db block cut, caches⟩ block).2.db =
      interruptedAdd env node.db block cut := by
  apply addBlock_stored (addBlock_writes accepted).1
  by_cases absent : node.db.get (.block block.hash) = []
  · exact interruptedAdd_stored absent begun
  · have nothing : addBlockWrites env node.db block = [] := by
      rw [addBlockWrites, if_pos (List.length_pos_of_ne_nil absent)]
    rwa [interruptedAdd, nothing, List.take_nil]

/-- The interruption comes before the first write, or each later write that places the
block repeats the value that its key had before the call. -/
def ResumesAt (env : Env) (db : LevelDb) (block : Block) (cut : Nat) : Prop :=
  cut = 0 ∨ ∀ entry ∈ (addBlockWrites env db block).drop cut, entry.1.Places →
    db[entry.1.text]? = some entry.2

theorem samePlaces_interruptedAdd_iff (cut : Nat) :
    SamePlaces (interruptedAdd env db block cut) (db.putAll (addBlockWrites env db block)) ↔
      ∀ entry ∈ (addBlockWrites env db block).drop cut, entry.1.Places →
        db[entry.1.text]? = some entry.2 := by
  have distinct : ((addBlockWrites env db block).map Prod.fst).Nodup := by
    unfold addBlockWrites
    split
    · exact List.nodup_nil
    · exact distinct_blockWrites
  rw [SamePlaces, interruptedAdd]
  simp only [getElem?_putAll]
  exact Journal.replay_take_agrees_iff distinct cut StoreKey.Places

end Resumed

/-- After an interruption, a second call leaves the places of an uninterrupted one if and
only if the condition holds at the cut. -/
theorem add_block_resumes_iff (env : Env) (ambient retryAmbient : Ambient) (node : Node)
    (retryCaches : Caches) (block : Block)
    (accepted : (addBlock env ambient node block).1 = .ok ())
    (again : (addBlock env retryAmbient ⟨node.db, retryCaches⟩ block).1 = .ok ()) (cut : Nat) :
    SamePlaces
        (addBlock env retryAmbient ⟨interruptedAdd env node.db block cut, retryCaches⟩ block).2.db
        (addBlock env ambient node block).2.db ↔
      ResumesAt env node.db block cut := by
  obtain ⟨checked, whole⟩ := addBlock_writes accepted
  rw [whole, ResumesAt]
  by_cases begun : cut = 0
  · subst begun
    have untouched : interruptedAdd env node.db block 0 = node.db := rfl
    rw [untouched, (addBlock_writes again).2]
    exact iff_of_true (fun _ _ => rfl) (.inl rfl)
  · rw [addBlock_interrupted accepted begun, samePlaces_interruptedAdd_iff, or_iff_right begun]

/-- A new block is never resumed after its first write: the second one is lost. -/
theorem not_resumed_after_entry {ambient retryAmbient : Ambient} {node : Node} {caches : Caches}
    (accepted : (addBlock env ambient node block).1 = .ok ())
    (absent : node.db.get (.block block.hash) = [])
    (unlisted : (StoreKey.slot block.number block.hash).text ∉ node.db) :
    ¬ SamePlaces
      (addBlock env retryAmbient ⟨interruptedAdd env node.db block 1, caches⟩ block).2.db
      (addBlock env ambient node block).2.db := by
  have second : (StoreKey.slot block.number block.hash, block.hash) ∈
      (addBlockWrites env node.db block).drop 1 := by
    rw [addBlockWrites, absent, if_neg (by simp), blockWrites, storedWrites, DbWrites.andThen,
      DbWrites.andThen]
    simp
  rw [addBlock_interrupted accepted Nat.one_ne_zero, (addBlock_writes accepted).2,
    samePlaces_interruptedAdd_iff]
  intro repeats
  apply unlisted
  rw [Std.ExtTreeMap.mem_iff_isSome_getElem?, repeats _ second trivial]
  rfl

namespace Sample

theorem reached_started : Reached Sample.env started.db := by
  have ran : runSteps Sample.env .empty
      [.addBlock sampleAmbient genesis, .setFirstBlockId genesis.number] = started :=
    runSteps_started []
  rw [← ran]
  apply reached_of_run
  intro step member
  have listed : step ∈ tipSteps genesis :=
    List.mem_append_left [ChainStep.addBlock sampleAmbient genesis] member
  exact (adds_tipSteps (List.mem_iff_getElem?.mpr ⟨0, rfl⟩) step listed).reads

/-- A child of the tip is accepted, and after an interruption behind its first write the
second call leaves it without a slot. -/
theorem interrupted_emptyBlock_unplaced :
    Reached Sample.env started.db ∧
      (addBlock Sample.env sampleAmbient started emptyBlock).1 = .ok () ∧
      ¬ SamePlaces
        (addBlock Sample.env sampleAmbient
          ⟨interruptedAdd Sample.env started.db emptyBlock 1, started.caches⟩ emptyBlock).2.db
        (addBlock Sample.env sampleAmbient started emptyBlock).2.db := by
  have accepted : (addBlock Sample.env sampleAmbient started emptyBlock).1 = .ok () := by
    rw [emptyBlock_added]
  refine ⟨reached_started, accepted, not_resumed_after_entry accepted ?_ ?_⟩
  · exact tracked_started.fresh (by decide)
  · rw [reached_started.slots]
    intro stored
    obtain ⟨block, holds, named, -⟩ := stored
    rw [List.mem_singleton.mp ((tracked_started.holds block).mp holds)] at named
    exact absurd named (by decide)

theorem emptyBlock_resumes_iff :
    SamePlaces
        (addBlock Sample.env sampleAmbient
          ⟨interruptedAdd Sample.env started.db emptyBlock 1, started.caches⟩ emptyBlock).2.db
        (addBlock Sample.env sampleAmbient started emptyBlock).2.db ↔
      ResumesAt Sample.env started.db emptyBlock 1 := by
  have accepted : (addBlock Sample.env sampleAmbient started emptyBlock).1 = .ok () := by
    rw [emptyBlock_added]
  have again : (addBlock Sample.env sampleAmbient ⟨started.db, started.caches⟩ emptyBlock).1 =
      .ok () := by
    rw [Node.eta]
    exact accepted
  exact add_block_resumes_iff Sample.env sampleAmbient sampleAmbient started started.caches emptyBlock
    accepted again 1

end Sample

end Safire
