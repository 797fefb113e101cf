/-
The walk over the links after an adoption.

An adoption rewrites its branch from the last canonical block on. The links in
front of that block stay as they were, although the canonical slots say nothing
about them, so the walk follows the branch exactly when those links lead along it.
-/

import Safire.InstalledWalk
import Safire.SlotLookups

namespace Safire

open Text ChainValidator

variable {env : Env} {db after : LevelDb} {block tip : Block} {branch : List Block}

/-! ### Databases that no lookup tells apart -/

theorem Filled.getElem?_congr {left right : LevelDb} (leftFilled : Filled left)
    (rightFilled : Filled right) {key : StoreKey} (data : key.isChainData = true)
    (same : left.get key = right.get key) : left[key.text]? = right[key.text]? := by
  rw [LevelDb.get_eq_getD, LevelDb.get_eq_getD] at same
  cases found : left[key.text]? with
  | none =>
      cases other : right[key.text]? with
      | none => rfl
      | some value =>
          rw [found, other, Option.getD_none, Option.getD_some] at same
          exact absurd (same ▸ other) (rightFilled key data)
  | some value =>
      cases other : right[key.text]? with
      | none =>
          rw [found, other, Option.getD_none, Option.getD_some] at same
          exact absurd (same ▸ found) (leftFilled key data)
      | some otherValue =>
          rw [found, other, Option.getD_some, Option.getD_some] at same
          rw [same]

theorem Sound.get_legacyBlock (sound : Sound env db) (number : Int) :
    db.get (.legacyBlock number) =
      if 0 < (getBlock env db number).number then blockJSON env (getBlock env db number) else [] := by
  rcases sound.getBlock_cases number with ⟨missing, -, legacy⟩ | ⟨holds, -, slot⟩
  · rw [missing, legacy]
    rfl
  · have present : db.get (.canonical number) ≠ [] := by
      rw [slot]
      exact holds.trips.facts.2.1
    obtain ⟨other, otherHolds, -, otherSlot, legacy⟩ := sound.slots number (.inl present)
    rw [otherHolds.getBlock_eq otherSlot, if_pos otherHolds.trips.facts.1, legacy]

theorem Sound.getStoredBlocks_congr {left right : LevelDb} (leftSound : Sound env left)
    (rightSound : Sound env right) (leftFilled : Filled left) (rightFilled : Filled right)
    (contents : ∀ hash, left.get (.block hash) = right.get (.block hash))
    (slots : ∀ number, getBlock env left number = getBlock env right number) :
    getStoredBlocks env left = getStoredBlocks env right := by
  have keys : ∀ key : StoreKey, isBlockEntry key.text = true → left[key.text]? = right[key.text]? := by
    intro key entry
    rw [isBlockEntry_text, decide_eq_true_eq] at entry
    cases key <;> simp only [StoreKey.family] at entry <;> try omega
    case block hash => exact leftFilled.getElem?_congr rightFilled rfl (contents hash)
    case legacyBlock number =>
      apply leftFilled.getElem?_congr rightFilled rfl
      rw [leftSound.get_legacyBlock, rightSound.get_legacyBlock, slots]
  apply Safire.getStoredBlocks_congr
  intro text entry
  by_cases known : ∃ key : StoreKey, key.text = text
  · obtain ⟨key, rfl⟩ := known
    exact keys key entry
  · have absent : ∀ {db : LevelDb}, Sound env db → db[text]? = none := by
      intro db sound
      exact Std.ExtTreeMap.getElem?_eq_none fun member => known (sound.keys text member)
    rw [absent leftSound, absent rightSound]

theorem getNextBlock_congr {left right : LevelDb}
    (stored : getStoredBlocks env left = getStoredBlocks env right)
    (contents : ∀ hash, left.get (.block hash) = right.get (.block hash))
    (slots : ∀ number, getBlock env left number = getBlock env right number)
    (own : getBlock env right block.number = block)
    (link : left.get (.next block.hash) = right.get (.next block.hash))
    (index : left.get (.nextBlock block.number) = right.get (.nextBlock block.number)) :
    getNextBlock env left block = getNextBlock env right block := by
  apply getNextBlock_of_nextId stored contents slots link index
  have byHash : getBlockByHash env left = getBlockByHash env right :=
    funext fun hash => getBlockByHash_congr (contents hash)
  unfold getNextBlockId LevelDb.getLong
  rw [index, slots, own, byHash]
  dsimp only
  rw [link]

/-! ### The branch in its slots -/

/-- The branch put into its slots. -/
def placeBranch (env : Env) (db : LevelDb) (branch : List Block) : LevelDb :=
  branch.foldl (writeCanonical env) db

theorem writes_placeBranch (env : Env) (db : LevelDb) (branch : List Block) :
    Writes (fun key => key.family = 1 ∨ key.family = 2) db (placeBranch env db branch) := by
  induction branch generalizing db with
  | nil => exact .refl db
  | cons block rest ih =>
      have slot : Writes (fun key => key.family = 1 ∨ key.family = 2) db
          (writeCanonical env db block) := by
        apply (writes_writeCanonical env db block).mono
        rintro key (rfl | rfl)
        · exact .inl rfl
        · exact .inr rfl
      exact slot.trans (ih _)

theorem get_placeBranch {key : StoreKey} (notCanonical : key.family ≠ 1)
    (notLegacy : key.family ≠ 2) : (placeBranch env db branch).get key = db.get key :=
  (writes_placeBranch env db branch).get_eq (not_or.mpr ⟨notCanonical, notLegacy⟩)

/-- The placed branch changes the slots of its blocks and nothing else. -/
theorem placed_branch {start : LevelDb} (sound : Sound env start) (filled : Filled start)
    (held : ∀ block ∈ branch, Holds env start block) (numbers : (branch.map Block.number).Nodup) :
    Sound env (placeBranch env start branch) ∧ Filled (placeBranch env start branch) ∧
      SlotsWritten env start (placeBranch env start branch) branch := by
  induction branch generalizing start with
  | nil => exact ⟨sound, filled, fun _ member => absurd member List.not_mem_nil, fun _ _ => rfl⟩
  | cons block rest ih =>
      rw [List.map_cons, List.nodup_cons] at numbers
      have holds := held block List.mem_cons_self
      have slot := getBlock_writeCanonical holds
      have kept : ∀ other ∈ rest, Holds env (writeCanonical env start block) other := by
        intro other member
        apply (held other (List.mem_cons_of_mem _ member)).congr
        exact (writes_writeCanonical env start block).get_eq (by simp)
      have filledSlot : Filled (writeCanonical env start block) :=
        (filled.put holds.trips.facts.2.1).put (blockJSON_ne_nil env block)
      obtain ⟨laterSound, laterFilled, later⟩ :=
        ih (sound.writeCanonical holds) filledSlot kept numbers.2
      refine ⟨laterSound, laterFilled, ?_, ?_⟩
      · intro other member
        cases List.mem_cons.mp member with
        | inl same =>
            rw [same]
            have own := later.kept block.number fun other listed same =>
              numbers.1 (List.mem_map.mpr ⟨other, listed, same⟩)
            rw [slot, if_pos rfl] at own
            exact own
        | inr listed => exact later.own other listed
      · intro number absent
        have first := absent block List.mem_cons_self
        have rest_ := later.kept number fun other listed =>
          absent other (List.mem_cons_of_mem _ listed)
        rw [slot, if_neg (Ne.symm first)] at rest_
        exact rest_

theorem SlotsWritten.getBlock_eq {other : LevelDb} (written : SlotsWritten env db after branch)
    (again : SlotsWritten env db other branch) (number : Int) :
    getBlock env after number = getBlock env other number := by
  by_cases listed : ∃ block ∈ branch, block.number = number
  · obtain ⟨block, member, rfl⟩ := listed
    rw [written.own block member, again.own block member]
  · have absent : ∀ block ∈ branch, block.number ≠ number :=
      fun block member same => listed ⟨block, member, same⟩
    rw [written.kept number absent, again.kept number absent]

/-! ### The links in front of the written part -/

namespace Adoptable

variable {tipHash : Text} (adoptable : Adoptable env db tipHash tip branch)
include adoptable

/-- The links of the written part are those of the branch. -/
theorem get_next_written (sound : Sound env db) {before rest : List Block} {parent child : Block}
    (place : branch = before ++ parent :: child :: rest)
    (late : canonicalPart env db branch ≤ before.length + 1) :
    (writeChain env db (adoptedPart env db branch)).get (.next parent.hash) = child.hash := by
  have separate := adoptable.lineage.separate sound adoptable.holds
  have part : Separate (adoptedPart env db branch) :=
    ⟨separate.numbers.sublist ((List.drop_sublist _ _).map _),
      separate.hashes.sublist ((List.drop_sublist _ _).map _)⟩
  have dropped : ∀ size ≤ before.length,
      branch.drop size = before.drop size ++ parent :: child :: rest := by
    intro size within
    rw [place, List.drop_append_of_le_length within]
  have split := dropped (canonicalPart env db branch - 1) (by omega)
  rw [writeChain_eq]
  apply LevelDb.get_putAll (writtenEntries_agree part)
  apply mem_writtenEntries.mpr
  exact .inr ⟨_, parent, child, rest, split, by simp [linkEntries]⟩

/-- A parent in front of the written part keeps its links. -/
theorem front_unwritten (sound : Sound env db) {before rest : List Block} {parent child : Block}
    (place : branch = before ++ parent :: child :: rest)
    (early : before.length + 1 < canonicalPart env db branch) :
    ∀ entry ∈ writtenEntries env (adoptedPart env db branch),
      entry.1 ≠ .next parent.hash ∧ entry.1 ≠ .nextBlock parent.number := by
  have separate := adoptable.lineage.separate sound adoptable.holds
  have taken : ∀ size, before.length < size → parent ∈ branch.take size := by
    intro size room
    obtain ⟨more, rfl⟩ := Nat.exists_eq_add_of_lt room
    rw [place, List.take_append, Nat.add_assoc, Nat.add_sub_cancel_left, List.take_succ_cons]
    exact List.mem_append_right _ List.mem_cons_self
  have front := taken (canonicalPart env db branch - 1) (by omega)
  have away : ∀ other ∈ adoptedPart env db branch, other ≠ parent := by
    intro other member same
    have nodup : branch.Nodup := List.Nodup.of_map _ separate.hashes
    rw [← List.take_append_drop (canonicalPart env db branch - 1) branch, List.nodup_append] at nodup
    exact nodup.2.2 parent front other member same.symm
  have parentMember : parent ∈ branch := List.mem_of_mem_take front
  intro entry member
  rcases mem_writtenEntries.mp member with ⟨own, -, entries⟩ | ⟨front, other, later, tail, split, link⟩
  · simp only [blockEntries, List.mem_cons, List.not_mem_nil, or_false] at entries
    rcases entries with rfl | rfl | rfl <;> exact ⟨by simp, by simp⟩
  · have listed : other ∈ adoptedPart env db branch := by
      rw [split]
      simp
    have different := away other listed
    have otherMember : other ∈ branch := List.mem_of_mem_drop listed
    simp only [linkEntries, List.mem_cons, List.not_mem_nil, or_false] at link
    rcases link with rfl | rfl
    · refine ⟨by simp, fun same => different ?_⟩
      injection same with numbers
      exact separate.eq_of_number otherMember parentMember numbers
    · refine ⟨fun same => different ?_, by simp⟩
      injection same with hashes
      exact separate.eq_of_hash otherMember parentMember hashes

end Adoptable

/-! ### The walk -/

/-- The links that the adoption leaves alone lead along the branch: those in front of
the last canonical block, read with the branch in its slots, and every link where
the tip is the tip already and nothing is written. -/
structure LinksKept (env : Env) (db : LevelDb) (tip : Block) (branch : List Block) : Prop where
  already : TipIs env db tip → LinksAlong env db branch
  front : ¬ TipIs env db tip → ∀ before parent child rest,
    branch = before ++ parent :: child :: rest → before.length + 1 < canonicalPart env db branch →
      getNextBlock env (placeBranch env db branch) parent = child

section Moved

variable {tipHash : Text} {now : Int} {reason : String} {previousTip : Block}

/-- Where the adoption writes, its links lead along the branch if and only if the
ones in front of the written part did. -/
theorem Adoptable.linksAlong_iff (adoptable : Adoptable env db tipHash tip branch)
    (reached : Reached env db)
    (again : Reached env (finishChain env (writeChain env db (adoptedPart env db branch)) now reason
      previousTip tip)) :
    LinksAlong env (finishChain env (writeChain env db (adoptedPart env db branch)) now reason
        previousTip tip) branch ↔
      ∀ before parent child rest, branch = before ++ parent :: child :: rest →
        before.length + 1 < canonicalPart env db branch →
        getNextBlock env (placeBranch env db branch) parent = child := by
  have lineage := adoptable.lineage
  have held := lineage.held reached.sound adoptable.holds
  have separate := lineage.separate reached.sound adoptable.holds
  have rewritten := adoptable.rewritten reached.sound now reason previousTip
  have written := adoptable.slotsWritten reached.sound now reason previousTip
  obtain ⟨placedSound, placedFilled, placed⟩ :=
    placed_branch reached.sound reached.filled held separate.numbers
  have contents : ∀ hash, (finishChain env (writeChain env db (adoptedPart env db branch)) now reason
      previousTip tip).get (.block hash) = (placeBranch env db branch).get (.block hash) := by
    intro hash
    rw [rewritten.contents, get_placeBranch (by simp [StoreKey.family]) (by simp [StoreKey.family])]
  have slots := written.getBlock_eq placed
  have stored := again.sound.getStoredBlocks_congr placedSound again.filled placedFilled contents slots
  have front : ∀ before parent child rest, branch = before ++ parent :: child :: rest →
      before.length + 1 < canonicalPart env db branch →
      getNextBlock env (finishChain env (writeChain env db (adoptedPart env db branch)) now reason
        previousTip tip) parent = getNextBlock env (placeBranch env db branch) parent := by
    intro before parent child rest place early
    have member : parent ∈ branch := by
      rw [place]
      simp
    have unwritten := adoptable.front_unwritten reached.sound place early
    apply getNextBlock_congr stored contents slots (placed.own parent member)
    · rw [get_finishChain rfl, writeChain_eq,
        LevelDb.get_putAll_of_absent fun entry listed => (unwritten entry listed).1,
        get_placeBranch (by simp [StoreKey.family]) (by simp [StoreKey.family])]
    · rw [get_finishChain rfl, writeChain_eq,
        LevelDb.get_putAll_of_absent fun entry listed => (unwritten entry listed).2,
        get_placeBranch (by simp [StoreKey.family]) (by simp [StoreKey.family])]
  constructor
  · intro links before parent child rest place early
    rw [← front before parent child rest place early]
    exact links.next before parent child rest place
  · intro kept
    constructor
    · intro genesis head
      rw [rewritten.first, ← adoptable.head genesis head]
      exact written.own genesis (List.mem_of_head? head)
    · intro before parent child rest place
      by_cases early : before.length + 1 < canonicalPart env db branch
      · rw [front before parent child rest place early]
        exact kept before parent child rest place early
      · have member : child ∈ branch := by
          rw [place]
          simp
        apply (rewritten.holds (held child member)).getNextBlock_eq
        · rw [get_finishChain rfl]
          exact adoptable.get_next_written reached.sound place (not_lt.mp early)
        · exact List.isChain_iff_forall_rel_of_append_cons_cons.mp lineage.linked place

end Moved

/-- A branch that starts in the first slot and ends at the tip. -/
theorem Lineage.walksAs_iff (lineage : Lineage env db tip branch) (sound : Sound env db)
    (holds : Holds env db tip) (latest : getLatestBlockId after = tip.number) :
    WalksAs env after branch ↔ LinksAlong env after branch := by
  have ascending : Ascending branch :=
    ⟨fun block member => (lineage.held sound holds block member).trips.facts.1, lineage.sorted⟩
  have present : branch ≠ [] := by
    intro empty
    have last := lineage.last
    rw [empty] at last
    cases last
  apply Safire.walksAs_iff ascending present
  intro other last
  rw [latest, Option.some.inj (lineage.last.symm.trans last)]

theorem adopt_walks_iff (reached : Reached env db) {now : Int} {tipHash : Text}
    (success : (adoptStoredChainEndingAtHash env now db tipHash).1.isSome = true)
    (lineage : Lineage env db (getBlockByHash env db tipHash) branch) :
    WalksAs env (adoptStoredChainEndingAtHash env now db tipHash).2 branch ↔
      LinksKept env db (getBlockByHash env db tipHash) branch := by
  have again := reached.adoptStoredChainEndingAtHash now tipHash
  rcases adopt_cases reached.sound now tipHash with
    refused | ⟨tip, other, adoptable, ⟨already, kept⟩ | ⟨moves, moved⟩⟩
  · rw [refused] at success
    cases success
  all_goals
    have found : getBlockByHash env db tipHash = tip := by
      rw [← adoptable.named, adoptable.holds.getBlockByHash_eq]
    rw [found] at lineage ⊢
    obtain rfl := lineage.unique adoptable.lineage
  · have latest : getLatestBlockId db = tip.number := by
      rw [← already.2, reached.tip already.1]
    rw [kept, lineage.walksAs_iff reached.sound adoptable.holds latest]
    exact ⟨fun links => ⟨fun _ => links, fun moves => absurd already moves⟩,
      fun links => links.already already⟩
  · rw [moved] at again ⊢
    rw [lineage.walksAs_iff reached.sound adoptable.holds
      (getLatestBlockId_finishChain adoptable.holds.trips.facts.2.2),
      adoptable.linksAlong_iff reached again]
    exact ⟨fun front => ⟨fun already => absurd already moves, fun _ => front⟩,
      fun links => links.front moves⟩

/-- After a successful adoption the walk from the first slot, and with it the blocks
that `build` folds, are the branch of the tip if and only if the links that the
adoption leaves alone lead along it and the guard of `build` leaves room for it. -/
theorem adoption_walk_iff (env : Env) (steps : List ChainStep)
    (reads : ∀ step ∈ steps, step.Adds (RoundTrips env)) (now : Int) (tipHash : Text)
    (success : (adoptStoredChainEndingAtHash env now (runSteps env .empty steps).db
      tipHash).1.isSome = true) (branch : List Block)
    (lineage : Lineage env (runSteps env .empty steps).db
      (getBlockByHash env (runSteps env .empty steps).db tipHash) branch) :
    (WalksAs env (adoptStoredChainEndingAtHash env now (runSteps env .empty steps).db tipHash).2
          branch ∧
        LedgerState.visitedBlocks env
          (adoptStoredChainEndingAtHash env now (runSteps env .empty steps).db tipHash).2 0 =
            branch) ↔
      LinksKept env (runSteps env .empty steps).db
          (getBlockByHash env (runSteps env .empty steps).db tipHash) branch ∧
        branch.length ≤ walkGuard := by
  have reached := reached_of_run reads
  rw [adopt_walks_iff reached success lineage, visitedBlocks_eq_storedWalk]
  apply and_congr_right
  intro links
  constructor
  · intro visited
    rw [← visited]
    exact length_walk_le walkGuard _
  · exact (adopt_walks_iff reached success lineage).mpr links walkGuard

namespace Sample

/-- A child on the started chain takes the link of the genesis block. -/
theorem link_extended {child : Block} (listed : child ∈ blocks)
    (accepted : Accepts Sample.env [genesis, child]) (later : genesis.number < child.number)
    (other : genesis.hash ≠ child.hash) (below : ¬ child.previousBlockId ≤ -1)
    (parent : child.previousBlockHash = genesis.hash)
    (reached : Reached Sample.env (extended child).db) :
    (extended child).db.get (.next genesis.hash) = child.hash := by
  have written : (extended child).db = writeBlock Sample.env started.db child := by
    simp only [extended]
  have trips : RoundTrips Sample.env child := roundTrips listed
  have fresh : started.db.get (.block child.hash) = [] := by
    refine tracked_started.fresh fun held member => ?_
    rwa [List.mem_singleton.mp member]
  have slots := (writeStored_facts tracked_started.sound trips fresh).2.2.1
  have takes : TakesSlot Sample.env (writeStored Sample.env started.db child) child := by
    apply (TakesSlot.congr (slots child.number)).mpr
    refine tracked_started.takesSlot fun held member => ?_
    rw [List.mem_singleton.mp member]
    exact later.ne
  have linked : (extended child).db.get (.next genesis.hash) ≠ [] := by
    have named : child.previousBlockHash ≠ [] := by
      rw [parent]
      decide
    rw [written, ← parent]
    exact linked_writeBlock takes trips.facts.2.1 below named
  obtain ⟨-, heir, holds, link, named⟩ := reached.links genesis.hash linked
  rw [← link]
  rcases List.mem_pair.mp (((tracked_extended accepted other listed).holds heir).mp holds) with
    same | same
  · rw [same]
  · rw [same] at named
    exact absurd named (by decide)

theorem link_variantSteps :
    (runSteps Sample.env .empty variantSteps).db.get (.next genesis.hash) = emptyBlock.hash := by
  have link := link_extended (List.mem_iff_getElem?.mpr ⟨4, rfl⟩) accepts_emptyBlock (by decide)
    (by decide) (by decide) rfl reached_extended_emptyBlock
  rw [run_variantSteps]
  have held := tracked_emptyBlock.holds
  apply keeps_link_writeBlock tracked_emptyBlock.sound
  · exact roundTrips (List.mem_iff_getElem?.mpr ⟨2, rfl⟩)
  · exact tracked_emptyBlock.fresh duplicateBlock_fits.unknown
  · exact (held emptyBlock).mpr List.mem_cons_self
  · exact (held genesis).mpr (List.mem_cons_of_mem _ List.mem_cons_self)
  · decide
  · exact link

/-! ### A sibling of the tip beside the links -/

theorem written_emptyBeside : Written Sample.env (extended laterBlock).db emptyBlock
    (besideNode Sample.env (extended laterBlock) emptyBlock).db := by
  have below : emptyBlock.previousBlockId < emptyBlock.number := by decide
  simp only [besideNode]
  exact tracked_laterBlock.written (roundTrips (List.mem_iff_getElem?.mpr ⟨4, rfl⟩))
    emptyBlock_fits.unknown below

theorem written_laterBlock : Written Sample.env started.db laterBlock (extended laterBlock).db := by
  have below : laterBlock.previousBlockId < laterBlock.number := by decide
  have unknown : ∀ other ∈ [genesis], other.hash ≠ laterBlock.hash := by decide
  simp only [extended]
  exact tracked_started.written (roundTrips (List.mem_iff_getElem?.mpr ⟨5, rfl⟩)) unknown below

theorem reached_extended_laterBlock : Reached Sample.env (extended laterBlock).db := by
  have run : runSteps Sample.env .empty (tipSteps laterBlock) = extended laterBlock := by
    rw [tipSteps, runSteps_started, runSteps_addBlock, laterBlock_added, runSteps_nil]
  rw [← run]
  exact reached_of_run fun step member =>
    (adds_tipSteps (List.mem_iff_getElem?.mpr ⟨5, rfl⟩) step member).reads

/-- The link of the genesis block stays with the first child. -/
theorem link_emptyBeside : (besideNode Sample.env (extended laterBlock) emptyBlock).db.get
    (.next genesis.hash) = laterBlock.hash := by
  have link := link_extended (List.mem_iff_getElem?.mpr ⟨5, rfl⟩) accepts_laterBlock (by decide)
    (by decide) (by decide) rfl reached_extended_laterBlock
  have held := tracked_laterBlock.holds
  simp only [besideNode]
  apply keeps_link_writeBlock tracked_laterBlock.sound
  · exact roundTrips (List.mem_iff_getElem?.mpr ⟨4, rfl⟩)
  · exact tracked_laterBlock.fresh emptyBlock_fits.unknown
  · exact (held laterBlock).mpr List.mem_cons_self
  · exact (held genesis).mpr (List.mem_cons_of_mem _ List.mem_cons_self)
  · decide
  · exact link

/-- Both blocks of the branch stand in their slots. -/
theorem canonicalPart_emptyBeside : canonicalPart Sample.env
    (besideNode Sample.env (extended laterBlock) emptyBlock).db [genesis, emptyBlock] = 2 := by
  have takes : TakesSlot Sample.env (extended laterBlock).db emptyBlock :=
    tracked_laterBlock.takesSlot (by decide)
  have own := written_emptyBeside.taken takes
  have first : getBlock Sample.env (besideNode Sample.env (extended laterBlock) emptyBlock).db
      genesis.number = genesis := by
    rw [written_emptyBeside.kept genesis.number (.inl (by decide)),
      written_laterBlock.kept genesis.number (.inl (by decide))]
    exact tracked_started.tipSlot
  simp [canonicalPart, own, first]

/-- The earlier sibling stands in its slot already, so its adoption writes no link, and
the genesis block still links to the old tip. -/
theorem sibling_walk_differs :
    (∀ step ∈ besideSteps, step.Adds (RoundTrips Sample.env)) ∧
      (adoptStoredChainEndingAtHash Sample.env 0 (runSteps Sample.env .empty besideSteps).db
        emptyBlock.hash).1.isSome = true ∧
      Lineage Sample.env (runSteps Sample.env .empty besideSteps).db emptyBlock
        [genesis, emptyBlock] ∧
      ¬ WalksAs Sample.env (adoptStoredChainEndingAtHash Sample.env 0
        (runSteps Sample.env .empty besideSteps).db emptyBlock.hash).2 [genesis, emptyBlock] := by
  have known : ∀ block ∈ [genesis, emptyBlock], block ∈ [emptyBlock, laterBlock, genesis] := by simp
  have tracked := tracked_emptyBeside
  have reached := reached_emptyBeside
  have part := canonicalPart_emptyBeside
  have link := link_emptyBeside
  have lineage := tracked.lineage accepts_emptyBlock known rfl
  rw [run_besideSteps]
  generalize (besideNode Sample.env (extended laterBlock) emptyBlock).db = db at *
  have success := tracked.adopts reached accepts_emptyBlock known rfl rfl 0
  refine ⟨fun step member => (adds_besideSteps step member).reads, success, lineage, fun walks => ?_⟩
  have holds := (tracked.holds emptyBlock).mpr (by simp)
  have tipLineage : Lineage Sample.env db (getBlockByHash Sample.env db emptyBlock.hash)
      [genesis, emptyBlock] := by
    rwa [holds.getBlockByHash_eq]
  have kept := (adopt_walks_iff reached success tipLineage).mp walks
  have moved : ¬ TipIs Sample.env db (getBlockByHash Sample.env db emptyBlock.hash) := by
    rw [holds.getBlockByHash_eq]
    rintro ⟨-, same⟩
    rw [tracked.latest, tracked.tipSlot] at same
    exact absurd (congrArg Block.number same) (by decide)
  have next := kept.front moved [] genesis emptyBlock [] rfl (by rw [part]; decide)
  have placed : Holds Sample.env (placeBranch Sample.env db [genesis, emptyBlock]) laterBlock := by
    apply ((tracked.holds laterBlock).mpr (by simp)).congr
    exact get_placeBranch (by simp [StoreKey.family]) (by simp [StoreKey.family])
  rw [placed.getNextBlock_eq ?_ (by decide)] at next
  · exact absurd (congrArg Block.number next) (by decide)
  · rw [get_placeBranch (by simp [StoreKey.family]) (by simp [StoreKey.family])]
    exact link

/-! ### The first block of a slot again -/

theorem lineage_duplicateBlock : Lineage Sample.env (runSteps Sample.env .empty variantSteps).db
    duplicateBlock [genesis, duplicateBlock] := by
  have held : getBlockByHash Sample.env (runSteps Sample.env .empty variantSteps).db
      duplicateBlock.previousBlockHash = genesis :=
    ((tracked_variantSteps.holds genesis).mpr (by simp)).getBlockByHash_eq
  have later : 0 < duplicateBlock.previousBlockId := by decide
  have connects : childConnectsToParent duplicateBlock (getBlockByHash Sample.env
      (runSteps Sample.env .empty variantSteps).db duplicateBlock.previousBlockHash) = true := by
    rw [held]
    decide
  have below : Lineage Sample.env (runSteps Sample.env .empty variantSteps).db
      (getBlockByHash Sample.env (runSteps Sample.env .empty variantSteps).db
        duplicateBlock.previousBlockHash) [genesis] := by
    rw [held]
    exact .genesis (by decide)
  exact .child later connects below

theorem adopts_emptyBlock_again : (adoptStoredChainEndingAtHash Sample.env 0
    (runSteps Sample.env .empty variantSteps).db emptyBlock.hash).1.isSome = true := by
  have reached := reached_of_run fun step member => (adds_variantSteps step member).reads
  exact tracked_variantSteps.adopts reached accepts_emptyBlock (by simp) rfl rfl 0

/-- After a variant has taken the slot of the tip, the adoption of the first block
brings the chain back to it. -/
theorem adoption_walks_emptyBlock :
    CurrentChain Sample.env (runSteps Sample.env .empty variantSteps).db [genesis, duplicateBlock] ∧
      LinksKept Sample.env (runSteps Sample.env .empty variantSteps).db
        (getBlockByHash Sample.env (runSteps Sample.env .empty variantSteps).db emptyBlock.hash)
        [genesis, emptyBlock] ∧
      WalksAs Sample.env (adoptStoredChainEndingAtHash Sample.env 0
        (runSteps Sample.env .empty variantSteps).db emptyBlock.hash).2 [genesis, emptyBlock] ∧
      LedgerState.visitedBlocks Sample.env (adoptStoredChainEndingAtHash Sample.env 0
        (runSteps Sample.env .empty variantSteps).db emptyBlock.hash).2 0 =
          [genesis, emptyBlock] := by
  have tracked := tracked_variantSteps
  have reads : ∀ step ∈ variantSteps, step.Adds (RoundTrips Sample.env) :=
    fun step member => (adds_variantSteps step member).reads
  have holds := (tracked.holds emptyBlock).mpr (by simp)
  have lookup : getBlockByHash Sample.env (runSteps Sample.env .empty variantSteps).db
      emptyBlock.hash = emptyBlock := holds.getBlockByHash_eq
  have lineage : Lineage Sample.env (runSteps Sample.env .empty variantSteps).db
      (getBlockByHash Sample.env (runSteps Sample.env .empty variantSteps).db emptyBlock.hash)
      [genesis, emptyBlock] := by
    rw [lookup]
    exact tracked.lineage accepts_emptyBlock (by simp) rfl
  have taken : canonicalPart Sample.env (runSteps Sample.env .empty variantSteps).db
      [genesis, emptyBlock] ≤ 1 := by
    have slot : getBlock Sample.env (runSteps Sample.env .empty variantSteps).db
        emptyBlock.number = duplicateBlock := tracked.tipSlot
    have hashes : duplicateBlock.hash ≠ emptyBlock.hash := by decide
    rw [canonicalPart, List.takeWhile_cons]
    split
    · rw [List.takeWhile_cons_of_neg (by simp [slot, hashes])]
      exact le_rfl
    · exact zero_le_one
  have kept : LinksKept Sample.env (runSteps Sample.env .empty variantSteps).db
      (getBlockByHash Sample.env (runSteps Sample.env .empty variantSteps).db emptyBlock.hash)
      [genesis, emptyBlock] := by
    constructor
    · rintro ⟨-, same⟩
      rw [tracked.latest, tracked.tipSlot, lookup] at same
      exact absurd (congrArg (fun block => block.records.length) same) (by decide)
    · intro _ before parent child rest _ early
      omega
  have walks := (adoption_walk_iff Sample.env variantSteps reads 0 emptyBlock.hash
    adopts_emptyBlock_again [genesis, emptyBlock] lineage).mpr ⟨kept, by decide⟩
  exact ⟨(currentChain_of_tip (tracked.tipIs List.mem_cons_self)).mpr lineage_duplicateBlock, kept,
    walks.1, walks.2⟩

end Sample

end Safire
