/-
The slot lookups after a rebuild or an adoption.

Both operations write the slots of the chain that they install and clear none,
so a slot that only an abandoned branch used still answers with its block.
-/

import Safire.Lineage

namespace Safire

open Text ChainValidator

variable {env : Env} {db after : LevelDb} {chain : List Block}

/-- The lookups from the first slot on find the blocks of the chain and no others. -/
def SlotsFollow (env : Env) (db : LevelDb) (chain : List Block) : Prop :=
  ∀ number, getFirstBlockId db ≤ number →
    (0 < (getBlock env db number).number ↔ ∃ block ∈ chain, block.number = number) ∧
      ∀ block ∈ chain, block.number = number → getBlock env db number = block

/-- The used slots from the first one on are slots of the chain. -/
def SlotsCovered (env : Env) (db : LevelDb) (chain : List Block) : Prop :=
  ∀ number, getFirstBlockId db ≤ number → 0 < (getBlock env db number).number →
    ∃ block ∈ chain, block.number = number

/-- The slots of the chain hold its blocks. -/
def SlotsHold (env : Env) (db : LevelDb) (chain : List Block) : Prop :=
  ∀ block ∈ chain, getBlock env db block.number = block

/-- The slots of the chain are written and the others are kept. -/
structure SlotsWritten (env : Env) (db after : LevelDb) (chain : List Block) : Prop where
  own : SlotsHold env after chain
  kept : ∀ number, (∀ block ∈ chain, block.number ≠ number) →
    getBlock env after number = getBlock env db number

theorem slotsFollow_iff (positive : ∀ block ∈ chain, 0 < block.number)
    (above : ∀ block ∈ chain, getFirstBlockId db ≤ block.number) :
    SlotsFollow env db chain ↔ SlotsCovered env db chain ∧ SlotsHold env db chain := by
  constructor
  · intro follows
    constructor
    · exact fun number from_ used => (follows number from_).1.mp used
    · exact fun block member => (follows block.number (above block member)).2 block member rfl
  · rintro ⟨covered, holds⟩ number from_
    refine ⟨⟨covered number from_, ?_⟩, ?_⟩
    · rintro ⟨block, member, rfl⟩
      rw [holds block member]
      exact positive block member
    · rintro block member rfl
      exact holds block member

/-- After the slots of a chain are written, what was used before decides. -/
theorem SlotsWritten.follow_iff (written : SlotsWritten env db after chain)
    (first : getFirstBlockId after = getFirstBlockId db)
    (positive : ∀ block ∈ chain, 0 < block.number)
    (above : ∀ block ∈ chain, getFirstBlockId db ≤ block.number) :
    SlotsFollow env after chain ↔ SlotsCovered env db chain := by
  rw [slotsFollow_iff positive (by rwa [first]), and_iff_left written.own]
  have used : ∀ number, (0 < (getBlock env after number).number → ∃ block ∈ chain,
      block.number = number) ↔ (0 < (getBlock env db number).number → ∃ block ∈ chain,
      block.number = number) := by
    intro number
    by_cases listed : ∃ block ∈ chain, block.number = number
    · exact iff_of_true (fun _ => listed) fun _ => listed
    · rw [written.kept number fun block member same => listed ⟨block, member, same⟩]
  rw [SlotsCovered, first]
  simp only [used]
  rfl

/-! ### Written slots -/

theorem slotsWritten_writeChain (sound : Sound env db) (held : ∀ block ∈ chain, Holds env db block)
    (separate : Separate chain) : SlotsWritten env db (writeChain env db chain) chain where
  own := by
    intro block member
    have rewritten := (rewritten_writeChain chain sound held).1
    apply (rewritten.holds (held block member)).getBlock_eq
    rw [writeChain_eq]
    apply LevelDb.get_putAll (writtenEntries_agree separate)
    exact mem_writtenEntries.mpr (.inl ⟨block, member, List.mem_cons_self⟩)
  kept := by
    intro number absent
    have unwritten := @slots_unwritten env chain number absent
    have rewritten := (rewritten_writeChain chain sound held).1
    apply getBlock_congr _ _ rewritten.contents
    · rw [writeChain_eq, LevelDb.get_putAll_of_absent fun entry member => (unwritten entry member).1]
    · rw [writeChain_eq, LevelDb.get_putAll_of_absent fun entry member => (unwritten entry member).2]

theorem SlotsWritten.congr {start finish : LevelDb} (written : SlotsWritten env start finish chain)
    (before : ∀ number, getBlock env start number = getBlock env db number)
    (later : ∀ number, getBlock env after number = getBlock env finish number) :
    SlotsWritten env db after chain where
  own := fun block member => (later block.number).trans (written.own block member)
  kept := fun number absent =>
    ((later number).trans (written.kept number absent)).trans (before number)

/-- The kept front of an adopted branch stands in its slots already. -/
theorem getBlock_of_canonicalPart (sound : Sound env db) {branch : List Block}
    (held : ∀ block ∈ branch, Holds env db block) {block : Block}
    (member : block ∈ branch.take (canonicalPart env db branch)) :
    getBlock env db block.number = block := by
  rw [canonicalPart, ← List.prefix_iff_eq_take.mp (List.takeWhile_prefix _)] at member
  have canonical := List.mem_takeWhile_imp member
  simp only [Bool.and_eq_true, decide_eq_true_eq] at canonical
  have holds := held block ((List.takeWhile_sublist _).subset member)
  have found : 0 < (getBlock env db block.number).number := by
    rw [canonical.1]
    exact holds.trips.facts.1
  exact (sound.holds_getBlock found).1.unique holds canonical.2

theorem mem_of_adoptedPart {branch : List Block} {block : Block} (member : block ∈ branch) :
    block ∈ branch.take (canonicalPart env db branch) ∨ block ∈ adoptedPart env db branch := by
  rw [← List.take_append_drop (canonicalPart env db branch - 1) branch, List.mem_append] at member
  cases member with
  | inl front => exact .inl ((List.take_subset_take_left branch (Nat.sub_le _ 1)) front)
  | inr written => exact .inr written

theorem Adoptable.slotsWritten {tipHash : Text} {tip : Block} {branch : List Block}
    (adoptable : Adoptable env db tipHash tip branch) (sound : Sound env db) (now : Int)
    (reason : String) (previousTip : Block) :
    SlotsWritten env db (finishChain env (writeChain env db (adoptedPart env db branch)) now reason
      previousTip tip) branch := by
  have lineage := adoptable.lineage
  have held := lineage.held sound adoptable.holds
  have separate := lineage.separate sound adoptable.holds
  have part : Separate (adoptedPart env db branch) :=
    ⟨separate.numbers.sublist ((List.drop_sublist _ _).map _),
      separate.hashes.sublist ((List.drop_sublist _ _).map _)⟩
  have written := slotsWritten_writeChain sound (adoptable.adoptedPart_facts sound).2 part
  have moved : SlotsWritten env db (finishChain env (writeChain env db (adoptedPart env db branch))
      now reason previousTip tip) (adoptedPart env db branch) :=
    written.congr (fun _ => rfl) (writes_finishChain _ _ _ _ _).getBlock_ends
  constructor
  · intro block member
    by_cases late : block ∈ adoptedPart env db branch
    · exact moved.own block late
    · have early := (mem_of_adoptedPart member).resolve_right late
      rw [moved.kept]
      · exact getBlock_of_canonicalPart sound held early
      · intro other otherMember same
        exact late (separate.eq_of_number (List.mem_of_mem_drop otherMember) member same ▸
          otherMember)
  · intro number absent
    exact moved.kept number fun block member => absent block (List.mem_of_mem_drop member)

/-! ### The rebuilt chain -/

/-- A full rebuild makes the last block of the chosen chain the tip and writes its slots. -/
theorem Sound.rebuilt (sound : Sound env db) {now : Int}
    (full : (tryValidatedCheckpointFastPath env db).1 = none)
    (positive : 0 < (rebuildBestChainIndex env now db).1) :
    LongestAccepted env db (bestValidChain env db) ∧
      ∃ tip, Lineage env db tip (bestValidChain env db) ∧
        (rebuildBestChainIndex env now db).1 = tip.number ∧
        TipIs env (rebuildBestChainIndex env now db).2 tip ∧
        SlotsWritten env db (rebuildBestChainIndex env now db).2 (bestValidChain env db) := by
  obtain ⟨tip, last, number, written⟩ := rebuild_full now full positive
  have present : bestValidChain env db ≠ [] := by
    intro empty
    rw [empty] at last
    cases last
  have accepted := bestValidChain_accepts present
  have held := sound.bestValidChain_holds
  have side := writes_fastPath env db
  have attempted := side.aside.rewritten_aside sound
  have erased := attempted.trans (rewritten_eraseNextLinks attempted.sound)
  have slots := slotsWritten_writeChain erased.sound
    (fun block member => erased.holds (held block member)) separate_bestValidChain
  have moved : SlotsWritten env db (rebuildBestChainIndex env now db).2 (bestValidChain env db) := by
    rw [written]
    apply slots.congr
    · intro slot
      rw [← side.getBlock_side slot]
      exact getBlock_congr (get_eraseNextLinks rfl) (get_eraseNextLinks rfl)
        fun hash => get_eraseNextLinks rfl
    · exact (writes_finishChain _ _ _ _ _).getBlock_ends
  obtain ⟨genesis, rest, shape⟩ := List.exists_cons_of_ne_nil present
  have rooted := sound.storedGenesis (by rw [shape]; rfl)
  refine ⟨longestAccepted_bestValidChain rooted present, tip, ?_, number, ?_, moved⟩
  · exact lineage_of_accepts accepted (fun block member => (held block member).getBlockByHash_eq) last
  · have tipHolds := held tip (List.mem_of_getLast? last)
    rw [written]
    exact tipIs_finishChain tipHolds.trips (slots.own tip (List.mem_of_getLast? last)) _ _ _

/-! ### Operations that install a chain -/

/-- A full rebuild or an adoption that succeeds. -/
def ChainStep.Installs (env : Env) (db : LevelDb) : ChainStep → Prop
  | .addBlock _ _ => False
  | .setFirstBlockId _ => False
  | .rebuildBestChainIndex now =>
      (tryValidatedCheckpointFastPath env db).1 = none ∧
        0 < (Safire.rebuildBestChainIndex env now db).1
  | .adoptStoredChainEndingAtHash now tipHash =>
      (Safire.adoptStoredChainEndingAtHash env now db tipHash).1.isSome = true

theorem ChainStep.installs_adopt {now : Int} {tipHash : Text} :
    (ChainStep.adoptStoredChainEndingAtHash now tipHash).Installs env db ↔
      (Safire.adoptStoredChainEndingAtHash env now db tipHash).1.isSome = true := Iff.rfl

theorem ChainStep.adopt_db {node : Node} {now : Int} {tipHash : Text} :
    (ChainStep.apply env node (.adoptStoredChainEndingAtHash now tipHash)).db =
      (Safire.adoptStoredChainEndingAtHash env now node.db tipHash).2 := rfl

/-- The used slots before the operation are slots of the chain that it installs. An
adoption of the current tip writes nothing, so there the slots hold the branch. -/
def ChainStep.CoversSlots (env : Env) (db : LevelDb) : ChainStep → Prop
  | .addBlock _ _ => False
  | .setFirstBlockId _ => False
  | .rebuildBestChainIndex _ => ∃ chain, LongestAccepted env db chain ∧ SlotsCovered env db chain
  | .adoptStoredChainEndingAtHash _ tipHash =>
      ∃ branch, Lineage env db (getBlockByHash env db tipHash) branch ∧
        SlotsCovered env db branch ∧
        (TipIs env db (getBlockByHash env db tipHash) → SlotsHold env db branch)

theorem Lineage.above_head {tip : Block} (lineage : Lineage env db tip chain) {first : Int}
    (head : ∀ genesis, chain.head? = some genesis → genesis.number = first) :
    ∀ block ∈ chain, first ≤ block.number := by
  obtain ⟨genesis, found, -⟩ := lineage.head
  obtain ⟨rest, rfl⟩ := List.head?_eq_some_iff.mp found
  have sorted := List.pairwise_cons.mp lineage.sorted
  intro block member
  rw [← head genesis found]
  cases List.mem_cons.mp member with
  | inl same => rw [same]
  | inr later => exact (sorted.1 block later).le

theorem rebuild_slots_iff (reached : Reached env db) {now : Int}
    (full : (tryValidatedCheckpointFastPath env db).1 = none)
    (positive : 0 < (rebuildBestChainIndex env now db).1) :
    (∃ chain, CurrentChain env (rebuildBestChainIndex env now db).2 chain ∧
        SlotsFollow env (rebuildBestChainIndex env now db).2 chain) ↔
      ∃ chain, LongestAccepted env db chain ∧ SlotsCovered env db chain := by
  obtain ⟨longest, tip, lineage, -, tipIs, written⟩ := reached.sound.rebuilt full positive
  have rewritten := rewritten_rebuildBestChainIndex reached.sound now
  have current : ∀ chain, CurrentChain env (rebuildBestChainIndex env now db).2 chain ↔
      chain = bestValidChain env db := by
    intro chain
    rw [currentChain_of_tip tipIs, Lineage.of_rewritten rewritten]
    exact ⟨fun other => other.unique lineage, fun same => same ▸ lineage⟩
  have chosen : ∀ chain, LongestAccepted env db chain ↔ chain = bestValidChain env db :=
    fun chain => ⟨fun other => other.unique longest, fun same => same ▸ longest⟩
  have follow := written.follow_iff rewritten.first
    (fun block member => (reached.sound.bestValidChain_holds block member).trips.facts.1)
    (lineage.above_head fun genesis head => (reached.sound.storedGenesis head).2.1)
  simp only [current, chosen, exists_eq_left, follow]

theorem adopt_slots_iff (reached : Reached env db) {now : Int} {tipHash : Text}
    (success : (adoptStoredChainEndingAtHash env now db tipHash).1.isSome = true) :
    (∃ chain, CurrentChain env (adoptStoredChainEndingAtHash env now db tipHash).2 chain ∧
        SlotsFollow env (adoptStoredChainEndingAtHash env now db tipHash).2 chain) ↔
      ∃ branch, Lineage env db (getBlockByHash env db tipHash) branch ∧
        SlotsCovered env db branch ∧
        (TipIs env db (getBlockByHash env db tipHash) → SlotsHold env db branch) := by
  simp only [reached.adopted_chain success]
  apply exists_congr
  intro branch
  apply and_congr_right
  intro lineage
  rcases adopt_cases reached.sound now tipHash with
    refused | ⟨tip, other, adoptable, ⟨already, kept⟩ | ⟨moves, moved⟩⟩
  · rw [refused] at success
    cases success
  all_goals
    have found : getBlockByHash env db tipHash = tip := by
      rw [← adoptable.named, adoptable.holds.getBlockByHash_eq]
    rw [found] at lineage ⊢
    obtain rfl := lineage.unique adoptable.lineage
    have positive : ∀ block ∈ branch, 0 < block.number := fun block member =>
      (lineage.held reached.sound adoptable.holds block member).trips.facts.1
    have above := lineage.above_head adoptable.head
  · rw [kept, slotsFollow_iff positive above]
    exact and_congr_right fun _ => ⟨fun holds _ => holds, fun holds => holds already⟩
  · have rewritten := adoptable.rewritten reached.sound now "peer hash-linked tip adopted"
      (previousTipOf env db)
    rw [moved, (adoptable.slotsWritten reached.sound now _ _).follow_iff rewritten.first positive
      above]
    exact ⟨fun covered => ⟨covered, fun already => absurd already moves⟩, fun both => both.1⟩

/-- A used slot that no block of the adopted branch has is served after the adoption. -/
theorem abandoned_slot_served_of_adopts (reached : Reached env db) {now : Int} {tip : Block}
    (success : (adoptStoredChainEndingAtHash env now db tip.hash).1.isSome = true)
    (holds : Holds env db tip) {branch : List Block} (lineage : Lineage env db tip branch)
    {number : Int} (from_ : getFirstBlockId db ≤ number)
    (used : 0 < (getBlock env db number).number) (absent : ∀ block ∈ branch, block.number ≠ number) :
    ¬ ∃ chain, CurrentChain env (adoptStoredChainEndingAtHash env now db tip.hash).2 chain ∧
        SlotsFollow env (adoptStoredChainEndingAtHash env now db tip.hash).2 chain := by
  intro follows
  obtain ⟨other, own, covered, -⟩ := (adopt_slots_iff reached success).mp follows
  rw [holds.getBlockByHash_eq] at own
  rw [own.unique lineage] at covered
  obtain ⟨block, member, same⟩ := covered number from_ used
  exact absent block member same

/-- After a run that ends with a full rebuild or an adoption, the slot lookups
follow the installed chain if and only if that chain covers the used slots. -/
theorem slot_lookups_follow_iff (env : Env) (steps : List ChainStep)
    (reads : ∀ step ∈ steps, step.Adds (RoundTrips env)) (last : ChainStep)
    (installs : last.Installs env (runSteps env .empty steps).db) :
    (∃ chain, CurrentChain env (runSteps env .empty (steps ++ [last])).db chain ∧
        SlotsFollow env (runSteps env .empty (steps ++ [last])).db chain) ↔
      last.CoversSlots env (runSteps env .empty steps).db := by
  have reached := reached_of_run reads
  have run : runSteps env .empty (steps ++ [last]) = last.apply env (runSteps env .empty steps) := by
    rw [runSteps, List.foldl_append]
    rfl
  rw [run]
  cases last with
  | addBlock ambient block => exact absurd installs id
  | setFirstBlockId number => exact absurd installs id
  | rebuildBestChainIndex now => exact rebuild_slots_iff reached installs.1 installs.2
  | adoptStoredChainEndingAtHash now tipHash => exact adopt_slots_iff reached installs

/-! ### A slot of an abandoned branch -/

namespace Sample

/-- The adoption of an earlier sibling leaves the slot of the old tip in place. -/
theorem abandoned_slot_served :
    (∀ step ∈ besideSteps, step.Adds (RoundTrips Sample.env)) ∧
      (ChainStep.adoptStoredChainEndingAtHash 0 emptyBlock.hash).Installs Sample.env
        (runSteps Sample.env .empty besideSteps).db ∧
      ¬ ∃ chain, CurrentChain Sample.env (runSteps Sample.env .empty
          (besideSteps ++ [.adoptStoredChainEndingAtHash 0 emptyBlock.hash])).db chain ∧
        SlotsFollow Sample.env (runSteps Sample.env .empty
          (besideSteps ++ [.adoptStoredChainEndingAtHash 0 emptyBlock.hash])).db chain := by
  have known : ∀ block ∈ [genesis, emptyBlock], block ∈ [emptyBlock, laterBlock, genesis] := by
    simp
  have tip : [genesis, emptyBlock].getLast? = some emptyBlock := rfl
  have success := tracked_emptyBeside.adopts reached_emptyBeside accepts_emptyBlock known tip rfl 0
  have lineage := tracked_emptyBeside.lineage accepts_emptyBlock known tip
  have run : runSteps Sample.env .empty
      (besideSteps ++ [.adoptStoredChainEndingAtHash 0 emptyBlock.hash]) =
      ChainStep.apply Sample.env (runSteps Sample.env .empty besideSteps)
        (.adoptStoredChainEndingAtHash 0 emptyBlock.hash) := by
    rw [runSteps, List.foldl_append]
    rfl
  have from_ : getFirstBlockId (besideNode Sample.env (extended laterBlock) emptyBlock).db ≤
      laterBlock.number := by
    rw [tracked_emptyBeside.first]
    decide
  have used : 0 < (getBlock Sample.env (besideNode Sample.env (extended laterBlock) emptyBlock).db
      laterBlock.number).number := by
    rw [tracked_emptyBeside.tipSlot]
    decide
  have absent : ∀ block ∈ [genesis, emptyBlock], block.number ≠ laterBlock.number := by decide
  have holds := (tracked_emptyBeside.holds emptyBlock).mpr List.mem_cons_self
  rw [run, run_besideSteps]
  constructor
  · exact fun step member => (adds_besideSteps step member).reads
  constructor
  · exact ChainStep.installs_adopt.mpr success
  · rw [ChainStep.adopt_db]
    exact abandoned_slot_served_of_adopts reached_emptyBeside success holds lineage from_ used absent

/-- After a variant has taken the slot of the tip, the adoption of the first block
brings the chain back to it, and the slots follow. -/
theorem slot_lookups_follow_of_emptyBlock :
    (ChainStep.adoptStoredChainEndingAtHash 0 emptyBlock.hash).CoversSlots Sample.env
        (runSteps Sample.env .empty variantSteps).db ∧
      ¬ TipIs Sample.env (runSteps Sample.env .empty variantSteps).db emptyBlock ∧
      ∃ chain, CurrentChain Sample.env (runSteps Sample.env .empty
          (variantSteps ++ [.adoptStoredChainEndingAtHash 0 emptyBlock.hash])).db chain ∧
        SlotsFollow Sample.env (runSteps Sample.env .empty
          (variantSteps ++ [.adoptStoredChainEndingAtHash 0 emptyBlock.hash])).db chain := by
  have reads : ∀ step ∈ variantSteps, step.Adds (RoundTrips Sample.env) :=
    fun step member => (adds_variantSteps step member).reads
  have tracked := tracked_variantSteps
  have known : ∀ block ∈ [genesis, emptyBlock], block ∈ [duplicateBlock, emptyBlock, genesis] := by
    simp
  have installs : (ChainStep.adoptStoredChainEndingAtHash 0 emptyBlock.hash).Installs Sample.env
      (runSteps Sample.env .empty variantSteps).db :=
    ChainStep.installs_adopt.mpr
      (tracked.adopts (reached_of_run reads) accepts_emptyBlock known rfl rfl 0)
  have lookup : getBlockByHash Sample.env (runSteps Sample.env .empty variantSteps).db
      emptyBlock.hash = emptyBlock := ((tracked.holds emptyBlock).mpr (by simp)).getBlockByHash_eq
  have moved : ¬ TipIs Sample.env (runSteps Sample.env .empty variantSteps).db emptyBlock := by
    rintro ⟨-, same⟩
    rw [tracked.latest, tracked.tipSlot] at same
    exact absurd (congrArg (fun block => block.records.length) same) (by decide)
  have covers : (ChainStep.adoptStoredChainEndingAtHash 0 emptyBlock.hash).CoversSlots Sample.env
      (runSteps Sample.env .empty variantSteps).db := by
    refine ⟨[genesis, emptyBlock], ?_, ?_, ?_⟩
    · rw [lookup]
      exact tracked.lineage accepts_emptyBlock known rfl
    · intro number _ used
      obtain ⟨holds, same, -⟩ := tracked.sound.holds_getBlock used
      have slots : ∀ block ∈ [duplicateBlock, emptyBlock, genesis],
          ∃ other ∈ [genesis, emptyBlock], other.number = block.number := by decide
      obtain ⟨other, member, named⟩ := slots _ ((tracked.holds _).mp holds)
      exact ⟨other, member, named.trans same⟩
    · rw [lookup]
      exact fun tip => absurd tip moved
  exact ⟨covers, moved,
    (slot_lookups_follow_iff Sample.env variantSteps reads _ installs).mpr covers⟩

end Sample

end Safire
