/-
The chain below the tip along the runs of a node.

The chain is accepted as long as the branch validator would have accepted every
block that took the tip, and as long as an adoption goes back to a block that was
on the chain before: adoption checks envelopes only. The storage validator speaks
for the branch validator on a tip whose chain the canonical index and the caches
show, and for the genesis block of the builder.
-/

import Safire.Lineage
import Safire.StoreGrowth

namespace Safire

open Text ChainValidator BestPath Loop

variable {env : Env} {db after : LevelDb}

/-! ### Accepted branches -/

/-- The branch validator accepts the ancestors of a block with the block. -/
def BranchAccepted (env : Env) (db : LevelDb) (block : Block) : Prop :=
  ∃ chain, Ancestry env db block chain ∧ Accepts env chain

/-- The chain below the tip is accepted. -/
def TipAccepted (env : Env) (db : LevelDb) : Prop :=
  0 < getLatestBlockId db → BranchAccepted env db (getBlock env db (getLatestBlockId db))

/-- The block is on the chain below the tip. -/
def BelowTip (env : Env) (db : LevelDb) (block : Block) : Prop :=
  0 < getLatestBlockId db ∧
    ∃ chain, Ancestry env db (getBlock env db (getLatestBlockId db)) chain ∧ block ∈ chain

theorem BranchAccepted.mono {block : Block} (accepted : BranchAccepted env db block)
    (kept : ∀ hash, 0 < (getBlockByHash env db hash).number →
      getBlockByHash env after hash = getBlockByHash env db hash) :
    BranchAccepted env after block := by
  obtain ⟨chain, ancestry, accepts⟩ := accepted
  exact ⟨chain, ancestry.mono kept, accepts⟩

theorem Rewritten.branchAccepted (rewritten : Rewritten env db after) {block : Block}
    (accepted : BranchAccepted env db block) : BranchAccepted env after block :=
  accepted.mono fun _ _ => getBlockByHash_congr (rewritten.contents _)

theorem Ancestry.getLast? {block : Block} {chain : List Block}
    (ancestry : Ancestry env db block chain) : chain.getLast? = some block := by
  cases ancestry with
  | genesis first => rfl
  | child named found below => simp

/-- The blocks of an ancestry have their own ancestors in it. -/
theorem Ancestry.to_member {tip block : Block} {chain before after : List Block}
    (ancestry : Ancestry env db tip chain) (place : chain = before ++ block :: after) :
    Ancestry env db block (before ++ [block]) := by
  induction ancestry generalizing after with
  | genesis first =>
      obtain ⟨rfl, rfl⟩ : before = [] ∧ after = [] := by
        have lengths := congrArg List.length place
        simp only [List.length_append, List.length_cons, List.length_nil] at lengths
        exact ⟨List.length_eq_zero_iff.mp (by omega), List.length_eq_zero_iff.mp (by omega)⟩
      obtain rfl := (List.cons.inj place).1
      exact .genesis first
  | child named found below ih =>
      rcases List.eq_nil_or_concat after with rfl | ⟨front, last, rfl⟩
      · obtain ⟨rfl, same⟩ := List.append_inj' place rfl
        obtain rfl := (List.cons.inj same).1
        exact .child named found below
      · rw [List.concat_eq_append, ← List.cons_append, ← List.append_assoc] at place
        exact ih (List.append_inj' place rfl).1

/-- A block below an accepted tip has an accepted branch. -/
theorem BelowTip.branchAccepted {block : Block} (below : BelowTip env db block)
    (accepted : TipAccepted env db) : BranchAccepted env db block := by
  obtain ⟨positive, chain, ancestry, member⟩ := below
  obtain ⟨same, found, accepts⟩ := accepted positive
  rw [found.unique ancestry] at accepts
  obtain ⟨before, after, place⟩ := List.append_of_mem member
  refine ⟨before ++ [block], ancestry.to_member place, ?_⟩
  obtain ⟨-, state, connected⟩ := accepts_iff.mp accepts
  rw [place, List.append_cons] at connected
  obtain ⟨reached, first⟩ := connectChain_prefix connected
  exact accepts_iff.mpr ⟨by simp, reached, first⟩

/-! ### The genesis block of a run -/

/-- A genesis block of the shape that the builder gives it. -/
structure StartsChain (block : Block) : Prop where
  parentless : block.previousBlockId ≤ 0
  unlinked : block.previousBlockHash = []
  shape : BuilderGenesis block

section Start

variable {block : Block} {indeterminate : Indeterminate} {temporary next : Temporary}
variable {progress : BranchState × TextSet} {record : Record}

/-- Both record loops over a genesis block have seen the same hashes. -/
structure HashesBeside (temporary : Temporary) (progress : BranchState × TextSet) : Prop where
  seen : temporary.blockRecordHashes = progress.2
  hashes : ∀ hash ∈ progress.1.acceptedRecordHashes, hash ∈ progress.2

theorem nameTaken_unassigned {name owner : Text} {owners : TextMap Text} (unowned : owners = ∅)
    (free : nameTakenByAnother (unassignedState indeterminate) name owner = false) :
    branchNameTakenByAnother owners name owner = false := by
  subst unowned
  unfold nameTakenByAnother at free
  unfold branchNameTakenByAnother
  dsimp only at free ⊢
  split_ifs at free ⊢ <;> simp_all

theorem joinedMembers_self {state : BranchState} :
    isBranchMember (joinedMembers block state record) record.senderPublicKey = true :=
  isBranchMember_iff.mpr (mem_joinedMembers.mpr (.inr rfl))

/-- A join or an issue that the storage validator admits in a genesis block is one
for the branch validator, while no name is claimed. -/
theorem connectTyped_start {state : BranchState}
    (kind : record.transactionType = .issueCurrency ∨
      record.transactionType = .joinNetwork ∧ state.nameOwners = ∅)
    (stored : storeTyped (enforcedRules true (unassignedState indeterminate)) block temporary
      record = .ok next) :
    ∃ branchNext, connectTyped block true state record = .ok branchNext ∧
      branchNext.acceptedRecordHashes = state.acceptedRecordHashes ∧
      (record.transactionType = .issueCurrency → branchNext.nameOwners = state.nameOwners) := by
  unfold storeTyped at stored
  unfold connectTyped
  rcases kind with kind | ⟨kind, unowned⟩
  · rw [kind] at stored ⊢
    unfold storeIssue at stored
    unfold connectIssue
    dsimp only at stored ⊢
    split_ifs at stored ⊢ with bounds paid
    exact ⟨_, rfl, rfl, fun _ => rfl⟩
  · rw [kind] at stored ⊢
    unfold storeJoin at stored
    unfold connectJoin
    dsimp only at stored ⊢
    simp only [enforcedRules, true_and, reduceCtorEq, false_and, if_false] at stored ⊢
    by_cases named : record.name = []
    · refine ⟨{ state with members := joinedMembers block state record }, ?_, rfl, ?_⟩
      · simp only [named, List.length_nil, lt_self_iff_false, false_and, if_false, if_true,
          joinedMembers]
      · intro issued
        cases issued
    · have free : nameTakenByAnother (unassignedState indeterminate) record.name
          record.senderPublicKey = false := by
        by_contra taken
        rw [Bool.not_eq_false] at taken
        rw [if_pos ⟨List.length_pos_of_ne_nil named, taken⟩] at stored
        cases stored
      have unclaimed := nameTaken_unassigned unowned free
      have member : isBranchMember (joinedMembers block state record) record.senderPublicKey =
          true := joinedMembers_self
      obtain ⟨renamed, owners, granted⟩ := claimBranchName_granted member named unclaimed
      rw [joinedMembers] at granted
      rw [if_neg (by simp [unclaimed]), if_neg (by simp [named]), granted]
      refine ⟨_, rfl, rfl, ?_⟩
      intro issued
      cases issued

theorem HashesBeside.step (beside : HashesBeside temporary progress)
    (kind : record.transactionType = .issueCurrency ∨
      record.transactionType = .joinNetwork ∧ progress.1.nameOwners = ∅)
    (stored : storeRecord env (enforcedRules true (unassignedState indeterminate)) block temporary
      record = .ok next) :
    ∃ branchNext, recordStep env block true progress record = .ok branchNext ∧
      HashesBeside next branchNext ∧ (record.transactionType = .issueCurrency →
        branchNext.1.nameOwners = progress.1.nameOwners) := by
  obtain ⟨hashed, signature, typed⟩ := storeRecord_ok_iff.mp stored
  obtain ⟨hashes, -, -⟩ := storeTyped_effect typed
  have accepting : record.transactionType = .issueCurrency ∨
      record.transactionType = .joinNetwork ∧ (acceptHash progress.1 record).nameOwners = ∅ := kind
  obtain ⟨branchNext, connected, kept, owners⟩ := connectTyped_start accepting typed
  have unseen : checkRecordHash env progress.2
      (progress.1.acceptedRecordHashes.contains record.hash) record = .ok () := by
    rw [checkRecordHash_ok_iff] at hashed ⊢
    rw [← beside.seen]
    refine ⟨hashed.1, hashed.2.1, hashed.2.2.1, hashed.2.2.2.1, ?_⟩
    rw [← Bool.not_eq_true, Std.ExtTreeSet.contains_iff_mem]
    intro accepted
    refine hashed.2.2.2.1 ?_
    rw [beside.seen]
    exact beside.hashes _ accepted
  refine ⟨(branchNext, progress.2.insert record.hash),
    recordStep_ok_iff.mpr ⟨connectRecord_ok_iff.mpr ⟨unseen, signature, connected⟩, rfl⟩,
    ⟨by rw [hashes, beside.seen], ?_⟩, owners⟩
  intro hash accepted
  dsimp only at accepted ⊢
  rw [kept, acceptHash] at accepted
  rw [Std.ExtTreeSet.mem_insert] at accepted ⊢
  exact accepted.imp_right (beside.hashes hash)

/-- The builder's genesis block that the storage validator admits is an accepted chain. -/
theorem StartsChain.accepts {ambient : Ambient} {caches : Caches} (starts : StartsChain block)
    (stored : (validateBlockForStorage env ambient db caches block).1 = .ok ()) :
    Accepts env [block] := by
  unfold validateBlockForStorage at stored
  cases envelope : checkEnvelope env block with
  | error reason =>
      rw [envelope] at stored
      cases stored
  | ok value =>
      rw [envelope] at stored
      dsimp only at stored
      rw [if_pos starts.parentless] at stored
      split at stored
      · cases stored
      · rename_i pinned
        have link : checkLink env [] .initial block = .ok () := by
          have rooted : ¬(0 < block.previousBlockId ∨ 0 < block.previousBlockHash.length) := by
            rw [starts.unlinked]
            simpa using starts.parentless
          change checkGenesisLink env block = .ok ()
          rw [checkGenesisLink, if_neg rooted, if_neg pinned]
        obtain ⟨finish, run⟩ := storeRecords_ok_iff.mp (storeUnderRules_ok_iff.mp stored)
        suffices connected : ∃ reached, block.records.foldlM (recordStep env block true)
            (.initial, ∅) = .ok reached by
          obtain ⟨⟨reached, seen⟩, branchRun⟩ := connected
          refine accepts_iff.mpr ⟨by simp, pushSnapshot block reached, ?_⟩
          change connectChain env ([] ++ [block]) = .ok _
          refine connectChain_snoc_ok_iff.mpr ⟨.initial, rfl, ?_⟩
          exact connectBlock_ok_iff.mpr ⟨checkHeader_ok_iff.mpr ⟨envelope, link⟩, reached,
            connectRecords_ok_iff.mpr ⟨seen, branchRun⟩, rfl⟩
        have beside : HashesBeside (.start (unassignedState ambient.indeterminate))
            (BranchState.initial, ∅) :=
          ⟨rfl, fun _ accepted => absurd accepted Std.ExtTreeSet.not_mem_empty⟩
        obtain ⟨join, issue, order, joins, -, issues⟩ := starts.shape
        rcases List.perm_pair.mp order with place | place
        · rw [place] at run ⊢
          obtain ⟨_, first, rest⟩ := run_cons_ok_iff.mp run
          obtain ⟨_, second, -⟩ := run_cons_ok_iff.mp rest
          obtain ⟨branchFirst, joined, besideFirst, -⟩ := beside.step (.inr ⟨joins, rfl⟩) first
          obtain ⟨branchSecond, issued, -, -⟩ := besideFirst.step (.inl issues) second
          exact ⟨branchSecond, run_cons_ok_iff.mpr ⟨branchFirst, joined,
            run_cons_ok_iff.mpr ⟨branchSecond, issued, rfl⟩⟩⟩
        · rw [place] at run ⊢
          obtain ⟨_, first, rest⟩ := run_cons_ok_iff.mp run
          obtain ⟨_, second, -⟩ := run_cons_ok_iff.mp rest
          obtain ⟨branchFirst, issued, besideFirst, unowned⟩ := beside.step (.inl issues) first
          obtain ⟨branchSecond, joined, -, -⟩ :=
            besideFirst.step (.inr ⟨joins, unowned issues⟩) second
          exact ⟨branchSecond, run_cons_ok_iff.mpr ⟨branchFirst, issued,
            run_cons_ok_iff.mpr ⟨branchSecond, joined, rfl⟩⟩⟩

end Start

/-! ### A block on the tip -/

/-- The block would become the block of the latest slot. -/
def TakesTip (env : Env) (db : LevelDb) (block : Block) : Prop :=
  TakesSlot env db block ∧ (ExtendsTip env db block ∨ block.number = getLatestBlockId db)

/-- The canonical index and the caches show the chain below the tip, and the
block on it is within the rules that both validators share. -/
structure CheckedOnTip (env : Env) (ambient : Ambient) (node : Node) (block : Block)
    (chain : List Block) (tip : Block) : Prop where
  isTip : TipIs env node.db tip
  ancestry : Ancestry env node.db tip chain
  stored : StoredAs env node.db chain
  shaped : BuilderShaped chain
  linked : block.previousBlockHash = tip.hash
  free : SlotFree env node.db block
  aligned : BlockAligned env node.db chain block
  coherent : LedgerState.CacheCoherent env node.db
    (parentStateFor env ambient node.db node.caches tip).2.ledgerStateCache
  parent : ∀ state, connectChain env chain = .ok state →
    ParentMatches env node.db chain (parentStateFor env ambient node.db node.caches tip).1 state

theorem CheckedOnTip.branchAccepted {ambient : Ambient} {node : Node} {block tip : Block}
    {chain : List Block} (checked : CheckedOnTip env ambient node block chain tip)
    (accepted : TipAccepted env node.db)
    (passed : (validateBlockForStorage env ambient node.db node.caches block).1 = .ok ()) :
    BranchAccepted env node.db block := by
  obtain ⟨below, ancestry, accepts⟩ := accepted checked.isTip.1
  rw [checked.isTip.2] at ancestry
  obtain rfl := ancestry.unique checked.ancestry
  have last := ancestry.getLast?
  obtain ⟨-, state, connected⟩ := accepts_iff.mp accepts
  have member := List.mem_of_getLast? last
  have extended : Accepts env (below ++ [block]) :=
    (validate_agrees_on_tip accepts checked.shaped checked.stored connected last checked.coherent
      (checked.parent state connected) checked.linked checked.free checked.aligned).mp passed
  refine ⟨below ++ [block], .child ?_ ?_ ?_, extended⟩
  · rw [checked.linked]
    exact hashes_of_connected connected tip member
  · rw [checked.linked, checked.stored.byHash tip member]
    exact (ascending_of_connected connected).positive tip member
  · rw [checked.linked, checked.stored.byHash tip member]
    exact ancestry

/-! ### What each operation keeps -/

/-- The store invariant of a run. -/
structure RunInvariant (env : Env) (db : LevelDb) : Prop where
  sound : Sound env db
  tip : TipAccepted env db

theorem RunInvariant.writeBlock {block : Block} (invariant : RunInvariant env db)
    (trips : RoundTrips env block) (fresh : db.get (.block block.hash) = [])
    (below : block.previousBlockId < block.number ∨ block.previousBlockId = -1)
    (accepted : TakesTip env db block → BranchAccepted env db block) :
    RunInvariant env (writeBlock env db block) := by
  have written := written_writeBlock invariant.sound trips fresh below
  have kept : ∀ hash, 0 < (getBlockByHash env db hash).number →
      getBlockByHash env (Safire.writeBlock env db block) hash = getBlockByHash env db hash := by
    intro hash found
    refine getBlockByHash_congr ?_
    rw [written.contents, if_neg]
    rintro rfl
    obtain ⟨holds, named⟩ := invariant.sound.holds_getBlockByHash found
    have stored := holds.stored
    rw [named, fresh] at stored
    exact blockJSON_ne_nil env _ stored.symm
  refine ⟨written.sound, fun positive => ?_⟩
  by_cases takes : TakesTip env db block
  · obtain ⟨slot, moves⟩ := takes
    have latest : getLatestBlockId (Safire.writeBlock env db block) = block.number := by
      by_cases extends_ : ExtendsTip env db block
      · exact written.extended slot extends_
      · rw [written.latest fun both => extends_ both.2]
        exact (moves.resolve_left extends_).symm
    rw [latest, written.taken slot]
    exact (accepted ⟨slot, moves⟩).mono kept
  · have latest : getLatestBlockId (Safire.writeBlock env db block) = getLatestBlockId db :=
      written.latest fun both => takes ⟨both.1, .inl both.2⟩
    rw [latest] at positive ⊢
    rw [written.kept]
    · exact (invariant.tip positive).mono kept
    · by_cases slot : TakesSlot env db block
      · exact .inl fun same => takes ⟨slot, .inr same.symm⟩
      · exact .inr slot

/-- A new tip with an accepted branch. -/
theorem RunInvariant.of_finishChain {middle : LevelDb} {newTip : Block}
    (rewritten : Rewritten env db middle) (range : IsLong newTip.number)
    (slot : getBlock env middle newTip.number = newTip)
    (accepted : BranchAccepted env db newTip) (now : Int) (reason : String) (previousTip : Block) :
    RunInvariant env (finishChain env middle now reason previousTip newTip) := by
  have writes : Writes (fun key => key.IsLatest ∨ key.IsSide) middle
      (finishChain env middle now reason previousTip newTip) := writes_finishChain _ _ _ _ _
  refine ⟨writes.sound_ends rewritten.sound, fun _ => ?_⟩
  rw [getLatestBlockId_finishChain range, writes.getBlock_ends, slot]
  exact (rewritten.trans (writes.rewritten_ends rewritten.sound)).branchAccepted accepted

theorem RunInvariant.side (invariant : RunInvariant env db)
    (writes : Writes StoreKey.IsAside db after) : RunInvariant env after := by
  refine ⟨writes.sound_aside invariant.sound, fun positive => ?_⟩
  rw [writes.getLatestBlockId_aside] at positive ⊢
  rw [writes.getBlock_aside]
  exact (writes.rewritten_aside invariant.sound).branchAccepted (invariant.tip positive)

theorem RunInvariant.setFirstBlockId (invariant : RunInvariant env db) (number : Int) :
    RunInvariant env (setFirstBlockId db number) := by
  refine ⟨invariant.sound.setFirstBlockId number, fun positive => ?_⟩
  rw [getLatestBlockId_setFirstBlockId] at positive ⊢
  rw [getBlock_setFirstBlockId]
  exact (invariant.tip positive).mono fun _ _ =>
    getBlockByHash_congr (setFirstBlockId_blockData db number rfl)

theorem RunInvariant.rebuildFully {previousTip : Block} (invariant : RunInvariant env db)
    (now : Int) : RunInvariant env (rebuildFully env now previousTip db).2 := by
  unfold Safire.rebuildFully
  dsimp only
  cases tip : (bestValidChain env db).getLast? with
  | none => exact invariant
  | some newTip =>
      have present : bestValidChain env db ≠ [] := by
        intro empty
        rw [empty] at tip
        cases tip
      have held := invariant.sound.bestValidChain_holds
      obtain ⟨written, slot⟩ := rewritten_bestValidChain invariant.sound
      refine .of_finishChain written (held newTip (List.mem_of_getLast? tip)).trips.facts.2.2
        (slot newTip tip) ?_ now _ _
      exact ⟨bestValidChain env db, ancestry_of_accepts (bestValidChain_accepts present)
        (fun block member => (held block member).getBlockByHash_eq) tip,
        bestValidChain_accepts present⟩

theorem RunInvariant.rebuildBestChainIndex (invariant : RunInvariant env db) (now : Int) :
    RunInvariant env (rebuildBestChainIndex env now db).2 := by
  have fast := invariant.side (writes_fastPath env db).aside
  unfold Safire.rebuildBestChainIndex
  split
  · exact invariant
  · generalize tryValidatedCheckpointFastPath env db = attempt at fast ⊢
    obtain ⟨verdict, attempted⟩ := attempt
    cases verdict with
    | some tip => exact fast
    | none => exact fast.rebuildFully now

theorem RunInvariant.adoptStoredChainEndingAtHash {tipHash : Text}
    (invariant : RunInvariant env db)
    (accepted : ∀ tip branch, Adoptable env db tipHash tip branch → BranchAccepted env db tip)
    (now : Int) : RunInvariant env (adoptStoredChainEndingAtHash env now db tipHash).2 := by
  rcases adopt_cases invariant.sound now tipHash with
    refused | ⟨tip, branch, adoptable, ⟨-, kept⟩ | ⟨-, moved⟩⟩
  · rw [refused]
    exact invariant
  · rw [kept]
    exact invariant
  · rw [moved]
    obtain ⟨last, held⟩ := adoptable.adoptedPart_facts invariant.sound
    obtain ⟨written, slot⟩ := rewritten_writeChain (adoptedPart env db branch) invariant.sound held
    exact .of_finishChain written adoptable.holds.trips.facts.2.2 (slot tip last)
      (accepted tip branch adoptable) now _ _

/-! ### Runs -/

/-- What a step must meet after the steps before it: an added block reads back, and
where it would take the tip it is the builder's genesis block or is checked on the
tip; where an adoption goes through, its block was below the tip at some time. -/
def ChainStep.Meets (env : Env) (before : List ChainStep) : ChainStep → Prop
  | .addBlock ambient block =>
      RoundTrips env block ∧
        (checkAddedBlock env block = .ok () →
          (runSteps env .empty before).db.get (.block block.hash) = [] →
          TakesTip env (runSteps env .empty before).db block →
          StartsChain block ∨
            ∃ chain tip, CheckedOnTip env ambient (runSteps env .empty before) block chain tip)
  | .setFirstBlockId _ => True
  | .rebuildBestChainIndex _ => True
  | .adoptStoredChainEndingAtHash _ tipHash =>
      ∀ tip branch, Adoptable env (runSteps env .empty before).db tipHash tip branch →
        ∃ earlier, earlier <+: before ∧ BelowTip env (runSteps env .empty earlier).db tip

def RunMeets (env : Env) (steps : List ChainStep) : Prop :=
  Runs.MeetsAfter (ChainStep.Meets env) steps

theorem runSteps_snoc (env : Env) (node : Node) (before : List ChainStep) (step : ChainStep) :
    runSteps env node (before ++ [step]) = step.apply env (runSteps env node before) := by
  rw [runSteps, List.foldl_append]
  rfl

theorem ChainStep.Meets.reads {before : List ChainStep} {step : ChainStep}
    (meets : step.Meets env before) : step.Adds (RoundTrips env) := by
  cases step with
  | addBlock ambient block => exact meets.1
  | setFirstBlockId _ | rebuildBestChainIndex _ | adoptStoredChainEndingAtHash _ _ => exact trivial

/-- A block that is stored at some time is stored at every later time. -/
theorem holds_runSteps {earlier rest : List ChainStep} {block : Block}
    (reads : ∀ step ∈ earlier ++ rest, step.Adds (RoundTrips env))
    (holds : Holds env (runSteps env .empty earlier).db block) :
    Holds env (runSteps env .empty (earlier ++ rest)).db block := by
  induction rest using List.reverseRecOn with
  | nil => rwa [List.append_nil]
  | append_singleton rest step ih =>
      rw [← List.append_assoc] at reads ⊢
      have front : ∀ other ∈ earlier ++ rest, other.Adds (RoundTrips env) :=
        fun other member => reads other (List.mem_append_left _ member)
      rw [runSteps_snoc]
      exact ChainStep.keeps_holds (reached_of_run front) step (ih front)

/-- The invariant at a time, with the blocks that its run added. -/
structure HoldsAfter (env : Env) (steps : List ChainStep) : Prop where
  reads : ∀ step ∈ steps, step.Adds (RoundTrips env)
  invariant : RunInvariant env (runSteps env .empty steps).db

theorem HoldsAfter.branchAccepted {earlier before : List ChainStep} {block : Block}
    (held : HoldsAfter env earlier) (start : earlier <+: before)
    (reads : ∀ step ∈ before, step.Adds (RoundTrips env))
    (below : BelowTip env (runSteps env .empty earlier).db block) :
    BranchAccepted env (runSteps env .empty before).db block := by
  obtain ⟨rest, rfl⟩ := start
  refine (below.branchAccepted held.invariant.tip).mono fun hash found => ?_
  obtain ⟨holds, named⟩ := held.invariant.sound.holds_getBlockByHash found
  have later := (holds_runSteps reads holds).getBlockByHash_eq
  rwa [named] at later

theorem HoldsAfter.step {before : List ChainStep} {step : ChainStep}
    (held : ∀ earlier, earlier <+: before → HoldsAfter env earlier)
    (meets : step.Meets env before) : HoldsAfter env (before ++ [step]) := by
  obtain ⟨reads, invariant⟩ := held before List.prefix_rfl
  refine ⟨fun other member => ?_, ?_⟩
  · rcases List.mem_append.mp member with old | new
    · exact reads other old
    · rw [List.mem_singleton.mp new]
      exact meets.reads
  rw [runSteps_snoc]
  cases step with
  | addBlock ambient block =>
      obtain ⟨trips, onTip⟩ := meets
      rcases addBlock_cases env ambient (runSteps env .empty before) block with
        unchanged | ⟨checked, fresh, passed, written⟩
      · rw [ChainStep.apply, unchanged]
        exact invariant
      · rw [ChainStep.apply, written]
        refine invariant.writeBlock trips fresh (checkAddedBlock_below checked) fun takes => ?_
        rcases onTip checked fresh takes with starts | ⟨chain, tip, checkedOnTip⟩
        · exact ⟨[block], .genesis starts.unlinked, starts.accepts passed⟩
        · exact checkedOnTip.branchAccepted invariant.tip passed
  | setFirstBlockId number => exact invariant.setFirstBlockId number
  | rebuildBestChainIndex now => exact invariant.rebuildBestChainIndex now
  | adoptStoredChainEndingAtHash now tipHash =>
      refine invariant.adoptStoredChainEndingAtHash (fun tip branch adoptable => ?_) now
      obtain ⟨earlier, start, below⟩ := meets tip branch adoptable
      exact (held earlier start).branchAccepted start reads below

theorem holdsAfter_nil (env : Env) : HoldsAfter env [] where
  reads := fun step none => absurd none List.not_mem_nil
  invariant :=
    { sound := sound_empty env
      tip := by
        intro positive
        have missing : getLatestBlockId Node.empty.db = -1 := by
          rw [getLatestBlockId, Node.empty, LevelDb.get_empty, LevelDb.get_empty]
          rfl
        rw [runSteps_nil, missing] at positive
        exact absurd positive (by decide) }

/-- In every run whose steps meet the condition, the chain below the tip is accepted
at all times. -/
theorem tip_accepted_of_run (env : Env) (steps : List ChainStep) (meets : RunMeets env steps) :
    ∀ earlier, earlier <+: steps → TipAccepted env (runSteps env .empty earlier).db := by
  intro earlier start
  have held : HoldsAfter env earlier :=
    Runs.invariant_of_past (holdsAfter_nil env) (fun _ _ => HoldsAfter.step) meets earlier start
  exact held.invariant.tip

/-! ### A variant of the tip -/

namespace Sample

/-- The state rules are skipped for the variant, and it replaces the tip. -/
theorem variant_tip_not_accepted :
    Function.Injective Sample.env.sha256 ∧ Sample.env.config.hasExpectedGenesis = true ∧
      0 < getLatestBlockId (runSteps Sample.env .empty variantSteps).db ∧
      ¬ TipAccepted Sample.env (runSteps Sample.env .empty variantSteps).db := by
  have tracked := tracked_variantSteps
  have positive : 0 < getLatestBlockId (runSteps Sample.env .empty variantSteps).db := by
    rw [tracked.latest]
    decide
  refine ⟨sha256_injective, by decide, positive, fun accepted => ?_⟩
  obtain ⟨chain, ancestry, accepts⟩ := accepted positive
  rw [tracked.latest, tracked.tipSlot] at ancestry
  have genesisHeld : getBlockByHash Sample.env (runSteps Sample.env .empty variantSteps).db
      duplicateBlock.previousBlockHash = genesis :=
    ((tracked.holds genesis).mpr (by simp)).getBlockByHash_eq
  have actual : Ancestry Sample.env (runSteps Sample.env .empty variantSteps).db duplicateBlock
      ([genesis] ++ [duplicateBlock]) := by
    refine .child (by decide) ?_ ?_
    · rw [genesisHeld]
      decide
    · rw [genesisHeld]
      exact .genesis rfl
  rw [ancestry.unique actual] at accepts
  exact duplicateBlock_not_accepted accepts

/-! A run that leaves the tip for its parent and comes back to it. -/

/-- The cached state of the genesis block is the branch state. -/
theorem parentMatches_started {state : BranchState}
    (connected : connectChain Sample.env [genesis] = .ok state) :
    ParentMatches Sample.env started.db [genesis] startedState state := by
  have noCarries : ∀ entry ∈ chainEntries [genesis],
      entry.2.transactionType ≠ .carryForward ∧ entry.2.transactionType ≠ .transferCurrency := by
    decide
  have named : ∀ entry ∈ startedState.names.toList, entry.2 ≠ [] := by decide +kernel
  have read {α : Type} (field : BranchState → α) {value : α}
      (shown : (connectChain Sample.env [genesis]).map field = .ok value) : field state = value := by
    rw [connected] at shown
    injection shown
  have names : state.members.map (fun member => (member.publicKey, member.name)) =
      startedState.names.toList :=
    read (fun state => state.members.map fun member => (member.publicKey, member.name))
      (by decide +kernel)
  have hashes : state.acceptedRecordHashes.toList = startedState.acceptedRecordHashes.toList :=
    read (fun state => state.acceptedRecordHashes.toList) (by decide +kernel)
  have balances : state.balances.toList = startedState.balances.toList :=
    read (fun state => state.balances.toList) (by decide +kernel)
  have nonces : state.nonces.toList = startedState.nonces.toList :=
    read (fun state => state.nonces.toList) (by decide +kernel)
  rw [Std.ExtTreeSet.toList_inj] at hashes
  rw [Std.ExtTreeMap.toList_inj] at balances nonces
  obtain ⟨members, flag⟩ := started_matches connected
  refine ⟨members, flag, fun key name => ?_, hashes.symm, fun key present => ?_, fun key => ?_⟩
  · rw [← Std.ExtTreeMap.mem_toList_iff_getElem?_eq_some]
    constructor
    · intro listed
      refine ⟨named _ listed, ?_⟩
      rw [← names] at listed
      obtain ⟨member, inMembers, pair⟩ := List.mem_map.mp listed
      injection pair with own own'
      exact ⟨member, inMembers, own, own'⟩
    · rintro ⟨-, member, inMembers, rfl, rfl⟩
      rw [← names]
      exact List.mem_map_of_mem inMembers
  · have beside : LedgerBeside Sample.env started.db (chainEntries [genesis]) state :=
      ⟨LedgerState.amountsRelated_of_connected connected _ [] 0 0,
        LedgerState.balancesSummed_of_connected connected _ [] 0 0⟩
    have branch := beside.balance present
    rw [BranchState.balance, balances, LedgerState.openedBy_of_unselected] at branch
    · rw [branch, LedgerState.openedBy_of_unselected]
      exact fun entry member kind => absurd kind (noCarries entry member).1
    · exact fun entry member kind => absurd kind (noCarries entry member).1
  · rw [BranchState.nonce, nonces]
    refine iff_of_true rfl fun entry member kind => ?_
    exact absurd kind (noCarries entry member).2

/-- A node on the genesis block whose caches know it. -/
structure OnGenesis (node : Node) : Prop where
  db : node.db = started.db
  states : node.caches.validationStateByBlockHash = started.caches.validationStateByBlockHash
  coherent : LedgerState.CacheCoherent Sample.env started.db node.caches.ledgerStateCache

theorem onGenesis_started : OnGenesis started where
  db := rfl
  states := rfl
  coherent := by
    rw [started_caches]
    exact LedgerState.cacheCoherent_empty

theorem OnGenesis.parentState {node : Node} (on : OnGenesis node) (ambient : Ambient) :
    parentStateFor Sample.env ambient started.db node.caches genesis =
      (startedState, node.caches) := by
  refine parentStateFor_cached ?_ (by decide) (by decide) ?_ ?_
  · rw [on.states, started_caches]
  · decide +kernel
  · decide +kernel

/-- A child of the genesis block in a free slot stands on the tip of such a node. -/
theorem OnGenesis.checkedOnTip {node : Node} {block : Block} (on : OnGenesis node)
    (linked : block.previousBlockHash = genesis.hash) (later : genesis.number < block.number)
    (aligned : BlockAligned Sample.env started.db [genesis] block) :
    CheckedOnTip Sample.env sampleAmbient node block [genesis] genesis where
  isTip := by
    rw [on.db, TipIs, tracked_started.latest, tracked_started.tipSlot]
    exact ⟨by decide, rfl⟩
  ancestry := .genesis rfl
  stored := by
    rw [on.db]
    exact tracked_started.storedAs_tip List.mem_cons_self
  shaped := LedgerState.sample_builderShaped []
  linked := linked
  free := by
    rw [on.db]
    intro taken
    rw [tracked_started.getBlock_unused (by simpa using later.ne)] at taken
    have missing : Block.missing.number < genesis.number := by decide
    exact absurd taken (missing.trans later).ne
  aligned := by
    rw [on.db]
    exact aligned
  coherent := by
    rw [on.db, on.parentState]
    exact on.coherent
  parent := by
    intro state connected
    rw [on.db, on.parentState]
    exact parentMatches_started connected

theorem checkedOnTip_validSpend : CheckedOnTip Sample.env sampleAmbient started validSpend
    [genesis] genesis :=
  onGenesis_started.checkedOnTip rfl (by decide) (validSpend_aligned _)

theorem validSpend_added :
    addBlock Sample.env sampleAmbient started validSpend = (.ok (), extended validSpend) := by
  obtain ⟨-, state, connected⟩ := accepts_iff.mp accepts_genesis
  have checked := checkedOnTip_validSpend
  have extends_ : Accepts Sample.env ([genesis] ++ [validSpend]) := accepts_validSpend
  have agrees := validate_agrees_on_tip accepts_genesis checked.shaped checked.stored connected
    checked.ancestry.getLast? checked.coherent (checked.parent state connected) checked.linked
    checked.free checked.aligned
  exact addBlock_admitted (by decide +kernel) (tracked_started.fresh (by decide))
    (agrees.mpr extends_)

theorem run_tipSteps_validSpend :
    runSteps Sample.env .empty (tipSteps validSpend) = extended validSpend := by
  rw [tipSteps, runSteps_started, runSteps_addBlock, validSpend_added, runSteps_nil]

theorem tracked_validSpend :
    Tracked Sample.env (extended validSpend).db [validSpend, genesis] 100 validSpend 101 :=
  tracked_extended accepts_validSpend (by decide) (List.mem_iff_getElem?.mpr ⟨1, rfl⟩)

theorem belowTip_validSpend {block : Block} (member : block ∈ [genesis] ++ [validSpend]) :
    BelowTip Sample.env (runSteps Sample.env .empty (tipSteps validSpend)).db block := by
  rw [run_tipSteps_validSpend]
  have tracked := tracked_validSpend
  have genesisHeld : getBlockByHash Sample.env (extended validSpend).db
      validSpend.previousBlockHash = genesis :=
    ((tracked.holds genesis).mpr (by simp)).getBlockByHash_eq
  have latest := tracked.latest
  refine ⟨by rw [latest]; decide, [genesis] ++ [validSpend], ?_, member⟩
  rw [latest, tracked.tipSlot]
  refine .child (by decide) ?_ ?_
  · rw [genesisHeld]
    decide
  · rw [genesisHeld]
    exact .genesis rfl

/-- A spend on the genesis block, from which two adoptions lead back and forth. -/
def returnSteps : List ChainStep :=
  tipSteps validSpend ++ [.adoptStoredChainEndingAtHash 0 genesis.hash] ++
    [.adoptStoredChainEndingAtHash 0 validSpend.hash]

theorem reads_returnSteps : ∀ step ∈ returnSteps, step.Adds (RoundTrips Sample.env) := by
  intro step member
  rw [returnSteps, List.append_assoc] at member
  rcases List.mem_append.mp member with early | late
  · exact (adds_tipSteps (List.mem_iff_getElem?.mpr ⟨1, rfl⟩) step early).reads
  · simp only [List.singleton_append, List.mem_cons, List.not_mem_nil, or_false] at late
    rcases late with rfl | rfl <;> exact trivial

theorem meets_returnSteps : RunMeets Sample.env returnSteps := by
  have started_run : runSteps Sample.env .empty
      [.addBlock sampleAmbient genesis, .setFirstBlockId genesis.number] = started :=
    runSteps_started []
  have held : ∀ {block : Block}, block ∈ [validSpend, genesis] →
      Holds Sample.env (runSteps Sample.env .empty (tipSteps validSpend)).db block := by
    intro block member
    rw [run_tipSteps_validSpend]
    exact (tracked_validSpend.holds block).mpr member
  refine Runs.meetsAfter_snoc_iff.mpr ⟨Runs.meetsAfter_snoc_iff.mpr ⟨?_, ?_⟩, ?_⟩
  · change Runs.MeetsAfter _ ([] ++ [_] ++ [_] ++ [_])
    refine Runs.meetsAfter_snoc_iff.mpr ⟨Runs.meetsAfter_snoc_iff.mpr
      ⟨Runs.meetsAfter_snoc_iff.mpr ⟨Runs.meetsAfter_nil, ?_⟩, trivial⟩, ?_⟩
    · exact ⟨roundTrips (List.mem_iff_getElem?.mpr ⟨0, rfl⟩), fun _ _ _ =>
        .inl ⟨by decide, rfl, LedgerState.sample_builderShaped [] genesis rfl⟩⟩
    · refine ⟨roundTrips (List.mem_iff_getElem?.mpr ⟨1, rfl⟩), fun _ _ _ => .inr ?_⟩
      change ∃ chain tip, CheckedOnTip Sample.env sampleAmbient (runSteps Sample.env .empty
        [.addBlock sampleAmbient genesis, .setFirstBlockId genesis.number]) validSpend chain tip
      rw [started_run]
      exact ⟨_, _, checkedOnTip_validSpend⟩
  · intro tip branch adoptable
    obtain rfl := adoptable.holds.unique (held (by simp)) adoptable.named
    exact ⟨tipSteps validSpend, List.prefix_rfl, belowTip_validSpend (by simp)⟩
  · intro tip branch adoptable
    have kept : Holds Sample.env (runSteps Sample.env .empty
        (tipSteps validSpend ++ [.adoptStoredChainEndingAtHash 0 genesis.hash])).db validSpend :=
      holds_runSteps (fun step member => reads_returnSteps step (List.mem_append_left _ member))
        (held (by simp))
    obtain rfl := adoptable.holds.unique kept adoptable.named
    exact ⟨tipSteps validSpend, List.prefix_append _ _, belowTip_validSpend (by simp)⟩

theorem tip_accepted_of_returnSteps :
    RunMeets Sample.env returnSteps ∧
      (adoptStoredChainEndingAtHash Sample.env 0
        (runSteps Sample.env .empty (tipSteps validSpend)).db genesis.hash).1.isSome = true ∧
      ∀ earlier, earlier <+: returnSteps →
        TipAccepted Sample.env (runSteps Sample.env .empty earlier).db := by
  refine ⟨meets_returnSteps, ?_, tip_accepted_of_run Sample.env returnSteps meets_returnSteps⟩
  have reached : Reached Sample.env (runSteps Sample.env .empty (tipSteps validSpend)).db :=
    reached_of_run fun step member =>
      (adds_tipSteps (List.mem_iff_getElem?.mpr ⟨1, rfl⟩) step member).reads
  rw [run_tipSteps_validSpend] at reached ⊢
  exact tracked_validSpend.adopts reached accepts_genesis (by simp) rfl rfl 0

end Sample

end Safire
