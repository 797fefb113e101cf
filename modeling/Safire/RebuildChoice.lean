/-
The chain that a full rebuild installs.

The rebuild follows the structurally best path and keeps its longest accepted
beginning, so it installs the best accepted chain exactly when that beginning is
as good as every accepted path of stored blocks. A longer branch that goes wrong
early hides a shorter valid one.
-/

import Safire.StoreReads
import Safire.StoredChain

namespace Safire

open Text ChainValidator BestPath

variable {env : Env} {db : LevelDb}

/-! ### Dropping the invalid end -/

theorem dropInvalidTail_isPrefix (rounds : Nat) (chain : List Block) :
    dropInvalidTail env rounds chain <+: chain := by
  induction rounds generalizing chain with
  | zero => exact List.nil_prefix
  | succ rounds ih =>
      rw [dropInvalidTail]
      split
      · exact List.prefix_rfl
      · exact (ih chain.dropLast).trans (List.dropLast_prefix chain)

theorem dropInvalidTail_accepts {rounds : Nat} {chain : List Block}
    (kept : dropInvalidTail env rounds chain ≠ []) : Accepts env (dropInvalidTail env rounds chain) := by
  induction rounds generalizing chain with
  | zero => exact absurd rfl kept
  | succ rounds ih =>
      rw [dropInvalidTail] at kept ⊢
      split
      · assumption
      · rename_i refused
        rw [if_neg refused] at kept
        exact ih kept

/-- No accepted beginning is longer than the one that is kept. -/
theorem length_le_dropInvalidTail {chain accepted : List Block} (start : accepted <+: chain)
    (accepts : Accepts env accepted) :
    accepted.length ≤ (dropInvalidTail env chain.length chain).length := by
  obtain ⟨rounds, size⟩ : ∃ rounds, chain.length = rounds := ⟨_, rfl⟩
  rw [size]
  induction rounds generalizing chain with
  | zero =>
      have short := start.length_le
      omega
  | succ rounds ih =>
      rw [dropInvalidTail]
      split
      · exact start.length_le
      · rename_i refused
        refine ih ?_ (by rw [List.length_dropLast, size]; rfl)
        rcases List.prefix_iff_eq_take.mp start with taken
        by_cases whole : accepted.length = chain.length
        · rw [start.eq_of_length whole] at accepts
          exact absurd accepts refused
        · have shorter : accepted.length ≤ chain.length - 1 := by
            have short := start.length_le
            omega
          rw [taken, List.dropLast_eq_take]
          exact List.take_prefix_take_left shorter

/-! ### The written chain -/

def blockEntries (env : Env) (block : Block) : List (StoreKey × Text) :=
  [(.canonical block.number, block.hash), (.block block.hash, blockJSON env block),
    (.legacyBlock block.number, blockJSON env block)]

def linkEntries (parent child : Block) : List (StoreKey × Text) :=
  [(.nextBlock parent.number, ofLong child.number), (.next parent.hash, child.hash)]

/-- The entries that the loop over a chain writes. -/
def writtenEntries (env : Env) : List Block → List (StoreKey × Text)
  | [] => []
  | [tip] => blockEntries env tip
  | parent :: child :: rest =>
      blockEntries env parent ++ linkEntries parent child ++ writtenEntries env (child :: rest)

theorem writeChain_eq (db : LevelDb) (chain : List Block) :
    writeChain env db chain = db.putAll (writtenEntries env chain) := by
  induction chain generalizing db with
  | nil => rfl
  | cons parent rest ih =>
      cases rest with
      | nil => rfl
      | cons child rest =>
          rw [writeChain, ih, writtenEntries, LevelDb.putAll, LevelDb.putAll, List.foldl_append]
          rfl

theorem mem_writtenEntries {chain : List Block} {entry : StoreKey × Text} :
    entry ∈ writtenEntries env chain ↔
      (∃ block ∈ chain, entry ∈ blockEntries env block) ∨
        ∃ before parent child after, chain = before ++ parent :: child :: after ∧
          entry ∈ linkEntries parent child := by
  induction chain with
  | nil => simp [writtenEntries]
  | cons parent rest ih =>
      cases rest with
      | nil =>
          simp only [writtenEntries, List.mem_singleton, exists_eq_left]
          refine (or_iff_left ?_).symm
          rintro ⟨before, first, second, after, split, -⟩
          have lengths := congrArg List.length split
          simp at lengths
          omega
      | cons child rest =>
          rw [writtenEntries, List.mem_append, List.mem_append, ih]
          constructor
          · rintro ((own | link) | ⟨block, member, entries⟩ | ⟨before, first, second, after, split, link⟩)
            · exact .inl ⟨parent, by simp, own⟩
            · exact .inr ⟨[], parent, child, rest, rfl, link⟩
            · exact .inl ⟨block, List.mem_cons_of_mem _ member, entries⟩
            · exact .inr ⟨parent :: before, first, second, after, by rw [split]; rfl, link⟩
          · rintro (⟨block, member, entries⟩ | ⟨before, first, second, after, split, link⟩)
            · rcases List.mem_cons.mp member with rfl | later
              · exact .inl (.inl entries)
              · exact .inr (.inl ⟨block, later, entries⟩)
            · cases before with
              | nil =>
                  obtain ⟨rfl, rfl, rfl⟩ : parent = first ∧ child = second ∧ rest = after := by
                    simpa using split
                  exact .inl (.inr link)
              | cons front before =>
                  refine .inr (.inr ⟨before, first, second, after, ?_, link⟩)
                  exact (List.cons.inj split).2

/-- No two blocks share a number or a hash. -/
structure Separate (chain : List Block) : Prop where
  numbers : (chain.map Block.number).Nodup
  hashes : (chain.map Block.hash).Nodup

theorem Separate.eq_of_number {chain : List Block} (separate : Separate chain) {left right : Block}
    (leftMember : left ∈ chain) (rightMember : right ∈ chain) (same : left.number = right.number) :
    left = right :=
  List.inj_on_of_nodup_map separate.numbers leftMember rightMember same

theorem Separate.eq_of_hash {chain : List Block} (separate : Separate chain) {left right : Block}
    (leftMember : left ∈ chain) (rightMember : right ∈ chain) (same : left.hash = right.hash) :
    left = right :=
  List.inj_on_of_nodup_map separate.hashes leftMember rightMember same

/-- A block has one child on the chain. -/
theorem Separate.child_unique {chain : List Block} (separate : Separate chain)
    {before after before' after' : List Block} {parent child child' : Block}
    (place : chain = before ++ parent :: child :: after)
    (place' : chain = before' ++ parent :: child' :: after') : child = child' := by
  have nodup : chain.Nodup := List.Nodup.of_map _ separate.hashes
  have away := place ▸ nodup
  rw [List.nodup_append, List.nodup_cons] at away
  have outside : parent ∉ before := fun member => away.2.2 parent member parent (by simp) rfl
  obtain ⟨-, -, rest⟩ :=
    (List.append_cons_inj_of_notMem outside away.2.1.1).mp (place.symm.trans place')
  exact (List.cons.inj rest).1

theorem writtenEntries_agree {chain : List Block} (separate : Separate chain) :
    ∀ left ∈ writtenEntries env chain, ∀ right ∈ writtenEntries env chain,
      left.1 = right.1 → left.2 = right.2 := by
  intro left leftMember right rightMember same
  have linkParent : ∀ {before parent child after}, chain = before ++ parent :: child :: after →
      parent ∈ chain := by
    rintro before parent child after rfl
    simp
  rcases mem_writtenEntries.mp leftMember with ⟨block, member, entry⟩ | ⟨_, parent, child, _, place, entry⟩ <;>
    rcases mem_writtenEntries.mp rightMember with ⟨block', member', entry'⟩ | ⟨_, parent', child', _, place', entry'⟩
  · simp only [blockEntries, List.mem_cons, List.not_mem_nil, or_false] at entry entry'
    rcases entry with rfl | rfl | rfl <;> rcases entry' with rfl | rfl | rfl <;> try cases same
    · injection same with numbers
      rw [separate.eq_of_number member member' numbers]
    · injection same with hashes
      rw [separate.eq_of_hash member member' hashes]
    · injection same with numbers
      rw [separate.eq_of_number member member' numbers]
  · simp only [blockEntries, linkEntries, List.mem_cons, List.not_mem_nil, or_false] at entry entry'
    rcases entry with rfl | rfl | rfl <;> rcases entry' with rfl | rfl <;> cases same
  · simp only [blockEntries, linkEntries, List.mem_cons, List.not_mem_nil, or_false] at entry entry'
    rcases entry with rfl | rfl <;> rcases entry' with rfl | rfl | rfl <;> cases same
  · simp only [linkEntries, List.mem_cons, List.not_mem_nil, or_false] at entry entry'
    rcases entry with rfl | rfl <;> rcases entry' with rfl | rfl <;> try cases same
    · injection same with numbers
      obtain rfl := separate.eq_of_number (linkParent place) (linkParent place') numbers
      rw [separate.child_unique place place']
    · injection same with hashes
      obtain rfl := separate.eq_of_hash (linkParent place) (linkParent place') hashes
      rw [separate.child_unique place place']

/-- The keys of a database that make a chain its canonical one. -/
structure Installed (env : Env) (db : LevelDb) (chain : List Block) : Prop where
  latest : ∀ tip, chain.getLast? = some tip → getLatestBlockId db = tip.number
  blocks : ∀ block ∈ chain, ∀ entry ∈ blockEntries env block, db.get entry.1 = entry.2
  links : ∀ before parent child after, chain = before ++ parent :: child :: after →
    ∀ entry ∈ linkEntries parent child, db.get entry.1 = entry.2

theorem installed_finishChain {chain : List Block} {newTip : Block} (separate : Separate chain)
    (last : chain.getLast? = some newTip) (range : IsLong newTip.number) (now : Int)
    (reason : String) (previousTip : Block) :
    Installed env (finishChain env (writeChain env db chain) now reason previousTip newTip)
      chain := by
  have written : ∀ entry ∈ writtenEntries env chain, entry.1.isChainData = true →
      (finishChain env (writeChain env db chain) now reason previousTip newTip).get entry.1 =
        entry.2 := by
    intro entry member data
    rw [get_finishChain data, writeChain_eq]
    exact LevelDb.get_putAll (writtenEntries_agree separate) member
  refine ⟨?_, ?_, ?_⟩
  · intro tip found
    obtain rfl : newTip = tip := Option.some.inj (last.symm.trans found)
    exact getLatestBlockId_finishChain range
  · intro block member entry own
    refine written entry (mem_writtenEntries.mpr (.inl ⟨block, member, own⟩)) ?_
    simp only [blockEntries, List.mem_cons, List.not_mem_nil, or_false] at own
    rcases own with rfl | rfl | rfl <;> rfl
  · intro before parent child after place entry link
    refine written entry
      (mem_writtenEntries.mpr (.inr ⟨before, parent, child, after, place, link⟩)) ?_
    simp only [linkEntries, List.mem_cons, List.not_mem_nil, or_false] at link
    rcases link with rfl | rfl <;> rfl

/-! ### The followed path -/

private theorem followBestChildren_all {blockByHash : TextMap Block} {bestChildByHash : TextMap Text}
    {holds : Block → Prop} (indexed : ∀ (hash : Text) block, blockByHash[hash]? = some block → holds block)
    (depth : Nat) : ∀ (visited : TextSet) (start : Block), holds start →
      ∀ block ∈ followBestChildren blockByHash bestChildByHash depth visited start, holds block := by
  induction depth with
  | zero =>
      intro visited start _ block member
      cases member
  | succ depth ih =>
      intro visited start holdsStart block member
      rw [followBestChildren] at member
      split at member
      · cases member
      · split at member
        · cases member
        · rcases List.mem_cons.mp member with rfl | later
          · exact holdsStart
          · split at later
            · cases later
            · split at later
              · cases later
              · rename_i found
                exact ih _ _ (indexed _ _ found) block later

private theorem followBestChildren_hashes {blockByHash : TextMap Block}
    {bestChildByHash : TextMap Text} (depth : Nat) : ∀ (visited : TextSet) (start : Block),
      (∀ block ∈ followBestChildren blockByHash bestChildByHash depth visited start,
        block.hash ∉ visited) ∧
      ((followBestChildren blockByHash bestChildByHash depth visited start).map Block.hash).Nodup := by
  induction depth with
  | zero =>
      intro visited start
      exact ⟨by simp [followBestChildren], List.nodup_nil⟩
  | succ depth ih =>
      intro visited start
      rw [followBestChildren]
      split
      · simp
      · split
        · simp
        · rename_i fresh
          split
          · simp [fresh]
          · split
            · simp [fresh]
            · rename_i next _
              obtain ⟨away, nodup⟩ := ih (visited.insert start.hash) next
              have outside : ∀ block ∈ followBestChildren blockByHash bestChildByHash depth
                  (visited.insert start.hash) next,
                  start.hash ≠ block.hash ∧ block.hash ∉ visited := by
                intro block later
                have missing := away block later
                rw [Std.ExtTreeSet.mem_insert, not_or, Std.LawfulEqCmp.compare_eq_iff_eq] at missing
                exact missing
              constructor
              · intro block member
                rcases List.mem_cons.mp member with rfl | later
                · exact fresh
                · exact (outside block later).2
              · rw [List.map_cons, List.nodup_cons]
                refine ⟨fun member => ?_, nodup⟩
                obtain ⟨block, later, same⟩ := List.mem_map.mp member
                exact (outside block later).1 same.symm

/-- A block that was read from the database. -/
def WasRead (env : Env) (block : Block) : Prop :=
  ∃ content, block ∈ parseBlockJson env content

theorem wasRead_parseSingleBlockJson {content : Text}
    (positive : 0 < (parseSingleBlockJson env content).number) :
    WasRead env (parseSingleBlockJson env content) := by
  unfold parseSingleBlockJson at *
  cases parsed : parseBlockJson env content with
  | nil =>
      rw [parsed] at positive
      exact absurd positive (by decide)
  | cons block rest => exact ⟨content, by rw [parsed]; exact List.mem_cons_self⟩

theorem wasRead_getBlockByHash {hash : Text} (positive : 0 < (getBlockByHash env db hash).number) :
    WasRead env (getBlockByHash env db hash) := by
  unfold getBlockByHash at *
  split at positive
  · exact absurd positive (by decide)
  · rename_i named
    rw [if_neg named]
    exact wasRead_parseSingleBlockJson positive

theorem wasRead_getBlock {number : Int} (positive : 0 < (getBlock env db number).number) :
    WasRead env (getBlock env db number) := by
  unfold getBlock at *
  dsimp only at *
  split
  · rename_i found
    exact wasRead_getBlockByHash found
  · rename_i missing
    rw [if_neg missing] at positive
    exact wasRead_parseSingleBlockJson positive

theorem wasRead_of_stored {block : Block} (member : block ∈ getStoredBlocks env db) :
    WasRead env block := by
  obtain ⟨entry, -, read⟩ := List.mem_flatMap.mp ((keepFirstByHash_sublist _).subset member)
  exact ⟨entry.2, read⟩

private theorem preferredOf_cases (table : BestTable) (candidates : List Block) :
    preferredOf table candidates = .missing ∨ preferredOf table candidates ∈ candidates := by
  induction candidates using List.reverseRecOn with
  | nil => exact .inl rfl
  | append_singleton earlier last ih =>
      rw [preferredOf, List.foldl_append, ← preferredOf]
      simp only [List.foldl_cons, List.foldl_nil]
      split
      · exact .inr (by simp)
      · rcases ih with missing | member
        · exact .inl missing
        · exact .inr (List.mem_append_left _ member)

/-- What holds of every stored block and of the first slot holds along the path. -/
theorem bestPath_all {holds : Block → Prop} (stored : ∀ block ∈ getStoredBlocks env db, holds block)
    (slot : 0 < (getBlock env db (getFirstBlockId db)).number →
      holds (getBlock env db (getFirstBlockId db))) (depth : Nat) :
    ∀ block ∈ bestPath env db depth, holds block := by
  intro block member
  unfold bestPath genesisCandidates at member
  dsimp only at member
  have indexed : ∀ hash block, (indexByHash (getStoredBlocks env db))[hash]? = some block →
      holds block :=
    fun hash block found => stored block (indexByHash_some found).1
  have start : ∀ {candidates : List Block} (table : BestTable) (blockByHash : TextMap Block),
      (∀ candidate ∈ candidates, holds candidate) →
      (∀ (hash : Text) block, blockByHash[hash]? = some block → holds block) →
      block ∈ followBestChildren blockByHash table.bestChildByHash depth ∅
        (preferredOf table (candidates.mergeSort byNumberAscending)) → holds block := by
    intro candidates table blockByHash all values member
    rcases preferredOf_cases table (candidates.mergeSort byNumberAscending) with missing | chosen
    · rw [missing] at member
      cases depth with
      | zero => cases member
      | succ depth =>
          rw [followBestChildren, if_pos (.inl (by decide))] at member
          cases member
    · exact followBestChildren_all values depth ∅ _ (all _ (List.mem_mergeSort.mp chosen)) block
        member
  split at member
  · split at member
    · rename_i positive
      refine start _ _ ?_ ?_ member
      · intro candidate only
        rw [List.mem_singleton.mp only]
        exact slot positive
      · intro hash block found
        rw [Std.ExtTreeMap.getElem?_insert] at found
        split at found
        · cases found
          exact slot positive
        · exact indexed hash block found
    · exact start _ _ (by simp) indexed member
  · refine start _ _ ?_ indexed member
    intro candidate kept
    exact stored candidate (List.mem_filter.mp kept).1

private theorem followBestChildren_head {blockByHash : TextMap Block}
    {bestChildByHash : TextMap Text} {depth : Nat} {visited : TextSet} {start first : Block}
    (head : (followBestChildren blockByHash bestChildByHash depth visited start).head? =
      some first) : first = start ∧ 0 < start.number := by
  cases depth with
  | zero => cases head
  | succ depth =>
      rw [followBestChildren] at head
      split at head
      · cases head
      · rename_i usable
        split at head
        · cases head
        · exact ⟨(Option.some.inj head).symm, not_le.mp (not_or.mp usable).1⟩

/-- The best path starts at a stored genesis block or at the block of the first slot. -/
theorem bestPath_head {depth : Nat} {first : Block}
    (head : (bestPath env db depth).head? = some first) :
    StoredGenesis env db first ∨ first = getBlock env db (getFirstBlockId db) := by
  have chosen : ∀ {candidates : List Block} (table : BestTable) (blockByHash : TextMap Block),
      (followBestChildren blockByHash table.bestChildByHash depth ∅
        (preferredOf table (candidates.mergeSort byNumberAscending))).head? = some first →
      first ∈ candidates := by
    intro candidates table blockByHash head
    obtain ⟨same, positive⟩ := followBestChildren_head head
    cases preferredOf_cases table (candidates.mergeSort byNumberAscending) with
    | inl missing =>
        rw [missing] at positive
        exact absurd positive (by decide)
    | inr member =>
        rw [same]
        exact List.mem_mergeSort.mp member
  unfold bestPath genesisCandidates at head
  dsimp only at head
  split at head
  · split at head
    · exact .inr (List.mem_singleton.mp (chosen _ _ head))
    · cases chosen _ _ head
  · obtain ⟨stored, candidate⟩ := List.mem_filter.mp (chosen _ _ head)
    rw [isGenesisCandidate, Bool.and_eq_true, decide_eq_true_eq, decide_eq_true_eq] at candidate
    exact .inl ⟨stored, candidate⟩

theorem bestValidChain_isPrefix :
    bestValidChain env db <+: bestPath env db maxRebuildChainDepth :=
  dropInvalidTail_isPrefix _ _

theorem separate_bestValidChain : Separate (bestValidChain env db) where
  numbers := by
    by_cases empty : bestValidChain env db = []
    · rw [empty]
      exact List.nodup_nil
    · have ascending := ascending_of_accepts (dropInvalidTail_accepts empty)
      exact List.pairwise_map.mpr (ascending.sorted.imp fun below => below.ne)
  hashes := by
    exact (followBestChildren_hashes _ _ _).2.sublist (bestValidChain_isPrefix.sublist.map Block.hash)

/-! ### The full path -/

/-- The fast path leaves the database alone, or writes quiet keys after it has read
the highest number. -/
theorem quiet_fastPath (env : Env) (db : LevelDb) :
    (tryValidatedCheckpointFastPath env db).2 = db ∨
      Writes StoreKey.IsQuiet (highestStoredBlock env db).2
        (tryValidatedCheckpointFastPath env db).2 := by
  have read : Writes StoreKey.IsQuiet (highestStoredBlock env db).2 (highestStoredBlock env db).2 :=
    .refl _
  unfold tryValidatedCheckpointFastPath
  dsimp only
  split
  · exact .inl rfl
  · split
    · exact .inl rfl
    · split
      · exact .inl rfl
      · split
        · exact .inr read
        · split
          · exact .inr read
          · split
            · exact .inr read
            · split
              · exact .inr read
              · split
                · exact .inr read
                · exact .inr ((read.put (quiet_chainMeta (by decide))).trans
                    (quiet_maybeAdvanceValidatedCheckpoint _ _))

/-- The fast path writes side keys only, whether it succeeds or not. -/
theorem writes_fastPath (env : Env) (db : LevelDb) :
    Writes StoreKey.IsSide db (tryValidatedCheckpointFastPath env db).2 := by
  cases quiet_fastPath env db with
  | inl same =>
      rw [same]
      exact .refl db
  | inr writes => exact (writes_highestStoredBlock db).trans writes.side

theorem followNextLinks_number {latestBlockId : Int} {steps : Nat} {start current : Block}
    (followed : followNextLinks env db latestBlockId steps start = some current) :
    current.number = latestBlockId := by
  induction steps generalizing start with
  | zero => cases followed
  | succ steps ih =>
      rw [followNextLinks] at followed
      split at followed
      · split at followed
        · rename_i reached
          rw [← Option.some.inj followed]
          exact reached
        · cases followed
      · dsimp only at followed
        split at followed
        · cases followed
        · exact ih followed

/-- The fast path succeeds with the latest number, and the slot holds a block of it. -/
theorem fastPath_tip {tip : Int} (success : (tryValidatedCheckpointFastPath env db).1 = some tip) :
    getLatestBlockId db = tip ∧ 0 < tip ∧ (getBlock env db tip).number = tip := by
  have scanned : Writes StoreKey.IsSide db (highestStoredBlock env db).2 :=
    writes_highestStoredBlock db
  unfold tryValidatedCheckpointFastPath at success
  dsimp only at success
  split at success
  · cases success
  · rename_i positive
    split at success
    · cases success
    · split at success
      · cases success
      · split at success
        · cases success
        · split at success
          · cases success
          · split at success
            · cases success
            · split at success
              · cases success
              · rename_i current followed
                split at success
                · cases success
                · rename_i agrees
                  have number := followNextLinks_number followed
                  have same : tip = getLatestBlockId db := by
                    rw [← Option.some.inj success, number]
                  rw [not_or, not_not, not_not, scanned.getBlock_side] at agrees
                  rw [same]
                  exact ⟨rfl, not_le.mp positive, agrees.1⟩

theorem bestValidChain_congr {left right : LevelDb}
    (blocks : getStoredBlocks env left = getStoredBlocks env right)
    (first : getFirstBlockId left = getFirstBlockId right)
    (slots : ∀ number, getBlock env left number = getBlock env right number) :
    bestValidChain env left = bestValidChain env right := by
  unfold bestValidChain bestPath genesisCandidates
  simp only [blocks, first, slots]

theorem bestValidChain_side {after : LevelDb} (writes : Writes StoreKey.IsSide db after) :
    bestValidChain env after = bestValidChain env db :=
  bestValidChain_congr writes.getStoredBlocks_side writes.getFirstBlockId_side writes.getBlock_side

/-- The result of a rebuild without the shortcut. -/
theorem rebuild_full (now : Int) (full : (tryValidatedCheckpointFastPath env db).1 = none)
    (positive : 0 < (rebuildBestChainIndex env now db).1) :
    ∃ newTip, (bestValidChain env db).getLast? = some newTip ∧
      (rebuildBestChainIndex env now db).1 = newTip.number ∧
      (rebuildBestChainIndex env now db).2 =
        finishChain env
          (writeChain env (eraseNextLinks (tryValidatedCheckpointFastPath env db).2)
            (bestValidChain env db)) now "best chain index rebuilt" (previousTipOf env db) newTip := by
  have same : bestValidChain env (tryValidatedCheckpointFastPath env db).2 =
      bestValidChain env db := bestValidChain_side (writes_fastPath env db)
  unfold rebuildBestChainIndex at positive ⊢
  split at positive
  · exact absurd (show (0 : Int) < -1 from positive) (by decide)
  · rename_i first
    rw [if_neg first]
    generalize tryValidatedCheckpointFastPath env db = attempt at *
    obtain ⟨verdict, after⟩ := attempt
    dsimp only at full same
    subst full
    dsimp only [rebuildFully] at positive ⊢
    rw [same] at positive ⊢
    cases tip : (bestValidChain env db).getLast? with
    | none =>
        rw [tip] at positive
        exact absurd (show (0 : Int) < -1 from positive) (by decide)
    | some newTip => exact ⟨newTip, rfl, rfl, rfl⟩

/-- A full rebuild succeeds where it has a chain to install. -/
theorem rebuild_positive (now : Int) (first : 0 ≤ getFirstBlockId db)
    (full : (tryValidatedCheckpointFastPath env db).1 = none)
    (present : bestValidChain env db ≠ []) : 0 < (rebuildBestChainIndex env now db).1 := by
  have last := List.getLast?_eq_some_getLast present
  obtain ⟨content, read⟩ := bestPath_all (fun _ => wasRead_of_stored) wasRead_getBlock _ _
    (bestValidChain_isPrefix.subset (List.getLast_mem present))
  have same : bestValidChain env (tryValidatedCheckpointFastPath env db).2 =
      bestValidChain env db := bestValidChain_side (writes_fastPath env db)
  rw [rebuildBestChainIndex, if_neg (not_lt.mpr first)]
  generalize tryValidatedCheckpointFastPath env db = attempt at full same
  obtain ⟨verdict, after⟩ := attempt
  dsimp only at full same
  subst full
  dsimp only [rebuildFully]
  rw [same, last]
  exact (mem_parseBlockSections read).1

theorem installed_rebuild (now : Int) (full : (tryValidatedCheckpointFastPath env db).1 = none)
    (positive : 0 < (rebuildBestChainIndex env now db).1) :
    Installed env (rebuildBestChainIndex env now db).2 (bestValidChain env db) := by
  obtain ⟨newTip, last, -, written⟩ := rebuild_full now full positive
  rw [written]
  obtain ⟨content, read⟩ := bestPath_all (fun _ => wasRead_of_stored) wasRead_getBlock _ newTip
    (bestValidChain_isPrefix.subset (List.mem_of_getLast? last))
  exact installed_finishChain separate_bestValidChain last (mem_parseBlockSections read).2.2 now _ _

/-! ### The best accepted chain -/

/-- A chain of stored blocks from the first block that the branch validator accepts. -/
structure AcceptedStored (env : Env) (db : LevelDb) (path : List Block) : Prop where
  accepted : Accepts env path
  stored : ∀ block ∈ path, block ∈ getStoredBlocks env db
  rooted : ∀ genesis, path.head? = some genesis → genesis.number = getFirstBlockId db

/-- At least as long, and with a tip at least as high where the lengths agree. -/
def Dominates (chain path : List Block) : Prop :=
  path.length ≤ chain.length ∧
    (path.length = chain.length → endWeight Block.number path ≤ endWeight Block.number chain)

def InstallsBest (env : Env) (db : LevelDb) (chain : List Block) : Prop :=
  ∀ path, AcceptedStored env db path → Dominates chain path

/-- The structurally best path, cut at the depth limit, begins with an accepted
chain that is as good as every accepted path. -/
def BestPathSuffices (env : Env) (db : LevelDb) : Prop :=
  ∀ best, StructurallyBest env db best → ∀ path, AcceptedStored env db path →
    ∃ kept, kept <+: best.take maxRebuildChainDepth ∧ Accepts env kept ∧ Dominates kept path

theorem AcceptedStored.genesis {path : List Block} (accepted : AcceptedStored env db path) :
    ∃ genesis, StoredGenesis env db genesis := by
  obtain ⟨genesis, rest, rfl⟩ := List.exists_cons_of_ne_nil (accepts_iff.mp accepted.accepted).1
  exact ⟨genesis, accepted.stored genesis (by simp), accepted.rooted genesis rfl,
    (genesis_of_accepts accepted.accepted).1⟩

theorem bestValidChain_accepts (present : bestValidChain env db ≠ []) :
    Accepts env (bestValidChain env db) :=
  dropInvalidTail_accepts present

theorem bestValidChain_ne_nil {genesis : Block} (rooted : StoredGenesis env db genesis)
    (valid : ∀ block, StoredGenesis env db block → Accepts env [block]) :
    bestValidChain env db ≠ [] := by
  obtain ⟨best, structural, path⟩ := bestPath_spec rooted
  obtain ⟨first, rest, rfl, start⟩ := pathFrom_cons structural.isPath
  have begins : [first] <+: bestPath env db maxRebuildChainDepth := by
    rw [path, maxRebuildChainDepth, List.take_succ_cons]
    exact List.prefix_append [first] _
  have kept : [first].length ≤ (bestValidChain env db).length :=
    length_le_dropInvalidTail begins (valid first start)
  intro empty
  rw [empty] at kept
  exact absurd kept (by simp)

/-- The rebuilt chain is the longest accepted beginning of the structurally best
path, cut at the depth limit. -/
structure LongestAccepted (env : Env) (db : LevelDb) (chain : List Block) : Prop where
  accepted : Accepts env chain
  best : ∃ best, StructurallyBest env db best ∧ chain <+: best.take maxRebuildChainDepth ∧
    ∀ kept, kept <+: best.take maxRebuildChainDepth → Accepts env kept → kept <+: chain

theorem LongestAccepted.unique {left right : List Block} (first : LongestAccepted env db left)
    (second : LongestAccepted env db right) : left = right := by
  obtain ⟨best, structural, within, longest⟩ := first.best
  obtain ⟨other, alsoBest, otherWithin, otherLongest⟩ := second.best
  obtain rfl := structural.unique alsoBest
  have shorter := longest right otherWithin second.accepted
  have longer := otherLongest left within first.accepted
  exact longer.eq_of_length (le_antisymm longer.length_le shorter.length_le)

theorem longestAccepted_bestValidChain {genesis : Block} (rooted : StoredGenesis env db genesis)
    (present : bestValidChain env db ≠ []) : LongestAccepted env db (bestValidChain env db) := by
  obtain ⟨best, structural, path⟩ := bestPath_spec rooted
  refine ⟨bestValidChain_accepts present, best, structural, ?_, ?_⟩
  · rw [← path]
    exact bestValidChain_isPrefix
  · intro kept within accepted
    rw [← path] at within
    exact List.prefix_of_prefix_length_le within bestValidChain_isPrefix
      (length_le_dropInvalidTail within accepted)

/-- A full rebuild finds the longest accepted beginning wherever there is one. -/
theorem LongestAccepted.bestValidChain_eq {chain : List Block}
    (longest : LongestAccepted env db chain) : bestValidChain env db = chain := by
  obtain ⟨best, structural, within, -⟩ := longest.best
  obtain ⟨genesis, rest, -, rooted⟩ := pathFrom_cons structural.isPath
  obtain ⟨other, alsoBest, path⟩ := bestPath_spec rooted
  obtain rfl := structural.unique alsoBest
  rw [← path] at within
  have short : chain.length ≤ (bestValidChain env db).length :=
    length_le_dropInvalidTail within longest.accepted
  have present : bestValidChain env db ≠ [] := by
    apply List.ne_nil_of_length_pos
    exact lt_of_lt_of_le (List.length_pos_iff.mpr (accepts_iff.mp longest.accepted).1) short
  exact (longestAccepted_bestValidChain rooted present).unique longest

theorem installsBest_iff (present : bestValidChain env db ≠ []) :
    InstallsBest env db (bestValidChain env db) ↔ BestPathSuffices env db := by
  constructor
  · intro installs best structural path accepted
    obtain ⟨genesis, rooted⟩ := accepted.genesis
    obtain ⟨followed, alsoBest, path_eq⟩ := bestPath_spec rooted
    obtain rfl := structural.unique alsoBest
    refine ⟨bestValidChain env db, ?_, bestValidChain_accepts present, installs path accepted⟩
    rw [← path_eq]
    exact bestValidChain_isPrefix
  · intro suffices_ path accepted
    obtain ⟨genesis, rooted⟩ := accepted.genesis
    obtain ⟨best, structural, path_eq⟩ := bestPath_spec rooted
    obtain ⟨kept, start, keptAccepted, longer, higher⟩ := suffices_ best structural path accepted
    rw [← path_eq] at start
    have short : kept.length ≤ (bestValidChain env db).length :=
      length_le_dropInvalidTail start keptAccepted
    refine ⟨longer.trans short, fun lengths => ?_⟩
    have whole : kept = bestValidChain env db :=
      (List.prefix_of_prefix_length_le start bestValidChain_isPrefix short).eq_of_length (by omega)
    rw [← whole]
    exact higher (by omega)

/-- A full rebuild installs a chain that is as good as every accepted chain of
stored blocks if and only if the structurally best path begins with such a chain. -/
theorem rebuild_installs_best_iff (env : Env) (now : Int) (db : LevelDb)
    (full : (tryValidatedCheckpointFastPath env db).1 = none)
    (positive : 0 < (rebuildBestChainIndex env now db).1) :
    Installed env (rebuildBestChainIndex env now db).2 (bestValidChain env db) ∧
      (InstallsBest env db (bestValidChain env db) ↔ BestPathSuffices env db) := by
  refine ⟨installed_rebuild now full positive, installsBest_iff ?_⟩
  obtain ⟨newTip, last, -⟩ := rebuild_full now full positive
  intro empty
  rw [empty] at last
  cases last

end Safire
