/-
The tip that the links reach after a rebuild.

A rebuild erases the links and writes those of its chain, so past its tip only the
scan of the stored blocks goes on. It finds a child of the tip exactly where the
best path was cut, by its depth or by the branch validator, and `scanChain` then
writes the end of that walk as the latest number.
-/

import Safire.ConnectedTip
import Safire.InstalledWalk
import Safire.NextLookup

namespace Safire

open Text ChainValidator BestPath

variable {env : Env} {db after : LevelDb} {chain : List Block} {tip : Block}

/-! ### The chain scan -/

/-- The loop of `scanChain`, which has no bound of its own: `none` where the rounds
are used up, else the last block. `blank` is the block structure without values that
stands for the end of the chain where a block follows itself. -/
def scanLoop (env : Env) (db : LevelDb) (blank : Block) : Nat → Block → Block → Option Block
  | 0, _, _ => none
  | rounds + 1, block, latestBlock =>
      if block.number ≤ 0 then some latestBlock
      else
        let nextBlock := getNextBlock env db block
        scanLoop env db blank rounds (if nextBlock.number = block.number then blank else nextBlock)
          block

/-- More rounds do not change the end of the loop. -/
theorem scanLoop_mono {blank : Block} {rounds more : Nat} (enough : rounds ≤ more) :
    ∀ {block latestBlock last : Block},
      scanLoop env db blank rounds block latestBlock = some last →
      scanLoop env db blank more block latestBlock = some last := by
  induction rounds generalizing more with
  | zero =>
      intro block latestBlock last ended
      cases ended
  | succ rounds ih =>
      intro block latestBlock last ended
      obtain ⟨more, rfl⟩ : ∃ fewer, more = fewer + 1 := ⟨more - 1, by omega⟩
      rw [scanLoop] at ended ⊢
      split
      · rename_i stops
        rwa [if_pos stops] at ended
      · rename_i goes
        rw [if_neg goes] at ended
        exact ih (Nat.le_of_succ_le_succ enough) ended

/-- What `scanChain` does to the block database. `latestBlock` is the block that the
last scan left. -/
def scanChain (env : Env) (db : LevelDb) (blank latestBlock : Block) (rounds : Nat) :
    Option LevelDb :=
  if getFirstBlockId db ≤ -1 then some db
  else
    (scanLoop env db blank rounds (getBlock env db (getFirstBlockId db)) latestBlock).map
      fun latestBlock =>
        if latestBlock.number ≠ getLatestBlockId db then
          setLatestBlockId env db latestBlock.number
        else db

/-! ### Walking through a chain -/

/-- The links lead from each block of a chain to the one after it. -/
def LinksThrough (env : Env) (db : LevelDb) (chain : List Block) : Prop :=
  chain.IsChain fun parent child => getNextBlock env db parent = child

theorem LinksAlong.through (links : LinksAlong env db chain) : LinksThrough env db chain := by
  rw [LinksThrough, List.isChain_iff_forall_rel_of_append_cons_cons]
  intro parent child before rest place
  exact links.next before parent child rest place

theorem walk_through {start : Block} {rest : List Block} (guard : Nat)
    (ascending : Ascending (start :: rest)) (links : LinksThrough env db (start :: rest))
    (last : (start :: rest).getLast? = some tip) :
    ∃ before, walk env db (fun _ => false) (fun _ => false) (rest.length + guard) start =
      before ++ walk env db (fun _ => false) (fun _ => false) guard tip := by
  induction rest generalizing start with
  | nil =>
      have same : start = tip := Option.some.inj last
      rw [same, List.length_nil, Nat.zero_add]
      exact ⟨[], rfl⟩
  | cons child rest ih =>
      rw [LinksThrough, List.isChain_cons_cons] at links
      rw [List.getLast?_cons_cons] at last
      have tail : Ascending (child :: rest) :=
        ⟨fun block member => ascending.positive block (List.mem_cons_of_mem _ member),
          ascending.sorted.of_cons⟩
      obtain ⟨before, same⟩ := ih tail links.2 last
      have below := List.rel_of_pairwise_cons ascending.sorted List.mem_cons_self
      have positive := ascending.positive start List.mem_cons_self
      refine ⟨start :: before, ?_⟩
      have rounds : (child :: rest).length + guard = rest.length + guard + 1 := by
        rw [List.length_cons]
        omega
      rw [rounds, walk, if_neg (by simp [not_le.mpr positive]), if_neg Bool.false_ne_true]
      dsimp only
      rw [links.1, if_neg (by omega), same]
      rfl

theorem scanLoop_through {start blank latestBlock : Block} {rest : List Block} (rounds : Nat)
    (ascending : Ascending (start :: rest)) (links : LinksThrough env db (start :: rest))
    (last : (start :: rest).getLast? = some tip) :
    ∃ parent, scanLoop env db blank (rest.length + rounds) start latestBlock =
      scanLoop env db blank rounds tip parent := by
  induction rest generalizing start latestBlock with
  | nil =>
      have same : start = tip := Option.some.inj last
      rw [same, List.length_nil, Nat.zero_add]
      exact ⟨latestBlock, rfl⟩
  | cons child rest ih =>
      rw [LinksThrough, List.isChain_cons_cons] at links
      rw [List.getLast?_cons_cons] at last
      have tail : Ascending (child :: rest) :=
        ⟨fun block member => ascending.positive block (List.mem_cons_of_mem _ member),
          ascending.sorted.of_cons⟩
      have below := List.rel_of_pairwise_cons ascending.sorted List.mem_cons_self
      have positive := ascending.positive start List.mem_cons_self
      have more : (child :: rest).length + rounds = rest.length + rounds + 1 := by
        rw [List.length_cons]
        omega
      rw [more, scanLoop, if_neg (not_le.mpr positive)]
      dsimp only
      rw [links.1, if_neg below.ne']
      exact ih tail links.2 last

/-! ### Past the tip -/

/-- The stored blocks from a number on have no link entries. -/
def UnlinkedFrom (env : Env) (db : LevelDb) (number : Int) : Prop :=
  ∀ block, Holds env db block → number ≤ block.number →
    db.get (.next block.hash) = [] ∧ db.get (.nextBlock block.number) = []

theorem UnlinkedFrom.nextIsChild {number : Int} {block : Block}
    (unlinked : UnlinkedFrom env db number) (sound : Sound env db) (holds : Holds env db block)
    (above : number ≤ block.number) : NextIsChild env db block := by
  obtain ⟨hashed, numbered⟩ := unlinked block holds above
  have absent : ¬ 0 < (db.getLong (.nextBlock block.number)).getD (-1) := by
    rw [LevelDb.getLong, numbered]
    decide
  rw [nextIsChild_iff sound holds]
  intro other stale
  cases stale.named with
  | inl named => exact absurd named.1 absent
  | inr named =>
      rw [hashed] at named
      exact absurd named.2.symm stale.holds.trips.facts.2.1

/-- Past the tip a walk goes up. -/
theorem UnlinkedFrom.walk_above {number : Int} (unlinked : UnlinkedFrom env db number)
    (sound : Sound env db) (guard : Nat) : ∀ {start : Block}, Holds env db start →
      number ≤ start.number → ∀ block ∈ walk env db (fun _ => false) (fun _ => false) guard start,
        start.number ≤ block.number := by
  induction guard with
  | zero =>
      intro start _ _ block member
      cases member
  | succ guard ih =>
      intro start holds above block member
      rw [walk, if_neg (by simp [not_le.mpr holds.trips.facts.1]), if_neg Bool.false_ne_true]
        at member
      dsimp only at member
      split at member
      · rw [List.mem_singleton.mp member]
      · rename_i goes
        rw [not_or] at goes
        cases List.mem_cons.mp member with
        | inl own => rw [own]
        | inr later =>
            cases (unlinked.nextIsChild sound holds above).above with
            | inl none => omega
            | inr next =>
                have further := ih next.1 (above.trans next.2.le) block later
                omega

/-- Past the tip the scan ends on a stored block with no smaller number. -/
theorem UnlinkedFrom.scanLoop_above {number : Int} (unlinked : UnlinkedFrom env db number)
    (sound : Sound env db) {blank : Block} (rounds : Nat) : ∀ {block latestBlock last : Block},
      Holds env db latestBlock → block.number ≤ 0 ∨ Holds env db block ∧
        latestBlock.number < block.number ∧ number ≤ block.number →
      scanLoop env db blank rounds block latestBlock = some last →
        Holds env db last ∧ latestBlock.number ≤ last.number ∧
          (0 < block.number → block.number ≤ last.number) := by
  induction rounds with
  | zero =>
      intro block latestBlock last _ _ ended
      cases ended
  | succ rounds ih =>
      intro block latestBlock last latestHolds place ended
      rw [scanLoop] at ended
      by_cases stops : block.number ≤ 0
      · rw [if_pos stops] at ended
        rw [← Option.some.inj ended]
        exact ⟨latestHolds, le_rfl, fun positive => absurd positive (not_lt.mpr stops)⟩
      · rw [if_neg stops] at ended
        dsimp only at ended
        obtain ⟨holds, later, above⟩ := place.resolve_left stops
        have next := (unlinked.nextIsChild sound holds above).above
        have different : (getNextBlock env db block).number ≠ block.number := by
          cases next with
          | inl none => omega
          | inr child => exact child.2.ne'
        rw [if_neg different] at ended
        have placed : (getNextBlock env db block).number ≤ 0 ∨ Holds env db (getNextBlock env db block) ∧
            block.number < (getNextBlock env db block).number ∧
              number ≤ (getNextBlock env db block).number := by
          cases next with
          | inl none => exact .inl (by omega)
          | inr child => exact .inr ⟨child.1, child.2, above.trans child.2.le⟩
        obtain ⟨lastHolds, reached, -⟩ := ih holds placed ended
        exact ⟨lastHolds, later.le.trans reached, fun _ => reached⟩

/-- A store whose links lead through a chain and no further. -/
structure WalkedStore (env : Env) (db : LevelDb) (genesis : Block) (rest : List Block)
    (tip : Block) : Prop where
  sound : Sound env db
  started : 0 < getFirstBlockId db
  first : getBlock env db (getFirstBlockId db) = genesis
  ascending : Ascending (genesis :: rest)
  links : LinksThrough env db (genesis :: rest)
  last : (genesis :: rest).getLast? = some tip
  short : rest.length + 2 ≤ walkGuard
  latest : getLatestBlockId db = tip.number
  holds : Holds env db tip
  unlinked : UnlinkedFrom env db tip.number

/-- No stored block is a child of the tip. -/
def Childless (env : Env) (db : LevelDb) (tip : Block) : Prop :=
  ∀ child, Holds env db child → childConnectsToParent child tip = false

namespace WalkedStore

variable {genesis : Block} {rest : List Block} (walked : WalkedStore env db genesis rest tip)
include walked

/-- The lookup at the tip finds nothing, or a block with a larger number where the tip
has a stored child. -/
theorem next_tip : Childless env db tip ∧ (getNextBlock env db tip).number = -1 ∨
    ¬ Childless env db tip ∧ Holds env db (getNextBlock env db tip) ∧
      tip.number < (getNextBlock env db tip).number := by
  have next := walked.unlinked.nextIsChild walked.sound walked.holds le_rfl
  by_cases childless : Childless env db tip
  · apply Or.inl
    refine ⟨childless, ?_⟩
    cases next.next with
    | inl none => exact none
    | inr child =>
        have apart := childless _ child.1
        rw [child.2] at apart
        cases apart
  · refine .inr ⟨childless, ?_⟩
    unfold Childless at childless
    push Not at childless
    obtain ⟨child, holds, connects⟩ := childless
    rw [Bool.ne_false_iff] at connects
    have positive := next_positive_of_child walked.sound walked.holds holds connects
    cases next.above with
    | inl none => omega
    | inr above => exact above

theorem connected_iff : (getConnectedLatestBlockId env db).1 = tip.number ↔ Childless env db tip := by
  have short := walked.short
  obtain ⟨guard, enough⟩ : ∃ guard, walkGuard = rest.length + (guard + 2) :=
    ⟨walkGuard - rest.length - 2, by omega⟩
  obtain ⟨before, reached⟩ := walk_through (guard + 2) walked.ascending walked.links walked.last
  have positive := walked.holds.trips.facts.1
  have atTip : walk env db (fun _ => false) (fun _ => false) (guard + 2) tip =
      if (getNextBlock env db tip).number ≤ 0 ∨ (getNextBlock env db tip).number = tip.number then
        [tip]
      else tip :: walk env db (fun _ => false) (fun _ => false) (guard + 1)
        (getNextBlock env db tip) := by
    rw [walk, if_neg (by simp [not_le.mpr positive]), if_neg Bool.false_ne_true]
  unfold getConnectedLatestBlockId
  dsimp only
  rw [if_neg (not_lt.mpr walked.started.le), walked.first, enough, reached, atTip]
  cases walked.next_tip with
  | inl ends =>
      rw [if_pos (.inl (by omega)), List.getLast?_append_of_ne_nil _ (List.cons_ne_nil _ _)]
      exact iff_of_true rfl ends.1
  | inr goes =>
      obtain ⟨child, nextHolds, above⟩ := goes
      rw [if_neg (by omega)]
      apply iff_of_false _ child
      have present : walk env db (fun _ => false) (fun _ => false) (guard + 1)
          (getNextBlock env db tip) ≠ [] := by
        rw [walk, if_neg (by simp [not_le.mpr nextHolds.trips.facts.1]), if_neg Bool.false_ne_true]
        dsimp only
        split
        · exact List.cons_ne_nil _ _
        · exact List.cons_ne_nil _ _
      obtain ⟨block, final⟩ := Option.isSome_iff_exists.mp (List.getLast?_isSome.mpr present)
      have later := walked.unlinked.walk_above walked.sound (guard + 1) nextHolds above.le block
        (List.mem_of_getLast? final)
      rw [List.getLast?_append_of_ne_nil _ (List.cons_ne_nil _ _), List.getLast?_cons, final]
      intro same
      simp only [Option.getD_some] at same
      omega

/-- The scan ends at the tip and keeps the latest number exactly where the tip is childless. -/
theorem scanned_iff (blank latestBlock : Block) :
    (∃ rounds final, scanChain env db blank latestBlock rounds = some final ∧
      getLatestBlockId final = tip.number) ↔ Childless env db tip := by
  have positive := walked.holds.trips.facts.1
  have started : ¬ getFirstBlockId db ≤ -1 := by
    have first := walked.started
    omega
  constructor
  · intro scanned
    obtain ⟨rounds, final, ended, same⟩ := scanned
    rw [scanChain, if_neg started, walked.first, Option.map_eq_some_iff] at ended
    obtain ⟨last, looped, written⟩ := ended
    cases walked.next_tip with
    | inl ends => exact ends.1
    | inr goes =>
        obtain ⟨-, nextHolds, above⟩ := goes
        have longer := scanLoop_mono (Nat.le_add_left rounds (rest.length + 1)) looped
        obtain ⟨parent, through⟩ := @scanLoop_through env db tip genesis blank latestBlock rest
          (rounds + 1) walked.ascending walked.links walked.last
        have order : rest.length + 1 + rounds = rest.length + (rounds + 1) := by omega
        rw [order, through, scanLoop, if_neg (not_le.mpr positive)] at longer
        dsimp only at longer
        rw [if_neg above.ne'] at longer
        obtain ⟨lastHolds, -, reached⟩ := walked.unlinked.scanLoop_above walked.sound rounds
          walked.holds (.inr ⟨nextHolds, above, above.le⟩) longer
        have beyond := reached nextHolds.trips.facts.1
        rw [if_pos (by rw [walked.latest]; omega)] at written
        rw [← written, getLatestBlockId_setLatestBlockId lastHolds.trips.facts.2.2] at same
        omega
  · intro childless
    obtain ⟨parent, through⟩ := @scanLoop_through env db tip genesis blank latestBlock rest 2
      walked.ascending walked.links walked.last
    have none : (getNextBlock env db tip).number = -1 := by
      cases walked.next_tip with
      | inl ends => exact ends.2
      | inr goes => exact absurd childless goes.1
    have ended : scanLoop env db blank (rest.length + 2) genesis latestBlock = some tip := by
      rw [through, scanLoop, if_neg (not_le.mpr positive)]
      dsimp only
      rw [if_neg (by omega), scanLoop, if_pos (by omega)]
    refine ⟨rest.length + 2, db, ?_, walked.latest⟩
    rw [scanChain, if_neg started, walked.first, ended, Option.map_some,
      if_neg (not_not.mpr walked.latest.symm)]

end WalkedStore

/-! ### After a rebuild -/

theorem get_nextBlock_eraseNextLinks (db : LevelDb) (number : Int) :
    (eraseNextLinks db).get (.nextBlock number) = [] := by
  have erased : isNextEntry (StoreKey.nextBlock number).text = true := by
    rw [isNextEntry_text]
    rfl
  rw [LevelDb.get_eq_getD, eraseNextLinks, Std.ExtTreeMap.getElem?_filter', erased]
  cases db[(StoreKey.nextBlock number).text]? with
  | none => rfl
  | some value => rfl

/-- The blocks of a chain before its last one have smaller numbers. -/
theorem link_written_below (ascending : Ascending chain) (last : chain.getLast? = some tip)
    {entry : StoreKey × Text} (written : entry ∈ writtenEntries env chain) :
    (∀ hash, entry.1 = .next hash → ∃ parent ∈ chain, parent.hash = hash ∧
        parent.number < tip.number) ∧
      ∀ number, entry.1 = .nextBlock number → number < tip.number := by
  cases mem_writtenEntries.mp written with
  | inl own =>
      obtain ⟨block, -, own⟩ := own
      simp only [blockEntries, List.mem_cons, List.not_mem_nil, or_false] at own
      rcases own with rfl | rfl | rfl
      · simp
      · simp
      · simp
  | inr link =>
      obtain ⟨before, parent, child, after, place, link⟩ := link
      have final : ∀ other, chain.getLast? = some other → tip.number = other.number := by
        intro other final
        rw [Option.some.inj (last.symm.trans final)]
      have below := ascending.below_last final place
      simp only [linkEntries, List.mem_cons, List.not_mem_nil, or_false] at link
      have member : parent ∈ chain := by
        rw [place]
        simp
      rcases link with rfl | rfl
      · refine ⟨by simp, fun number same => ?_⟩
        injection same with numbers
        omega
      · refine ⟨fun hash same => ?_, by simp⟩
        injection same with hashes
        exact ⟨parent, member, hashes, below⟩

theorem unlinkedFrom_rebuild (sound : Sound env db) (now : Int)
    (full : (tryValidatedCheckpointFastPath env db).1 = none)
    (positive : 0 < (rebuildBestChainIndex env now db).1) :
    UnlinkedFrom env (rebuildBestChainIndex env now db).2 (rebuildBestChainIndex env now db).1 := by
  obtain ⟨newTip, last, returned, written⟩ := rebuild_full now full positive
  have present : bestValidChain env db ≠ [] := by
    intro empty
    rw [empty] at last
    cases last
  have ascending := ascending_of_accepts (bestValidChain_accepts present)
  have rewritten := rewritten_rebuildBestChainIndex sound now
  intro block holds above
  rw [returned] at above
  have blockHolds := (holds_of_rewritten rewritten).mp holds
  have hashAbsent : ∀ entry ∈ writtenEntries env (bestValidChain env db),
      entry.1 ≠ .next block.hash := by
    intro entry member same
    obtain ⟨parent, listed, hashes, below⟩ := (link_written_below ascending last member).1 _ same
    rw [(sound.bestValidChain_holds parent listed).unique blockHolds hashes] at below
    omega
  have numberAbsent : ∀ entry ∈ writtenEntries env (bestValidChain env db),
      entry.1 ≠ .nextBlock block.number := by
    intro entry member same
    have below := (link_written_below ascending last member).2 _ same
    omega
  rw [written, get_finishChain rfl, get_finishChain rfl, writeChain_eq,
    LevelDb.get_putAll_of_absent hashAbsent, LevelDb.get_putAll_of_absent numberAbsent]
  exact ⟨get_next_eraseNextLinks _ _, get_nextBlock_eraseNextLinks _ _⟩

/-- The best path is accepted whole and within the depth of a rebuild. -/
def BestAccepted (env : Env) (db : LevelDb) : Prop :=
  ∀ best, StructurallyBest env db best → Accepts env best ∧ best.length ≤ maxRebuildChainDepth

theorem bestAccepted_iff {genesis : Block} (rooted : StoredGenesis env db genesis)
    (present : bestValidChain env db ≠ []) :
    BestAccepted env db ↔ StructurallyBest env db (bestValidChain env db) := by
  obtain ⟨accepted, best, structural, begins, longest⟩ :=
    longestAccepted_bestValidChain rooted present
  constructor
  · intro whole
    obtain ⟨acceptsBest, short⟩ := whole best structural
    rw [List.take_of_length_le short] at begins longest
    have same := begins.eq_of_length_le (longest best List.prefix_rfl acceptsBest).length_le
    exact same ▸ structural
  · intro own other structuralOther
    obtain rfl := structural.unique own
    obtain rfl := structural.unique structuralOther
    have taken := begins.length_le
    rw [List.length_take] at taken
    exact ⟨accepted, by omega⟩

/-- The tip of the chosen chain is childless exactly where the chain is the best path. -/
theorem childless_iff (sound : Sound env db) {genesis : Block} (rooted : StoredGenesis env db genesis)
    (last : (bestValidChain env db).getLast? = some tip) :
    Childless env db tip ↔ BestAccepted env db := by
  have present : bestValidChain env db ≠ [] := by
    intro empty
    rw [empty] at last
    cases last
  rw [bestAccepted_iff rooted present]
  constructor
  · intro childless
    obtain ⟨-, best, structural, begins, -⟩ := longestAccepted_bestValidChain rooted present
    obtain ⟨later, split⟩ := begins.trans (List.take_prefix _ _)
    cases later with
    | nil =>
        rw [List.append_nil] at split
        exact split ▸ structural
    | cons child later =>
        obtain ⟨before, chain⟩ := List.getLast?_eq_some_iff.mp last
        have path := structural.isPath.linked
        rw [← split, chain, List.append_assoc, List.singleton_append] at path
        have edge := (List.isChain_append_cons_cons.mp path).2.1
        have apart := childless child (sound.mem_getStoredBlocks.mp edge.1)
        rw [edge.2] at apart
        cases apart
  · intro structural child holds
    by_contra connects
    rw [Bool.not_eq_false] at connects
    have longer : StoredPath env db (bestValidChain env db ++ [child]) := by
      constructor
      case linked =>
        rw [List.isChain_append]
        refine ⟨structural.isPath.linked, List.isChain_singleton _, ?_⟩
        intro parent parentLast first head
        rw [last] at parentLast
        obtain rfl := Option.some.inj parentLast
        obtain rfl := Option.some.inj head
        exact ⟨sound.mem_getStoredBlocks.mpr holds, connects⟩
      case begins =>
        rw [List.head?_append_of_ne_nil _ present]
        exact structural.isPath.begins
    cases structural.best _ longer with
    | inl same => simp at same
    | inr beats =>
        cases beats with
        | inl shorter => simp at shorter
        | inr tied => simp at tied

theorem walkedStore_rebuild (sound : Sound env db) (now : Int)
    (full : (tryValidatedCheckpointFastPath env db).1 = none)
    (positive : 0 < (rebuildBestChainIndex env now db).1) :
    ∃ genesis rest tip, (rebuildBestChainIndex env now db).1 = tip.number ∧
      WalkedStore env (rebuildBestChainIndex env now db).2 genesis rest tip ∧
      (Childless env (rebuildBestChainIndex env now db).2 tip ↔ BestAccepted env db) := by
  obtain ⟨tip, last, returned, -⟩ := rebuild_full now full positive
  have present : bestValidChain env db ≠ [] := by
    intro empty
    rw [empty] at last
    cases last
  obtain ⟨root, rooted⟩ := sound.exists_storedGenesis present
  obtain ⟨accepted, latest, walks, slots⟩ := rebuild_walks_chosen_chain env now db sound.entriesTrip
    (.inl ⟨root, rooted⟩) full positive
  have rewritten := rewritten_rebuildBestChainIndex sound now
  have held := sound.bestValidChain_holds
  have childless := childless_iff sound rooted last
  have same : Childless env (rebuildBestChainIndex env now db).2 tip ↔ Childless env db tip := by
    unfold Childless
    simp only [holds_of_rewritten rewritten]
  have unlinked := unlinkedFrom_rebuild sound now full positive
  have short : (bestValidChain env db).length ≤ maxRebuildChainDepth := by
    obtain ⟨best, -, path⟩ := bestPath_spec rooted
    have begins := (@bestValidChain_isPrefix env db).length_le
    rw [path, List.length_take] at begins
    omega
  obtain ⟨genesis, rest, chain⟩ := List.exists_cons_of_ne_nil present
  refine ⟨genesis, rest, tip, returned, ?_, same.trans childless⟩
  rw [returned] at unlinked latest
  have links := walks.linksAlong
  rw [chain] at links accepted last short held
  constructor
  case sound => exact rewritten.sound
  case started =>
    rw [rewritten.first, ← rooted.2.1]
    exact (sound.mem_getStoredBlocks.mp rooted.1).trips.facts.1
  case first => exact links.start genesis rfl
  case ascending => exact ascending_of_accepts accepted
  case links => exact links.through
  case last => exact last
  case short =>
    rw [List.length_cons] at short
    unfold walkGuard
    unfold maxRebuildChainDepth at short
    omega
  case latest => exact latest
  case holds => exact rewritten.holds (held tip (List.mem_of_getLast? last))
  case unlinked => exact unlinked

/-- After the full path, the tip that the links reach is the accepted one, and a scan
keeps it as the latest number, exactly where the best path is accepted whole and
within the depth. -/
theorem walked_tip_iff (env : Env) (now : Int) (db : LevelDb) (sound : Sound env db)
    (full : (tryValidatedCheckpointFastPath env db).1 = none)
    (positive : 0 < (rebuildBestChainIndex env now db).1) :
    ((getConnectedLatestBlockId env (rebuildBestChainIndex env now db).2).1 =
        (rebuildBestChainIndex env now db).1 ↔ BestAccepted env db) ∧
      ∀ blank latestBlock,
        (∃ rounds after, scanChain env (rebuildBestChainIndex env now db).2 blank latestBlock rounds =
            some after ∧ getLatestBlockId after = (rebuildBestChainIndex env now db).1) ↔
          BestAccepted env db := by
  obtain ⟨genesis, rest, tip, returned, walked, childless⟩ := walkedStore_rebuild sound now full positive
  rw [returned]
  exact ⟨walked.connected_iff.trans childless,
    fun blank latestBlock => (walked.scanned_iff blank latestBlock).trans childless⟩

namespace Sample

theorem forked_not_bestAccepted : ¬ BestAccepted Sample.env forkedNode.db := by
  intro whole
  obtain ⟨best, structural, -⟩ := bestPath_spec storedGenesis_forked
  obtain ⟨rest, begins⟩ := forked_best_begins structural
  obtain ⟨-, state, connected⟩ := accepts_iff.mp (whole best structural).1
  rw [← begins] at connected
  obtain ⟨earlier, connectedBefore⟩ := connectChain_prefix connected
  exact duplicateBlock_not_accepted (accepts_iff.mpr ⟨by simp, earlier, connectedBefore⟩)

/-- The rebuild cuts the invalid branch off, and the links lead back onto it. -/
theorem fork_walked_past_tip :
    (tryValidatedCheckpointFastPath Sample.env forkedNode.db).1 = none ∧
      0 < (rebuildBestChainIndex Sample.env 0 forkedNode.db).1 ∧
      (getConnectedLatestBlockId Sample.env (rebuildBestChainIndex Sample.env 0 forkedNode.db).2).1 ≠
        (rebuildBestChainIndex Sample.env 0 forkedNode.db).1 ∧
      ∀ blank latestBlock rounds after,
        scanChain Sample.env (rebuildBestChainIndex Sample.env 0 forkedNode.db).2 blank latestBlock
          rounds = some after →
        getLatestBlockId after ≠ (rebuildBestChainIndex Sample.env 0 forkedNode.db).1 := by
  obtain ⟨genesis, rest, tip, returned, walked, childless⟩ :=
    walkedStore_rebuild tracked_forkedNode.sound 0 forked_full forked_positive
  rw [returned]
  refine ⟨forked_full, returned ▸ forked_positive, ?_, ?_⟩
  · intro same
    exact forked_not_bestAccepted (childless.mp (walked.connected_iff.mp same))
  · intro blank latestBlock rounds after ended same
    have scanned := (walked.scanned_iff blank latestBlock).mp ⟨rounds, after, ended, same⟩
    exact forked_not_bestAccepted (childless.mp scanned)

theorem walked_tip_of_forked :
    (tryValidatedCheckpointFastPath Sample.env forkedNode.db).1 = none ∧
      0 < (rebuildBestChainIndex Sample.env 0 forkedNode.db).1 ∧
      ((getConnectedLatestBlockId Sample.env (rebuildBestChainIndex Sample.env 0 forkedNode.db).2).1 =
          (rebuildBestChainIndex Sample.env 0 forkedNode.db).1 ↔
        BestAccepted Sample.env forkedNode.db) ∧
      ((∃ rounds after, scanChain Sample.env (rebuildBestChainIndex Sample.env 0 forkedNode.db).2
            .missing genesis rounds = some after ∧
          getLatestBlockId after = (rebuildBestChainIndex Sample.env 0 forkedNode.db).1) ↔
        BestAccepted Sample.env forkedNode.db) := by
  obtain ⟨links, scans⟩ :=
    walked_tip_iff Sample.env 0 forkedNode.db tracked_forkedNode.sound forked_full forked_positive
  exact ⟨forked_full, forked_positive, links, scans .missing genesis⟩

end Sample

end Safire
