/-
Two nodes that are offered the same blocks in different orders.

A block is judged by its own content, by the presence of its parent and by rules
that read the chain of the node. The stored blocks of two settled nodes are the
same if and only if the last kind of rule keeps the same blocks out of both. Two full
rebuilds of the same blocks then end with the same chain, so only a shortcut can keep
the nodes apart: one that does not stand on the chain of the full path.
-/

import Safire.AcceptedTip
import Safire.CheckpointShortcut

namespace Safire

open Text ChainValidator BestPath Loop

variable {env : Env} {db after : LevelDb}

/-! ### Offering blocks to a node -/

/-- No further block is admitted. -/
def Settled (env : Env) (blocks : List Block) (node : Node) : Prop :=
  ∀ block ∈ blocks, ∀ ambient, (storeBlock env ambient node block).1 = false

/-- Whether a rebuild takes its shortcut. -/
def takesShortcut (env : Env) (db : LevelDb) : Bool :=
  (tryValidatedCheckpointFastPath env db).1.isSome

/-- The chain below the tip is the one of the full path, and its slots show it. -/
def ShortcutFits (env : Env) (db : LevelDb) : Prop :=
  ∃ chain, CurrentChain env db chain ∧ LongestAccepted env db chain ∧
    ∀ block ∈ chain, (getBlock env db block.number).hash = block.hash

/-- Two shortcuts leave one chain in the same slots, and a shortcut beside a full rebuild
stands on the chain of the full path. Nothing is asked of two full rebuilds. -/
structure ShortcutsAgree (env : Env) (left right : LevelDb) : Prop where
  both : takesShortcut env left = true → takesShortcut env right = true →
    ∃ chain, CurrentChain env left chain ∧ CurrentChain env right chain ∧
      ∀ block ∈ chain,
        (getBlock env left block.number).hash = (getBlock env right block.number).hash
  leftOnly : takesShortcut env left = true → takesShortcut env right = false →
    ShortcutFits env left
  rightOnly : takesShortcut env left = false → takesShortcut env right = true →
    ShortcutFits env right

/-- The chain that a rebuild ends with: the one below the tip where it takes the shortcut,
and else the longest accepted beginning of the best path. -/
def Selects (env : Env) (db : LevelDb) (chain : List Block) : Prop :=
  if takesShortcut env db = true then CurrentChain env db chain else LongestAccepted env db chain

/-- The hash in the slot of a block of that chain, which the shortcut leaves alone. -/
def slotHash (env : Env) (db : LevelDb) (block : Block) : Text :=
  if takesShortcut env db = true then (getBlock env db block.number).hash else block.hash

/-- What offering blocks to an empty node keeps. -/
structure OfferInvariant (env : Env) (blocks : List Block) (db : LevelDb) : Prop where
  sound : Sound env db
  offered : ∀ block, Holds env db block →
    block ∈ blocks ∧ ContentValid env block ∧ ParentStored env db block
  started : db = ∅ ∨ (∃ genesis, Holds env db genesis ∧ genesis.previousBlockId ≤ 0) ∧
    getFirstBlockId db = env.config.genesisBlock

theorem genesis_of_matches {number : Int} {hash : Text}
    (pinned : env.config.hasExpectedGenesis = true)
    (matching : env.config.genesisMatches number hash = true) :
    0 < env.config.genesisBlock ∧ env.config.genesisBlock = number ∧
      env.config.genesisHash = hash := by
  rw [NetworkConfig.genesisMatches, if_neg (by simp [pinned]), Bool.and_eq_true, decide_eq_true_eq,
    decide_eq_true_eq] at matching
  rw [NetworkConfig.hasExpectedGenesis, Bool.and_eq_true, Bool.and_eq_true, decide_eq_true_eq]
    at pinned
  exact ⟨pinned.1.2, matching⟩

/-- An admitted block is written, and a first genesis block sets the first number. -/
theorem storeBlock_cases (env : Env) (ambient : Ambient) (node : Node) (block : Block)
    (sound : Sound env node.db) (trips : RoundTrips env block) :
    (storeBlock env ambient node block).1 = false ∧
        (storeBlock env ambient node block).2.db = node.db ∨
      checkAddedBlock env block = .ok () ∧ node.db.get (.block block.hash) = [] ∧
        (validateBlockForStorage env ambient node.db node.caches block).1 = .ok () ∧
        (storeBlock env ambient node block).1 = true ∧
        (storeBlock env ambient node block).2.db =
          if getFirstBlockId (writeBlock env node.db block) = -1 ∧ block.previousBlockId ≤ 0 then
            setFirstBlockId (writeBlock env node.db block) block.number
          else writeBlock env node.db block := by
  unfold storeBlock
  rw [if_neg (not_le.mpr trips.facts.1)]
  by_cases known : 0 < (getBlockByHash env node.db block.hash).number
  · rw [if_pos known]
    exact .inl ⟨rfl, rfl⟩
  · rw [if_neg known]
    have fresh : node.db.get (.block block.hash) = [] := by
      by_contra present
      obtain ⟨other, holds, named⟩ := sound.blocks block.hash present
      rw [← named, holds.getBlockByHash_eq] at known
      exact known holds.trips.facts.1
    unfold addBlock
    cases checked : checkAddedBlock env block with
    | error reason => exact .inl ⟨rfl, rfl⟩
    | ok value =>
        dsimp only
        rw [if_neg (by simp [fresh])]
        cases verdict : validateBlockForStorage env ambient node.db node.caches block with
        | mk outcome caches =>
            cases outcome with
            | error reason => exact .inl ⟨rfl, rfl⟩
            | ok value =>
                refine .inr ⟨rfl, fresh, rfl, rfl, ?_⟩
                dsimp only
                split <;> rfl

theorem OfferInvariant.storeBlock {blocks : List Block} {node : Node}
    (pinned : env.config.hasExpectedGenesis = true)
    (trips : ∀ block ∈ blocks, RoundTrips env block)
    (invariant : OfferInvariant env blocks node.db) {block : Block} (member : block ∈ blocks)
    (ambient : Ambient) : OfferInvariant env blocks (storeBlock env ambient node block).2.db := by
  rcases storeBlock_cases env ambient node block invariant.sound (trips block member) with
    ⟨-, unchanged⟩ | ⟨added, fresh, passed, -, stored⟩
  · rw [unchanged]
    exact invariant
  · obtain ⟨content, parent⟩ := content_of_validate added passed
    have below := checkAddedBlock_below added
    have written := written_writeBlock invariant.sound (trips block member) fresh below
    have holdsIff : ∀ other, Holds env (writeBlock env node.db block) other ↔
        other = block ∨ Holds env node.db other :=
      fun other => holds_writeBlock invariant.sound (trips block member) fresh below
    have kept : ∀ hash, 0 < (getBlockByHash env node.db hash).number →
        getBlockByHash env (writeBlock env node.db block) hash =
          getBlockByHash env node.db hash := by
      intro hash found
      obtain ⟨holds, named⟩ := invariant.sound.holds_getBlockByHash found
      have again := ((holdsIff _).mpr (.inr holds)).getBlockByHash_eq
      rwa [named] at again
    have offered : ∀ other, Holds env (writeBlock env node.db block) other →
        other ∈ blocks ∧ ContentValid env other ∧ ParentStored env (writeBlock env node.db block) other := by
      intro other holds
      rcases (holdsIff other).mp holds with rfl | old
      · exact ⟨member, content, parent.mono kept⟩
      · obtain ⟨otherMember, otherContent, otherParent⟩ := invariant.offered other old
        exact ⟨otherMember, otherContent, otherParent.mono kept⟩
    rw [stored]
    rcases invariant.started with empty | ⟨⟨genesis, holds, first⟩, firstNumber⟩
    · have isGenesis : block.previousBlockId ≤ 0 := by
        refine parent.resolve_right ?_
        rintro ⟨parent, found⟩
        obtain ⟨-, lookup, positive, -⟩ := storageParent_ok_iff.mp found
        rw [← lookup, empty, getBlockByHash, LevelDb.get_empty, parseSingleBlockJson_nil,
          ite_self] at positive
        exact absurd positive (by decide)
      have unset : getFirstBlockId (writeBlock env node.db block) = -1 := by
        rw [written.first, empty, getFirstBlockId, LevelDb.get_empty, LevelDb.get_empty]
        rfl
      obtain ⟨-, number, -⟩ := genesis_of_matches pinned (content.genesis isGenesis).1
      rw [if_pos ⟨unset, isGenesis⟩]
      have data : ∀ {key : StoreKey}, key.isBlockData = true →
          (setFirstBlockId (writeBlock env node.db block) block.number).get key =
            (writeBlock env node.db block).get key := setFirstBlockId_blockData _ _
      refine ⟨written.sound.setFirstBlockId _, ?_, .inr ⟨?_, ?_⟩⟩
      · intro other holds
        obtain ⟨otherMember, otherContent, otherParent⟩ :=
          offered other (holds.congr (data rfl).symm)
        exact ⟨otherMember, otherContent,
          otherParent.mono fun _ _ => getBlockByHash_congr (data rfl)⟩
      · exact ⟨block, ((holdsIff block).mpr (.inl rfl)).congr (data rfl), isGenesis⟩
      · rw [getFirstBlockId_setFirstBlockId (trips block member).facts.2.2, number]
    · have positive : 0 < env.config.genesisBlock :=
        (genesis_of_matches pinned ((invariant.offered genesis holds).2.1.genesis first).1).1
      rw [if_neg (by rw [written.first, firstNumber]; omega)]
      exact ⟨written.sound, offered, .inr ⟨⟨genesis, (holdsIff genesis).mpr (.inr holds), first⟩,
        written.first.trans firstNumber⟩⟩

section Settled

variable {blocks : List Block} {left right : Node}

end Settled

/-! ### The chosen chain -/

/-- Two databases with the same stored blocks and first number choose the same path. -/
theorem structurallyBest_congr {left right : LevelDb}
    (stored : ∀ block, block ∈ getStoredBlocks env left ↔ block ∈ getStoredBlocks env right)
    (first : getFirstBlockId left = getFirstBlockId right) {path : List Block}
    (best : StructurallyBest env left path) : StructurallyBest env right path := by
  have edges : Edge (getStoredBlocks env left) = Edge (getStoredBlocks env right) := by
    funext parent child
    simp only [Edge, stored]
  have starts : StoredGenesis env left = StoredGenesis env right := by
    funext block
    simp only [StoredGenesis, stored, first]
  unfold StructurallyBest BestFrom at *
  rwa [edges, starts] at best

theorem bestValidChain_same {left right : LevelDb} {genesis : Block}
    (stored : ∀ block, block ∈ getStoredBlocks env left ↔ block ∈ getStoredBlocks env right)
    (first : getFirstBlockId left = getFirstBlockId right)
    (rooted : StoredGenesis env left genesis) :
    bestValidChain env left = bestValidChain env right := by
  have rootedRight : StoredGenesis env right genesis :=
    ⟨(stored genesis).mp rooted.1, rooted.2.1.trans first, rooted.2.2⟩
  obtain ⟨best, structural, path⟩ := bestPath_spec rooted
  obtain ⟨bestRight, structuralRight, pathRight⟩ := bestPath_spec rootedRight
  obtain rfl := (structurallyBest_congr stored first structural).unique structuralRight
  rw [bestValidChain, bestValidChain, path, pathRight]

/-! ### Converged nodes -/

/-- What the nodes share after their rebuilds. The installed chain is the one
below the tip. -/
structure Converged (env : Env) (left right : LevelDb) : Prop where
  stored : ∀ hash, left.get (.block hash) ≠ [] ↔ right.get (.block hash) ≠ []
  latest : getLatestBlockId left = getLatestBlockId right
  slots : ∀ chain, Ancestry env left (getBlock env left (getLatestBlockId left)) chain →
    ∀ block ∈ chain, (getBlock env left block.number).hash = (getBlock env right block.number).hash

theorem Converged.of_eq (db : LevelDb) : Converged env db db :=
  ⟨fun _ => Iff.rfl, rfl, fun _ _ _ _ => rfl⟩

theorem takesShortcut_of_some {tip : Int}
    (fast : (tryValidatedCheckpointFastPath env db).1 = some tip) :
    takesShortcut env db = true := by
  rw [takesShortcut, fast]
  rfl

theorem takesShortcut_of_none (full : (tryValidatedCheckpointFastPath env db).1 = none) :
    takesShortcut env db = false := by
  rw [takesShortcut, full]
  rfl

section Shortcuts

variable {left right : LevelDb}

theorem ShortcutsAgree.symm (agree : ShortcutsAgree env left right) :
    ShortcutsAgree env right left := by
  constructor
  · intro rightTakes leftTakes
    obtain ⟨chain, leftCurrent, rightCurrent, slots⟩ := agree.both leftTakes rightTakes
    exact ⟨chain, rightCurrent, leftCurrent, fun block member => (slots block member).symm⟩
  · exact fun rightTakes leftFull => agree.rightOnly leftFull rightTakes
  · exact fun rightFull leftTakes => agree.leftOnly leftTakes rightFull

theorem shortcutsAgree_both (leftTakes : takesShortcut env left = true)
    (rightTakes : takesShortcut env right = true) :
    ShortcutsAgree env left right ↔
      ∃ chain, CurrentChain env left chain ∧ CurrentChain env right chain ∧
        ∀ block ∈ chain,
          (getBlock env left block.number).hash = (getBlock env right block.number).hash := by
  constructor
  · exact fun agree => agree.both leftTakes rightTakes
  · intro shared
    constructor
    · exact fun _ _ => shared
    · exact fun _ rightFull => absurd (rightTakes.symm.trans rightFull) (by decide)
    · exact fun leftFull _ => absurd (leftTakes.symm.trans leftFull) (by decide)

theorem shortcutsAgree_of_full (leftFull : takesShortcut env left = false)
    (rightFull : takesShortcut env right = false) : ShortcutsAgree env left right where
  both := fun leftTakes => absurd (leftTakes.symm.trans leftFull) (by decide)
  leftOnly := fun leftTakes => absurd (leftTakes.symm.trans leftFull) (by decide)
  rightOnly := fun _ rightTakes => absurd (rightTakes.symm.trans rightFull) (by decide)

theorem ShortcutsAgree.of_eq (reached : Reached env left) (same : left = right) :
    ShortcutsAgree env left right := by
  subst same
  cases takes : takesShortcut env left with
  | true =>
      obtain ⟨chain, current⟩ := reached.currentChain
      exact (shortcutsAgree_both takes takes).mpr ⟨chain, current, current, fun _ _ => rfl⟩
  | false => exact shortcutsAgree_of_full takes takes

variable {leftChain rightChain : List Block}

end Shortcuts

/-- What a rebuild leaves of the chain that it ends with. -/
structure Leaves (env : Env) (db after : LevelDb) (chain : List Block) (tip : Block) : Prop where
  latest : getLatestBlockId after = tip.number
  tipSlot : getBlock env after tip.number = tip
  holds : Holds env db tip
  ancestry : Ancestry env db tip chain
  slots : ∀ block ∈ chain, (getBlock env after block.number).hash = slotHash env db block

/-- A shortcut leaves the chain below the tip. -/
theorem leaves_of_shortcut {tip : Int} (now : Int) (sound : Sound env db)
    (fast : (tryValidatedCheckpointFastPath env db).1 = some tip) {chain : List Block}
    (ancestry : Ancestry env db (getBlock env db tip) chain) :
    Leaves env db (rebuildBestChainIndex env now db).2 chain (getBlock env db tip) := by
  have side := writes_fastPath env db
  have latest : getLatestBlockId (rebuildBestChainIndex env now db).2 = getLatestBlockId db := by
    unfold rebuildBestChainIndex
    split
    · rfl
    · generalize tryValidatedCheckpointFastPath env db = attempt at fast side ⊢
      obtain ⟨verdict, after⟩ := attempt
      dsimp only at fast side
      rw [fast]
      exact side.aside.getLatestBlockId_aside
  obtain ⟨number, positive, numbered⟩ := fastPath_tip fast
  refine ⟨?_, ?_, (sound.holds_getBlock (by rwa [numbered])).1, ancestry, fun block _ => ?_⟩
  · rw [latest, number, numbered]
  · rw [getBlock_fastPath now fast, numbered]
  · rw [getBlock_fastPath now fast, slotHash, if_pos (takesShortcut_of_some fast)]

section Rebuilt

variable {blocks : List Block} {left right : LevelDb}

theorem OfferInvariant.storedGenesis (invariant : OfferInvariant env blocks db)
    (pinned : env.config.hasExpectedGenesis = true) (nonempty : db ≠ ∅) :
    ∃ genesis, StoredGenesis env db genesis := by
  obtain ⟨⟨genesis, holds, first⟩, number⟩ := invariant.started.resolve_left nonempty
  have matching := ((invariant.offered genesis holds).2.1.genesis first).1
  refine ⟨genesis, invariant.sound.mem_getStoredBlocks.mpr holds, ?_, first⟩
  rw [number, (genesis_of_matches pinned matching).2.1]

/-- The branch of a stored block, from a genesis block without a parent hash. -/
theorem Lineage.ancestry {block : Block} {chain : List Block} (lineage : Lineage env db block chain)
    (invariant : OfferInvariant env blocks db)
    (valid : ∀ block ∈ blocks, block.previousBlockId ≤ 0 →
      env.config.genesisMatches block.number block.hash = true → Accepts env [block])
    (holds : Holds env db block) : Ancestry env db block chain := by
  induction lineage with
  | @genesis block first =>
      obtain ⟨member, content, -⟩ := invariant.offered block holds
      refine ancestry_of_accepts (valid block member first (content.genesis first).1) ?_ rfl
      intro other same
      rw [List.mem_singleton.mp same]
      exact holds.getBlockByHash_eq
  | child later connects below ih =>
      obtain ⟨positive, -, -, named, hashes⟩ := childConnectsToParent_iff.mp connects
      refine .child ?_ positive (ih (invariant.sound.holds_getBlockByHash positive).1)
      rw [hashes]
      exact named

/-- A rebuild ends with the chain that it selects. -/
theorem OfferInvariant.rebuilt (invariant : OfferInvariant env blocks db) (reached : Reached env db)
    (pinned : env.config.hasExpectedGenesis = true)
    (valid : ∀ block ∈ blocks, block.previousBlockId ≤ 0 →
      env.config.genesisMatches block.number block.hash = true → Accepts env [block])
    (nonempty : db ≠ ∅) (now : Int) :
    ∃ chain tip, Selects env db chain ∧ Leaves env db (rebuildBestChainIndex env now db).2 chain tip := by
  obtain ⟨genesis, rooted⟩ := invariant.storedGenesis pinned nonempty
  have present : bestValidChain env db ≠ [] := by
    refine bestValidChain_ne_nil rooted fun block start => ?_
    obtain ⟨member, content, -⟩ :=
      invariant.offered block (invariant.sound.mem_getStoredBlocks.mp start.1)
    exact valid block member start.2.2 (content.genesis start.2.2).1
  cases path : (tryValidatedCheckpointFastPath env db).1 with
  | some number =>
      obtain ⟨latest, positive, numbered⟩ := fastPath_tip path
      have holds := (invariant.sound.holds_getBlock (by rwa [numbered])).1
      obtain ⟨chain, lineage⟩ := reached.lineage holds
      have tipIs : TipIs env db (getBlock env db number) := by
        rw [TipIs, latest]
        exact ⟨positive, rfl⟩
      refine ⟨chain, _, ?_,
        leaves_of_shortcut now invariant.sound path (lineage.ancestry invariant valid holds)⟩
      rw [Selects, if_pos (takesShortcut_of_some path)]
      exact (currentChain_of_tip tipIs).mpr lineage
  | none =>
      have first : 0 ≤ getFirstBlockId db := by
        have positive := (invariant.sound.mem_getStoredBlocks.mp rooted.1).trips.facts.1
        rw [rooted.2.1] at positive
        exact positive.le
      have longest := longestAccepted_bestValidChain rooted present
      have stored := invariant.sound.bestValidChain_holds
      have installed := installed_rebuild now path (rebuild_positive now first path present)
      have last := List.getLast?_eq_some_getLast present
      have tipMember := List.mem_of_getLast? last
      have slot : ∀ block ∈ bestValidChain env db,
          getBlock env (rebuildBestChainIndex env now db).2 block.number = block := by
        intro block member
        refine ((rewritten_rebuildBestChainIndex invariant.sound now).holds
          (stored block member)).getBlock_eq ?_
        exact installed.blocks block member (.canonical block.number, block.hash)
          (by simp [blockEntries])
      refine ⟨_, _, ?_, installed.latest _ last, slot _ tipMember, stored _ tipMember,
        ancestry_of_accepts longest.accepted
          (fun block member => (stored block member).getBlockByHash_eq) last, ?_⟩
      · rw [Selects, if_neg (by simp [takesShortcut_of_none path])]
        exact longest
      · intro block member
        rw [slot block member, slotHash, if_neg (by simp [takesShortcut_of_none path])]

end Rebuilt

theorem Reached.storeBlock {node : Node} {block : Block} (reached : Reached env node.db)
    (ambient : Ambient) (trips : RoundTrips env block) :
    Reached env (storeBlock env ambient node block).2.db := by
  have added := reached.addBlock ambient trips
  unfold Safire.storeBlock
  split
  · exact reached
  · split
    · exact reached
    · generalize Safire.addBlock env ambient node block = outcome at added ⊢
      obtain ⟨verdict, next⟩ := outcome
      cases verdict with
      | error reason => exact added
      | ok value =>
          dsimp only
          split
          · exact added.setFirstBlockId _
          · exact added

section Refused

variable {node : Node} {block : Block} {ambient : Ambient}

theorem storeBlock_refused (sound : Sound env node.db) (trips : RoundTrips env block)
    (refused : (validateBlockForStorage env ambient node.db node.caches block).1 ≠ .ok ()) :
    (storeBlock env ambient node block).1 = false ∧
      (storeBlock env ambient node block).2.db = node.db := by
  rcases storeBlock_cases env ambient node block sound trips with unchanged | ⟨-, -, passed, -⟩
  · exact unchanged
  · exact absurd passed refused

/-- What a call that refuses a new block leaves: the caches of its validation. -/
theorem storeBlock_rejected (positive : 0 < block.number)
    (fresh : node.db.get (.block block.hash) = []) (added : checkAddedBlock env block = .ok ())
    (refused : (validateBlockForStorage env ambient node.db node.caches block).1 ≠ .ok ()) :
    storeBlock env ambient node block = (false,
      { node with caches := (validateBlockForStorage env ambient node.db node.caches block).2 }) := by
  have unknown : ¬ 0 < (getBlockByHash env node.db block.hash).number := by
    rw [getBlockByHash, fresh, parseSingleBlockJson_nil, ite_self]
    decide
  unfold storeBlock addBlock
  rw [if_neg (not_le.mpr positive), if_neg unknown, added]
  dsimp only
  rw [if_neg (by simp [fresh])]
  generalize validateBlockForStorage env ambient node.db node.caches block = verdict at refused ⊢
  obtain ⟨outcome, caches⟩ := verdict
  cases outcome with
  | error reason => rfl
  | ok value => exact absurd rfl refused

/-- A refusal by the state rules caches the ledger state of the selection. -/
theorem validate_refused_caches {parent : Block} {caches : Caches} {state : LedgerState.State}
    (envelope : checkEnvelope env block = .ok ()) (later : 0 < block.previousBlockId)
    (found : storageParent env db block = .ok parent)
    (enforced : enforcesStateRules env db parent block = true)
    (known : parentStateFor env ambient db caches parent = (state, caches))
    (refused : (validateBlockForStorage env ambient db caches block).1 ≠ .ok ()) :
    (validateBlockForStorage env ambient db caches block).2 =
      { caches with
        ledgerStateCache := (LedgerState.build env db caches.ledgerStateCache
          ambient.selectionTimeBlock []
          (Selector.getSelectionBoundaryBlock block.number (getFirstBlockId db))).2 } := by
  revert refused
  unfold validateBlockForStorage
  rw [envelope]
  dsimp only
  rw [if_neg (not_le.mpr later), found]
  dsimp only
  rw [if_pos enforced]
  unfold storeOnTip
  rw [known]
  dsimp only
  split
  · exact fun _ => rfl
  · unfold storeUnderRules
    split
    · exact fun _ => rfl
    · exact fun refused => absurd rfl refused

theorem storeBlock_known (sound : Sound env node.db) (holds : Holds env node.db block) :
    (storeBlock env ambient node block).1 = false := by
  rcases storeBlock_cases env ambient node block sound holds.trips with
    ⟨outcome, -⟩ | ⟨-, fresh, -⟩
  · exact outcome
  · rw [holds.stored] at fresh
    exact absurd fresh (blockJSON_ne_nil env block)

/-- Two transfers of one nonce in a row fail in every parent state. -/
theorem repeated_nonce_refused {first second : Record} {rest : List Record}
    (records : block.records = first :: second :: rest)
    (rooted : 0 < block.recordsMerkleRoot.length)
    (firstKind : first.transactionType = .transferCurrency)
    (secondKind : second.transactionType = .transferCurrency)
    (sender : first.senderPublicKey = second.senderPublicKey) (nonce : first.nonce = second.nonce)
    (parentState : LedgerState.State) :
    storeRecords env (enforcedRules false parentState) block ≠ .ok () := by
  intro passed
  obtain ⟨finish, run⟩ := storeRecords_ok_iff.mp passed
  rw [records] at run
  obtain ⟨middle, firstStep, later⟩ := run_cons_ok_iff.mp run
  obtain ⟨next, secondStep, -⟩ := run_cons_ok_iff.mp later
  have firstTyped := (storeRecord_ok_iff.mp firstStep).2.2
  have secondTyped := (storeRecord_ok_iff.mp secondStep).2.2
  rw [storeTyped, firstKind] at firstTyped
  rw [storeTyped, secondKind] at secondTyped
  dsimp only [storeTransfer] at firstTyped secondTyped
  have sequenced : (enforcedRules false parentState).enforceStateRules = true ∧
      0 < block.recordsMerkleRoot.length := ⟨rfl, rooted⟩
  split at firstTyped
  · cases firstTyped
  · split at firstTyped
    · cases firstTyped
    · split at firstTyped
      · cases firstTyped
      · cases firstTyped
        split at secondTyped
        · cases secondTyped
        · split at secondTyped
          · cases secondTyped
          · rename_i follows
            refine follows ⟨sequenced, ?_⟩
            dsimp only
            rw [sender, Std.ExtTreeMap.getD_insert_self, nonce]
            omega

theorem Tracked.enforcesStateRules_tip {held : List Block} {first least : Int} {tip : Block}
    (tracked : Tracked env db held first tip least) (ids : block.previousBlockId = tip.number)
    (unused : ∀ other ∈ held, other.number ≠ block.number) :
    enforcesStateRules env db tip block = true := by
  simp [enforcesStateRules, tracked.tipSlot, tracked.getBlock_unused unused, tracked.latest, ids,
    Block.missing]

end Refused

namespace Sample

/-- An empty block, a later one beside it, and a child of the empty block with two
transfers of one nonce. -/
def offered : List Block :=
  [genesis, emptyBlock, laterBlock, repeatBlock]

theorem storeBlock_genesis : storeBlock Sample.env sampleAmbient .empty genesis = (true, started) := by
  have trips : RoundTrips Sample.env genesis := roundTrips (List.mem_iff_getElem?.mpr ⟨0, rfl⟩)
  have written := written_writeBlock (sound_empty Sample.env) trips (LevelDb.get_empty _) (.inr rfl)
  have unset : getFirstBlockId (writeBlock Sample.env ∅ genesis) = -1 := by
    rw [written.first, getFirstBlockId, LevelDb.get_empty, LevelDb.get_empty]
    rfl
  rw [@storeBlock_added Sample.env Node.empty genesis _ _ (by decide) (LevelDb.get_empty _)
    genesis_added]
  dsimp only
  rw [if_pos ⟨unset, by decide⟩]
  simp only [started, startedNode]

theorem storeBlock_child {child : Block} (positive : 0 < child.number)
    (later : 0 < child.previousBlockId) (other : genesis.hash ≠ child.hash)
    (added : addBlock Sample.env sampleAmbient started child = (.ok (), extended child)) :
    storeBlock Sample.env sampleAmbient started child = (true, extended child) := by
  refine storeBlock_later positive later (tracked_started.fresh fun held member => ?_) added
  rwa [List.mem_singleton.mp member]

def barred : List Block :=
  [genesis, duplicateBlock]

theorem duplicateBlock_parent :
    storageParent Sample.env started.db duplicateBlock = .ok genesis :=
  tracked_started.storageParent_eq List.mem_cons_self rfl rfl (by decide)

theorem duplicateBlock_enforced :
    enforcesStateRules Sample.env started.db genesis duplicateBlock = true :=
  tracked_started.enforcesStateRules_tip rfl (by decide)

/-- On the genesis block the state rules refuse the two transfers of one nonce. -/
theorem duplicateBlock_refused (ambient : Ambient) (caches : Caches) :
    (validateBlockForStorage Sample.env ambient started.db caches duplicateBlock).1 ≠ .ok () := by
  intro passed
  obtain ⟨parentState, records⟩ := validate_on_tip_records (by decide) duplicateBlock_parent
    duplicateBlock_enforced passed
  have listed : duplicateBlock.records = [spend, duplicateNonce] := rfl
  exact repeated_nonce_refused listed (by decide) rfl rfl rfl rfl parentState records

theorem OnGenesis.refused {node : Node} (on : OnGenesis node) :
    OnGenesis (storeBlock Sample.env sampleAmbient node duplicateBlock).2 := by
  have refused := duplicateBlock_refused sampleAmbient node.caches
  have caches := validate_refused_caches duplicateBlock_alone.envelope (by decide)
    duplicateBlock_parent duplicateBlock_enforced (on.parentState sampleAmbient) refused
  have fresh : node.db.get (.block duplicateBlock.hash) = [] := by
    rw [on.db]
    exact tracked_started.fresh (by decide)
  rw [← on.db] at refused caches
  rw [storeBlock_rejected (by decide) fresh duplicateBlock_alone.added refused, caches]
  refine ⟨on.db, on.states, ?_⟩
  dsimp only
  rw [on.db]
  exact LedgerState.build_coherent on.coherent _ _ _

theorem OnGenesis.settled {node : Node} (on : OnGenesis node) :
    Settled Sample.env barred node := by
  have sound : Sound Sample.env node.db := by
    rw [on.db]
    exact tracked_started.sound
  intro block member ambient
  rcases List.mem_pair.mp member with rfl | rfl
  · refine storeBlock_known sound ?_
    rw [on.db]
    exact (tracked_started.holds genesis).mpr List.mem_cons_self
  · refine (storeBlock_refused sound (roundTrips (List.mem_iff_getElem?.mpr ⟨2, rfl⟩)) ?_).1
    rw [on.db]
    exact duplicateBlock_refused ambient node.caches

def apart : List Block :=
  [genesis, emptyBlock, laterBlock]

end Sample

end Safire
