/-
The branch below a stored block: its ancestors from a genesis block on.

Every block of a reached store has one branch. It is what an adoption collects,
and what stands below the tip after a rebuild or an adoption.
-/

import Safire.IndexIntegrity

namespace Safire

open Text ChainValidator

variable {env : Env} {db after : LevelDb} {block : Block} {chain : List Block}

/-- The blocks from a genesis block to a block, each connected to the one before. -/
inductive Lineage (env : Env) (db : LevelDb) : Block → List Block → Prop where
  | genesis {block : Block} : block.previousBlockId ≤ 0 → Lineage env db block [block]
  | child {block : Block} {chain : List Block} : 0 < block.previousBlockId →
      childConnectsToParent block (getBlockByHash env db block.previousBlockHash) = true →
      Lineage env db (getBlockByHash env db block.previousBlockHash) chain →
      Lineage env db block (chain ++ [block])

namespace Lineage

theorem unique {other : List Block} (lineage : Lineage env db block chain)
    (again : Lineage env db block other) : chain = other := by
  induction lineage generalizing other with
  | genesis first =>
      cases again with
      | genesis _ => rfl
      | child later _ _ => exact absurd first (not_le.mpr later)
  | child later _ _ ih =>
      cases again with
      | genesis first => exact absurd first (not_le.mpr later)
      | child _ _ below => rw [ih below]

theorem congr (lineage : Lineage env db block chain)
    (same : ∀ hash, after.get (.block hash) = db.get (.block hash)) :
    Lineage env after block chain := by
  induction lineage with
  | genesis first => exact .genesis first
  | @child block chain later connects _ ih =>
      have lookup : getBlockByHash env after block.previousBlockHash =
          getBlockByHash env db block.previousBlockHash := getBlockByHash_congr (same _)
      apply Lineage.child later
      · rw [lookup]
        exact connects
      · rw [lookup]
        exact ih

theorem of_rewritten (rewritten : Rewritten env db after) :
    Lineage env after block chain ↔ Lineage env db block chain :=
  ⟨fun lineage => lineage.congr fun hash => (rewritten.contents hash).symm,
    fun lineage => lineage.congr rewritten.contents⟩

theorem last (lineage : Lineage env db block chain) : chain.getLast? = some block := by
  cases lineage with
  | genesis first => rfl
  | child later connects below => exact List.getLast?_concat

theorem linked (lineage : Lineage env db block chain) :
    chain.IsChain fun parent child => childConnectsToParent child parent = true := by
  induction lineage with
  | genesis first => exact List.isChain_singleton _
  | child later connects below ih =>
      rw [List.isChain_append]
      refine ⟨ih, List.isChain_singleton _, ?_⟩
      intro parent last child first
      rw [below.last, Option.mem_some_iff] at last
      rw [List.head?_cons, Option.mem_some_iff] at first
      rw [← last, ← first]
      exact connects

theorem head (lineage : Lineage env db block chain) :
    ∃ genesis, chain.head? = some genesis ∧ genesis.previousBlockId ≤ 0 := by
  induction lineage with
  | @genesis block first => exact ⟨block, rfl, first⟩
  | child later connects below ih =>
      obtain ⟨genesis, head, first⟩ := ih
      exact ⟨genesis, by rw [List.head?_append, head, Option.some_or], first⟩

theorem held (lineage : Lineage env db block chain) (sound : Sound env db)
    (holds : Holds env db block) : ∀ other ∈ chain, Holds env db other := by
  induction lineage with
  | genesis first =>
      intro other member
      rw [List.mem_singleton.mp member]
      exact holds
  | child later connects below ih =>
      have parent := sound.holds_getBlockByHash (childConnectsToParent_iff.mp connects).1
      intro other member
      cases List.mem_append.mp member with
      | inl early => exact ih parent.1 other early
      | inr final =>
          rw [List.mem_singleton.mp final]
          exact holds

theorem sorted (lineage : Lineage env db block chain) :
    chain.Pairwise fun earlier later => earlier.number < later.number := by
  have grows : chain.IsChain fun earlier later => earlier.number < later.number :=
    lineage.linked.imp fun _ _ connects => (childConnectsToParent_iff.mp connects).2.2.1
  exact List.isChain_iff_pairwise.mp grows

/-- Numbers grow along a branch, so a block is found by its number. -/
theorem separate (lineage : Lineage env db block chain) (sound : Sound env db)
    (holds : Holds env db block) : Separate chain where
  numbers := List.pairwise_map.mpr (lineage.sorted.imp fun below => below.ne)
  hashes := by
    have held := lineage.held sound holds
    rw [List.nodup_map_iff_inj_on (List.Nodup.of_map Block.number
      (List.pairwise_map.mpr (lineage.sorted.imp fun below => below.ne)))]
    exact fun left leftMember right rightMember same =>
      (held left leftMember).unique (held right rightMember) same

end Lineage

/-- Every block of a reached store has a branch. -/
theorem Reached.lineage (reached : Reached env db) (holds : Holds env db block) :
    ∃ chain, Lineage env db block chain := by
  obtain ⟨bound, size⟩ : ∃ bound, block.number.toNat = bound := ⟨_, rfl⟩
  induction bound using Nat.strong_induction_on generalizing block with
  | _ bound ih =>
      by_cases first : block.previousBlockId ≤ 0
      · exact ⟨[block], .genesis first⟩
      · rw [not_le] at first
        obtain ⟨parentHolds, connects⟩ :=
          (reached.admitted block holds).2.connects reached.sound first
        obtain ⟨positive, -, above, -⟩ := childConnectsToParent_iff.mp connects
        obtain ⟨chain, lineage⟩ := ih _ (by omega) parentHolds rfl
        exact ⟨chain ++ [block], .child first connects lineage⟩

/-- An accepted chain of stored blocks is the branch of its last block. -/
theorem lineage_of_accepts {tip : Block} (accepted : Accepts env chain)
    (stored : ∀ block ∈ chain, getBlockByHash env db block.hash = block)
    (last : chain.getLast? = some tip) : Lineage env db tip chain := by
  induction chain using List.reverseRecOn generalizing tip with
  | nil => cases last
  | append_singleton before block ih =>
      obtain rfl : block = tip := by simpa using last
      cases List.eq_nil_or_concat before with
      | inl alone =>
          rw [alone, List.nil_append] at accepted ⊢
          exact .genesis (genesis_of_accepts accepted).1
      | inr grown =>
          obtain ⟨front, parent, rfl⟩ := grown
          rw [List.concat_eq_append] at *
          obtain ⟨-, state, connected⟩ := accepts_iff.mp accepted
          obtain ⟨parentState, below, -⟩ := connectChain_snoc_ok_iff.mp connected
          have place : front ++ [parent] ++ [block] = front ++ parent :: block :: [] := by simp
          have connects := connects_of_accepts accepted place
          obtain ⟨positive, ids, -, -, hashes⟩ := childConnectsToParent_iff.mp connects
          have lookup : getBlockByHash env db block.previousBlockHash = parent := by
            rw [hashes, stored parent (by simp)]
          apply Lineage.child (by omega)
          · rw [lookup]
            exact connects
          · rw [lookup]
            exact ih (accepts_iff.mpr ⟨by simp, parentState, below⟩)
              (fun other member => stored other (List.mem_append_left _ member)) (by simp)

/-! ### The collected branch -/

/-- A successful collection is the branch of its tip, in front of what was collected. -/
theorem collectBranch_lineage {firstBlockId : Int} (rounds : Nat) :
    ∀ {visited : TextSet} {collected branch : List Block} {current : Block},
      0 < current.number → current.hash ≠ [] → current.number.toNat ≤ rounds →
      collectBranch env db firstBlockId rounds visited collected current = some branch →
      ∃ chain, Lineage env db current chain ∧ branch = chain ++ collected := by
  induction rounds with
  | zero =>
      intro visited collected branch current positive _ enough
      omega
  | succ rounds ih =>
      intro visited collected branch current positive named enough found
      rcases collectBranch_cases found with ⟨unusable, -⟩ | ⟨-, ⟨first, -, rfl⟩ | ⟨later, connects, rest⟩⟩
      · exact absurd unusable (not_or.mpr ⟨not_le.mpr positive, named⟩)
      · exact ⟨[current], .genesis first, rfl⟩
      · obtain ⟨parentPositive, -, above, parentNamed, -⟩ := childConnectsToParent_iff.mp connects
        obtain ⟨chain, lineage, rfl⟩ := ih parentPositive parentNamed (by omega) rest
        exact ⟨chain ++ [current], .child later connects lineage, by simp⟩

theorem Adoptable.lineage {tipHash : Text} {tip : Block} {branch : List Block}
    (adoptable : Adoptable env db tipHash tip branch) : Lineage env db tip branch := by
  obtain ⟨positive, named, -⟩ := adoptable.holds.trips.facts
  obtain ⟨chain, lineage, rfl⟩ := collectBranch_lineage _ positive named le_rfl adoptable.collected
  rw [List.append_nil]
  exact lineage

theorem blockEnvelopeIsValid_of_checkEnvelope (checked : checkEnvelope env block = .ok ()) :
    blockEnvelopeIsValid env block = true := by
  unfold checkEnvelope at checked
  split_ifs at checked with number hash records root digest creator signature
  rw [not_or, not_not] at signature
  rw [blockEnvelopeIsValid, if_neg (not_or.mpr ⟨number, not_or.mpr ⟨hash, creator⟩⟩),
    if_neg records, if_neg root, if_neg digest, signature.2]
  simpa using List.length_pos_iff.mpr fun empty => signature.1 (List.length_eq_zero_iff.mpr empty)

/-- A stored branch that starts at the first number is collected. -/
theorem Reached.collectBranch_eq (reached : Reached env db) {firstBlockId : Int}
    (lineage : Lineage env db block chain) (holds : Holds env db block)
    (head : ∀ genesis, chain.head? = some genesis → genesis.number = firstBlockId) :
    ∀ {rounds : Nat} {visited : TextSet} (collected : List Block),
      block.number.toNat ≤ rounds → (∀ other ∈ chain, other.hash ∉ visited) →
      collectBranch env db firstBlockId rounds visited collected block =
        some (chain ++ collected) := by
  induction lineage with
  | @genesis block first =>
      intro rounds visited collected enough fresh
      obtain ⟨positive, named, -⟩ := holds.trips.facts
      obtain ⟨content, -⟩ := reached.admitted block holds
      obtain ⟨rounds, rfl⟩ : ∃ fewer, rounds = fewer + 1 := ⟨rounds - 1, by omega⟩
      have envelope := blockEnvelopeIsValid_of_checkEnvelope content.envelope
      rw [collectBranch, if_neg, if_neg (fresh block List.mem_cons_self), if_neg, if_pos first,
        if_neg]
      · rfl
      · rw [not_or, not_not, Bool.not_eq_false]
        exact ⟨head block rfl, (content.genesis first).1⟩
      · rw [envelope]
        decide
      · rw [not_or, not_le, List.length_eq_zero_iff]
        exact ⟨positive, named⟩
  | @child block chain later connects below ih =>
      intro rounds visited collected enough fresh
      obtain ⟨positive, named, -⟩ := holds.trips.facts
      obtain ⟨content, -⟩ := reached.admitted block holds
      obtain ⟨parentPositive, ids, above, parentNamed, hashes⟩ :=
        childConnectsToParent_iff.mp connects
      obtain ⟨rounds, rfl⟩ : ∃ fewer, rounds = fewer + 1 := ⟨rounds - 1, by omega⟩
      have envelope := blockEnvelopeIsValid_of_checkEnvelope content.envelope
      have parentHolds := (reached.sound.holds_getBlockByHash parentPositive).1
      have separate := (Lineage.child later connects below).separate reached.sound holds
      rw [collectBranch, if_neg, if_neg (fresh block (by simp)), if_neg, if_neg (not_le.mpr later),
        if_neg]
      · dsimp only
        rw [connects, if_neg (by decide), List.append_assoc]
        apply ih parentHolds
        · intro genesis first
          exact head genesis (by rw [List.head?_append, first, Option.some_or])
        · omega
        · intro other member
          rw [Std.ExtTreeSet.mem_insert, not_or, Std.LawfulEqCmp.compare_eq_iff_eq]
          refine ⟨fun same => ?_, fresh other (List.mem_append_left _ member)⟩
          have hashesNodup := separate.hashes
          rw [List.map_append, List.nodup_append] at hashesNodup
          exact hashesNodup.2.2 _ (List.mem_map_of_mem member) _ (by simp) same.symm
      · rw [not_or, List.length_eq_zero_iff, hashes]
        exact ⟨parentNamed, by omega⟩
      · rw [envelope]
        decide
      · rw [not_or, not_le, List.length_eq_zero_iff]
        exact ⟨positive, named⟩

/-- A stored branch that starts at the first number can be adopted. -/
theorem Reached.adoptable (reached : Reached env db) (lineage : Lineage env db block chain)
    (holds : Holds env db block) (started : 0 < getFirstBlockId db)
    (head : ∀ genesis, chain.head? = some genesis → genesis.number = getFirstBlockId db) :
    Adoptable env db block.hash block chain where
  holds := holds
  named := rfl
  started := started
  collected := by
    rw [reached.collectBranch_eq lineage holds head [] le_rfl fun _ _ => Std.ExtTreeSet.not_mem_empty,
      List.append_nil]
  head := head

/-! ### The chain below the tip -/

/-- The branch of the block in the latest slot; no blocks where there is no tip. -/
structure CurrentChain (env : Env) (db : LevelDb) (chain : List Block) : Prop where
  branch : 0 < getLatestBlockId db → Lineage env db (getBlock env db (getLatestBlockId db)) chain
  none : getLatestBlockId db ≤ 0 → chain = []

theorem CurrentChain.unique {other : List Block} (current : CurrentChain env db chain)
    (again : CurrentChain env db other) : chain = other := by
  by_cases positive : 0 < getLatestBlockId db
  · exact (current.branch positive).unique (again.branch positive)
  · rw [current.none (not_lt.mp positive), again.none (not_lt.mp positive)]

theorem currentChain_of_tip {tip : Block} (tipIs : TipIs env db tip) :
    CurrentChain env db chain ↔ Lineage env db tip chain := by
  constructor
  · intro current
    have lineage := current.branch tipIs.1
    rwa [tipIs.2] at lineage
  · intro lineage
    exact ⟨fun _ => by rwa [tipIs.2], fun missing => absurd tipIs.1 (not_lt.mpr missing)⟩

theorem Reached.tip_holds (reached : Reached env db) (positive : 0 < getLatestBlockId db) :
    Holds env db (getBlock env db (getLatestBlockId db)) := by
  apply (reached.sound.holds_getBlock ?_).1
  rw [reached.tip positive]
  exact positive

theorem Reached.currentChain (reached : Reached env db) : ∃ chain, CurrentChain env db chain := by
  by_cases positive : 0 < getLatestBlockId db
  · obtain ⟨chain, lineage⟩ := reached.lineage (reached.tip_holds positive)
    exact ⟨chain, (currentChain_of_tip ⟨positive, rfl⟩).mpr lineage⟩
  · exact ⟨[], fun above => absurd above positive, fun _ => rfl⟩

/-- A written chain whose last block becomes the tip. -/
theorem tipIs_finishChain {middle : LevelDb} {newTip : Block} (trips : RoundTrips env newTip)
    (slot : getBlock env middle newTip.number = newTip) (now : Int) (reason : String)
    (previousTip : Block) :
    TipIs env (finishChain env middle now reason previousTip newTip) newTip := by
  rw [TipIs, getLatestBlockId_finishChain trips.facts.2.2,
    (writes_finishChain _ _ _ _ _).getBlock_ends]
  exact ⟨trips.facts.1, slot⟩

/-- A successful adoption makes the stored block of the hash the tip. -/
theorem Reached.adopted (reached : Reached env db) {now : Int} {tipHash : Text}
    (success : (Safire.adoptStoredChainEndingAtHash env now db tipHash).1.isSome = true) :
    ∃ tip branch, Adoptable env db tipHash tip branch ∧
      Safire.adoptStoredChainEndingAtHash env now db tipHash =
        (some tip.number, (Safire.adoptStoredChainEndingAtHash env now db tipHash).2) ∧
      TipIs env (Safire.adoptStoredChainEndingAtHash env now db tipHash).2 tip := by
  rcases adopt_cases reached.sound now tipHash with
    refused | ⟨tip, branch, adoptable, ⟨already, kept⟩ | ⟨-, moved⟩⟩
  · rw [refused] at success
    cases success
  · rw [kept]
    exact ⟨tip, branch, adoptable, rfl, already⟩
  · rw [moved]
    obtain ⟨last, held⟩ := adoptable.adoptedPart_facts reached.sound
    exact ⟨tip, branch, adoptable, rfl, tipIs_finishChain adoptable.holds.trips
      ((rewritten_writeChain _ reached.sound held).2 tip last) _ _ _⟩

/-- After a successful adoption the current chain is the branch that was stored. -/
theorem Reached.adopted_chain (reached : Reached env db) {now : Int} {tipHash : Text}
    (success : (Safire.adoptStoredChainEndingAtHash env now db tipHash).1.isSome = true) :
    CurrentChain env (Safire.adoptStoredChainEndingAtHash env now db tipHash).2 chain ↔
      Lineage env db (getBlockByHash env db tipHash) chain := by
  obtain ⟨tip, branch, adoptable, -, tipIs⟩ := reached.adopted success
  have rewritten := rewritten_adoptStoredChainEndingAtHash reached.sound now tipHash
  rw [currentChain_of_tip tipIs, Lineage.of_rewritten rewritten, ← adoptable.named,
    adoptable.holds.getBlockByHash_eq]

/-- A stored block whose branch starts at the first number can be adopted. -/
theorem Reached.adopts (reached : Reached env db) (lineage : Lineage env db block chain)
    (holds : Holds env db block) (started : 0 < getFirstBlockId db)
    (head : ∀ genesis, chain.head? = some genesis → genesis.number = getFirstBlockId db)
    (now : Int) :
    (Safire.adoptStoredChainEndingAtHash env now db block.hash).1.isSome = true := by
  have adoptable := reached.adoptable lineage holds started head
  obtain ⟨positive, named, -⟩ := holds.trips.facts
  obtain ⟨genesis, first, -⟩ := lineage.head
  have rooted : genesis.number = getFirstBlockId db := head genesis first
  unfold Safire.adoptStoredChainEndingAtHash
  dsimp only
  rw [if_neg (not_or.mpr ⟨by rwa [List.length_eq_zero_iff], not_le.mpr started⟩),
    holds.getBlockByHash_eq, if_neg (not_or.mpr ⟨not_le.mpr positive, not_not.mpr rfl⟩),
    adoptable.collected]
  dsimp only
  rw [first, lineage.last]
  dsimp only
  rw [if_neg (not_not.mpr rooted)]
  split <;> rfl

/-! ### Stores whose blocks are known -/

section Tracked

variable {held : List Block} {first least : Int} {tip : Block}

theorem Tracked.lineage (tracked : Tracked env db held first tip least)
    (accepted : Accepts env chain) (known : ∀ block ∈ chain, block ∈ held)
    (last : chain.getLast? = some block) : Lineage env db block chain :=
  lineage_of_accepts accepted
    (fun other member => ((tracked.holds other).mpr (known other member)).getBlockByHash_eq) last

theorem Tracked.tipIs (tracked : Tracked env db held first tip least) (known : tip ∈ held) :
    TipIs env db tip := by
  constructor
  · rw [tracked.latest]
    exact ((tracked.holds tip).mpr known).trips.facts.1
  · rw [tracked.latest, tracked.tipSlot]

/-- A known block with an accepted branch can be adopted. -/
theorem Tracked.adopts (tracked : Tracked env db held first tip least) (reached : Reached env db)
    {genesis : Block} {rest : List Block} (accepted : Accepts env (genesis :: rest))
    (known : ∀ other ∈ genesis :: rest, other ∈ held)
    (last : (genesis :: rest).getLast? = some block) (rooted : genesis.number = first) (now : Int) :
    (adoptStoredChainEndingAtHash env now db block.hash).1.isSome = true := by
  have positive := (ascending_of_accepts accepted).positive genesis List.mem_cons_self
  have holds := (tracked.holds block).mpr (known block (List.mem_of_getLast? last))
  apply reached.adopts (tracked.lineage accepted known last) holds
  · rw [tracked.first, ← rooted]
    exact positive
  · intro other head
    rw [tracked.first, ← Option.some.inj head]
    exact rooted

end Tracked

end Safire
