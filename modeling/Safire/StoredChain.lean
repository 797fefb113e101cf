/-
An accepted chain as the canonical chain of a database, and the blocks that the
walks of the ledger visit on it.
-/

import Safire.LedgerState
import Safire.BranchStep

namespace Safire

open ChainValidator Loop

variable {env : Env} {db : LevelDb} {chain : List Block}

/-! ### Block numbers along an accepted chain -/

structure Ascending (chain : List Block) : Prop where
  positive : ∀ block ∈ chain, 0 < block.number
  sorted : chain.Pairwise (fun earlier later => earlier.number < later.number)

/-- A block with a child lies below every number that the last block has. -/
theorem Ascending.below_last {chain : List Block} (ascending : Ascending chain) {number : Int}
    (last : ∀ tip, chain.getLast? = some tip → number = tip.number) {before after : List Block}
    {parent child : Block} (place : chain = before ++ parent :: child :: after) :
    parent.number < number := by
  have found := List.getLast?_eq_some_getLast (List.cons_ne_nil child after)
  have whole : chain.getLast? = some ((child :: after).getLast (List.cons_ne_nil child after)) := by
    rw [place, List.getLast?_append, List.getLast?_cons_cons, found]
    rfl
  have sorted := ascending.sorted
  rw [place] at sorted
  have tail := (List.pairwise_append.mp sorted).2.1
  rw [last _ whole]
  exact (List.pairwise_cons.mp tail).1 _ (List.getLast_mem _)

theorem checkEnvelope_positive {block : Block} (checked : checkEnvelope env block = .ok ()) :
    0 < block.number := by
  unfold checkEnvelope at checked
  split at checked
  · cases checked
  · rename_i positive
    exact not_le.mp positive

theorem checkHeader_ok_iff {before : List Block} {state : BranchState} {block : Block} :
    checkHeader env before state block = .ok () ↔
      checkEnvelope env block = .ok () ∧ checkLink env before state block = .ok () := by
  rw [checkHeader, bind_ok_iff]
  constructor
  · rintro ⟨_, envelope, link⟩
    exact ⟨envelope, link⟩
  · rintro ⟨envelope, link⟩
    exact ⟨(), envelope, link⟩

theorem checkCreator_ok_iff {selected : Text} {block : Block} :
    checkCreator selected block = .ok () ↔ selected ≠ [] ∧ selected = block.creatorKey := by
  unfold checkCreator
  by_cases empty : selected.length = 0
  · simp [List.length_eq_zero_iff.mp empty]
  · rw [if_neg empty]
    rw [List.length_eq_zero_iff] at empty
    by_cases same : selected = block.creatorKey
    · simp [same, same ▸ empty]
    · simp [same]

theorem checkParentLink_ok_iff {before : List Block} {genesis parent block : Block}
    {state : BranchState} :
    checkParentLink env before genesis parent state block = .ok () ↔
      block.previousBlockId = parent.number ∧ parent.number < block.number ∧
        block.previousBlockHash = parent.hash ∧
        ∃ snapshot, selectionSnapshotForBlock state.snapshots block.number genesis.number =
            some snapshot ∧ snapshot.blockHash ≠ [] ∧
          checkCreator
            (branchAuthorization env before state parent genesis snapshot block.number).creator
            block = .ok () := by
  unfold checkParentLink
  by_cases ids : block.previousBlockId = parent.number
  · rw [if_neg (not_ne_iff.mpr ids), ids]
    by_cases above : parent.number < block.number
    · rw [if_neg (not_le.mpr above)]
      by_cases hashes : block.previousBlockHash = parent.hash
      · rw [if_neg (not_ne_iff.mpr hashes)]
        cases selectionSnapshotForBlock state.snapshots block.number genesis.number with
        | none => simp
        | some snapshot =>
            by_cases missing : snapshot.blockHash = []
            · simp [missing]
            · simp [missing, above, hashes]
      · simp [hashes]
    · simp [not_lt.mp above, above]
  · simp [ids]

theorem checkLink_of_parent (env : Env) {before : List Block} {parent : Block}
    (last : before.getLast? = some parent) (state : BranchState) (block : Block) :
    ∃ genesis, before.head? = some genesis ∧
      checkLink env before state block = checkParentLink env before genesis parent state block := by
  cases head : before.head? with
  | none =>
      rw [List.head?_eq_none_iff] at head
      rw [head] at last
      cases last
  | some genesis =>
      refine ⟨genesis, rfl, ?_⟩
      unfold checkLink
      rw [head, last]

/-- A linked block names its parent and has a larger number. -/
theorem checkLink_parent {before : List Block} {parent block : Block} {state : BranchState}
    (last : before.getLast? = some parent) (checked : checkLink env before state block = .ok ()) :
    block.previousBlockId = parent.number ∧ parent.number < block.number ∧
      block.previousBlockHash = parent.hash := by
  obtain ⟨genesis, -, link⟩ := checkLink_of_parent env last state block
  obtain ⟨ids, above, hashes, -⟩ := checkParentLink_ok_iff.mp (link ▸ checked)
  exact ⟨ids, above, hashes⟩

theorem Ascending.le_last (ascending : Ascending chain) {tip other : Block}
    (last : chain.getLast? = some tip) (member : other ∈ chain) : other.number ≤ tip.number := by
  obtain ⟨front, rfl⟩ : ∃ front, chain = front ++ [tip] := List.getLast?_eq_some_iff.mp last
  rcases List.mem_append.mp member with early | final
  · have sorted := (List.pairwise_append.mp ascending.sorted).2.2
    exact (sorted other early tip (List.mem_singleton_self tip)).le
  · rw [List.mem_singleton.mp final]

private theorem ascending_snoc {before : List Block} {block : Block} (ascending : Ascending before)
    (positive : 0 < block.number)
    (above : ∀ parent, before.getLast? = some parent → parent.number < block.number) :
    Ascending (before ++ [block]) where
  positive := by
    intro other member
    rcases List.mem_append.mp member with old | new
    · exact ascending.positive other old
    · rw [List.mem_singleton.mp new]
      exact positive
  sorted := by
    rw [List.pairwise_append]
    refine ⟨ascending.sorted, List.pairwise_singleton _ _, ?_⟩
    intro other member last new
    rw [List.mem_singleton.mp new]
    obtain ⟨parent, tip⟩ : ∃ parent, before.getLast? = some parent :=
      ⟨_, List.getLast?_eq_some_getLast (List.ne_nil_of_mem member)⟩
    exact (ascending.le_last tip member).trans_lt (above parent tip)

theorem ascending_of_connected :
    ∀ {chain : List Block} {state : BranchState}, connectChain env chain = .ok state →
      Ascending chain := by
  intro chain
  induction chain using List.reverseRecOn with
  | nil =>
      intro state _
      exact ⟨by simp, List.Pairwise.nil⟩
  | append_singleton before block ih =>
      intro state connected
      obtain ⟨parentState, below, stepped⟩ := connectChain_snoc_ok_iff.mp connected
      obtain ⟨envelope, link⟩ := checkHeader_ok_iff.mp (connectBlock_ok_iff.mp stepped).1
      exact ascending_snoc (ih below) (checkEnvelope_positive envelope)
        (fun parent last => (checkLink_parent last link).2.1)

theorem ascending_of_accepts (accepted : Accepts env chain) : Ascending chain := by
  obtain ⟨-, state, connected⟩ := accepts_iff.mp accepted
  exact ascending_of_connected connected

theorem checkEnvelope_hash {block : Block} (checked : checkEnvelope env block = .ok ()) :
    block.hash ≠ [] := by
  unfold checkEnvelope at checked
  split_ifs at checked with _ missing
  exact fun empty => missing (by rw [empty]; rfl)

theorem checkLink_genesis {state : BranchState} {block : Block}
    (checked : checkLink env [] state block = .ok ()) :
    block.previousBlockId ≤ 0 ∧ block.previousBlockHash = [] ∧
      env.config.genesisMatches block.number block.hash = true := by
  change checkGenesisLink env block = .ok () at checked
  unfold checkGenesisLink at checked
  split_ifs at checked with parents differs
  rw [not_or, not_lt, not_lt] at parents
  exact ⟨parents.1, List.length_eq_zero_iff.mp (Nat.le_zero.mp parents.2), by simpa using differs⟩

theorem checkEnvelope_creator {block : Block} (checked : checkEnvelope env block = .ok ()) :
    block.creatorKey ≠ [] := by
  unfold checkEnvelope at checked
  split_ifs at checked with _ _ _ _ _ missing
  exact fun empty => missing (by rw [empty]; rfl)

theorem envelope_of_connected {state : BranchState} (connected : connectChain env chain = .ok state)
    {block : Block} (member : block ∈ chain) : checkEnvelope env block = .ok () := by
  obtain ⟨before, after, place⟩ := List.append_of_mem member
  rw [place, List.append_cons] at connected
  obtain ⟨reached, throughBlock⟩ := connectChain_prefix connected
  obtain ⟨parentState, -, stepped⟩ := connectChain_snoc_ok_iff.mp throughBlock
  exact (checkHeader_ok_iff.mp (connectBlock_ok_iff.mp stepped).1).1

theorem hashes_of_connected {state : BranchState} (connected : connectChain env chain = .ok state) :
    ∀ block ∈ chain, block.hash ≠ [] :=
  fun _ member => checkEnvelope_hash (envelope_of_connected connected member)

theorem creators_of_connected {state : BranchState} (connected : connectChain env chain = .ok state) :
    ∀ block ∈ chain, block.creatorKey ≠ [] :=
  fun _ member => checkEnvelope_creator (envelope_of_connected connected member)

/-- The first block of an accepted chain has no parent and the others name theirs. -/
theorem genesis_of_accepts {genesis : Block} {rest : List Block}
    (accepted : Accepts env (genesis :: rest)) :
    genesis.previousBlockId ≤ 0 ∧ genesis.previousBlockHash = [] ∧
      env.config.genesisMatches genesis.number genesis.hash = true := by
  obtain ⟨-, state, connected⟩ := accepts_iff.mp accepted
  obtain ⟨reached, first⟩ := connectChain_prefix
    (show connectChain env ([genesis] ++ rest) = .ok state from connected)
  obtain ⟨_, start, stepped⟩ := connectChain_snoc_ok_iff.mp
    (show connectChain env ([] ++ [genesis]) = .ok reached from first)
  exact checkLink_genesis (checkHeader_ok_iff.mp (connectBlock_ok_iff.mp stepped).1).2

theorem link_of_accepts (accepted : Accepts env chain) {before after : List Block}
    {parent child : Block} (place : chain = before ++ parent :: child :: after) :
    child.previousBlockId = parent.number ∧ parent.number < child.number ∧
      child.previousBlockHash = parent.hash := by
  obtain ⟨-, state, connected⟩ := accepts_iff.mp accepted
  rw [place, List.append_cons, List.append_cons] at connected
  obtain ⟨reached, through⟩ := connectChain_prefix connected
  obtain ⟨_, -, stepped⟩ := connectChain_snoc_ok_iff.mp through
  exact checkLink_parent (by simp) (checkHeader_ok_iff.mp (connectBlock_ok_iff.mp stepped).1).2

/-! ### The genesis block of the builder -/

/-- One join by the creator and one issue, in either order. -/
def BuilderGenesis (genesis : Block) : Prop :=
  ∃ join issue, genesis.records.Perm [join, issue] ∧
    join.transactionType = .joinNetwork ∧ join.senderPublicKey = genesis.creatorKey ∧
    issue.transactionType = .issueCurrency

def BuilderShaped (chain : List Block) : Prop :=
  ∀ genesis, chain.head? = some genesis → BuilderGenesis genesis

theorem BuilderGenesis.kinds {genesis : Block} (shape : BuilderGenesis genesis) {record : Record}
    (member : record ∈ genesis.records) :
    record.transactionType = .joinNetwork ∨ record.transactionType = .issueCurrency := by
  obtain ⟨join, issue, perm, joins, -, issues⟩ := shape
  rcases List.mem_cons.mp (perm.mem_iff.mp member) with rfl | last
  · exact .inl joins
  · rw [List.mem_singleton.mp last]
    exact .inr issues

/-- No second join stands before the join of the builder's genesis. -/
theorem BuilderGenesis.joins_once {genesis : Block} (shape : BuilderGenesis genesis)
    {earlier later : List Record} {record : Record}
    (place : genesis.records = earlier ++ record :: later)
    (kind : record.transactionType = .joinNetwork) :
    ∀ other ∈ earlier, other.transactionType ≠ .joinNetwork := by
  obtain ⟨join, issue, perm, joins, -, issues⟩ := shape
  have counted := perm.countP_eq (fun entry => decide (entry.transactionType = .joinNetwork))
  rw [place, List.countP_append, List.countP_cons] at counted
  simp only [kind, joins, issues, List.countP_cons, List.countP_nil] at counted
  intro other member again
  have positive : 0 < earlier.countP
      (fun entry => decide (entry.transactionType = .joinNetwork)) :=
    List.countP_pos_iff.mpr ⟨other, member, by simp [again]⟩
  simp at counted
  omega

/-! ### The stored chain -/

/-- The chain ends, slots, hashes and links of the database are those of the
chain, and the loop guards do not cut it. -/
structure StoredAs (env : Env) (db : LevelDb) (chain : List Block) : Prop where
  first : ∀ genesis, chain.head? = some genesis → getFirstBlockId db = genesis.number
  latest : ∀ tip, chain.getLast? = some tip → getLatestBlockId db = tip.number
  bySlot : ∀ block ∈ chain, getBlock env db block.number = block
  byHash : ∀ block ∈ chain, getBlockByHash env db block.hash = block
  next : ∀ before parent child after, chain = before ++ parent :: child :: after →
    getNextBlock env db parent = child
  bounded : chain.length ≤ walkGuard

/-- The chain that the walks of the ledger follow, of any length. -/
structure CanonicalChain (env : Env) (db : LevelDb) (chain : List Block) : Prop where
  present : chain ≠ []
  ascending : Ascending chain
  first : ∀ genesis, chain.head? = some genesis →
    getFirstBlockId db = genesis.number ∧ getBlock env db genesis.number = genesis
  latest : ∀ tip, chain.getLast? = some tip → getLatestBlockId db = tip.number
  next : ∀ before parent child after, chain = before ++ parent :: child :: after →
    getNextBlock env db parent = child

/-- A walk visits the blocks before the first one that is too far, as many as
the guard allows, if it meets an end there and nowhere before. -/
theorem walk_eq_take {tooFar isLast : Int → Bool} {block : Block} {rest : List Block}
    (ascending : Ascending (block :: rest))
    (next : ∀ before parent child after, block :: rest = before ++ parent :: child :: after →
      getNextBlock env db parent = child)
    (stops : ∀ tip, (block :: rest).getLast? = some tip →
      isLast tip.number = true ∨ tooFar tip.number = true)
    (early : ∀ before parent child after, block :: rest = before ++ parent :: child :: after →
      isLast parent.number = true → tooFar child.number = true) (guard : Nat) :
    walk env db tooFar isLast guard block =
      ((block :: rest).takeWhile (fun block => !tooFar block.number)).take guard := by
  induction rest generalizing block guard with
  | nil =>
      cases guard with
      | zero => rfl
      | succ guard =>
          have positive := ascending.positive block (by simp)
          cases far : tooFar block.number with
          | true => simp [walk, far]
          | false =>
              have last := (stops block rfl).resolve_right (by simp [far])
              simp [walk, far, last, not_le.mpr positive]
  | cons child rest ih =>
      cases guard with
      | zero => rfl
      | succ guard =>
          have positive := ascending.positive block (by simp)
          have childPositive := ascending.positive child (by simp)
          have above := (List.pairwise_cons.mp ascending.sorted).1 child (by simp)
          cases far : tooFar block.number with
          | true => simp [walk, far]
          | false =>
              cases last : isLast block.number with
              | true =>
                  have childFar := early [] block child rest rfl last
                  simp [walk, far, last, childFar, not_le.mpr positive]
              | false =>
                  have step := next [] block child rest rfl
                  have tail := @ih child
                    ⟨fun other member => ascending.positive other (List.mem_cons_of_mem _ member),
                      (List.pairwise_cons.mp ascending.sorted).2⟩
                    (fun before parent other after place =>
                      next (block :: before) parent other after (by rw [place]; rfl))
                    (fun tip found => stops tip (by rw [List.getLast?_cons_cons]; exact found))
                    (fun before parent other after place =>
                      early (block :: before) parent other after (by rw [place]; rfl))
                    guard
                  rw [walk, if_neg (by simp [far, positive]), if_neg (by simp [last])]
                  dsimp only
                  rw [step, if_neg (by omega), tail, List.takeWhile_cons (a := block), far]
                  rfl

namespace CanonicalChain

variable (canonical : CanonicalChain env db chain)
include canonical

/-- The walks of the ledger: `isLast` marks the tip or the last block that is
not too far. -/
theorem walk_eq {tooFar isLast : Int → Bool}
    (stops : ∀ tip, chain.getLast? = some tip →
      isLast tip.number = true ∨ tooFar tip.number = true)
    (early : ∀ before parent child after, chain = before ++ parent :: child :: after →
      isLast parent.number = true → tooFar child.number = true) :
    walk env db tooFar isLast walkGuard (getBlock env db (getFirstBlockId db)) =
      (chain.takeWhile (fun block => !tooFar block.number)).take walkGuard := by
  obtain ⟨genesis, rest, rfl⟩ := List.exists_cons_of_ne_nil canonical.present
  obtain ⟨firstNumber, slot⟩ := canonical.first genesis rfl
  rw [firstNumber, slot]
  exact walk_eq_take canonical.ascending canonical.next stops early walkGuard

/-- Only the tip has the latest number. -/
theorem below_latest {before after : List Block} {parent child : Block}
    (place : chain = before ++ parent :: child :: after) :
    parent.number < getLatestBlockId db :=
  canonical.ascending.below_last canonical.latest place

theorem ends_positive : 0 < getFirstBlockId db ∧ 0 < getLatestBlockId db := by
  have present := canonical.present
  rw [(canonical.first _ (List.head?_eq_some_head present)).1,
    canonical.latest _ (List.getLast?_eq_some_getLast present)]
  exact ⟨canonical.ascending.positive _ (List.head_mem present),
    canonical.ascending.positive _ (List.getLast_mem present)⟩

/-- The chain up to a stop block; a stop block that is not positive cuts nothing. -/
theorem visitedBlocks_eq (stopBlock : Int) :
    LedgerState.visitedBlocks env db stopBlock =
      (chain.takeWhile
        (fun block => !decide (0 < stopBlock ∧ stopBlock < block.number))).take walkGuard := by
  have latestPositive := canonical.ends_positive.2
  apply canonical.walk_eq
  · intro tip last
    have tipNumber := canonical.latest tip last
    rw [LedgerState.buildLatestBlockId, decide_eq_true_eq, decide_eq_true_eq]
    split <;> omega
  · intro before parent child after place isLast
    have below := canonical.below_latest place
    have sorted := canonical.ascending.sorted
    rw [place] at sorted
    have step := (List.pairwise_cons.mp (List.pairwise_append.mp sorted).2.1).1 child (by simp)
    rw [LedgerState.buildLatestBlockId, decide_eq_true_eq] at isLast
    rw [decide_eq_true_eq]
    split at isLast <;> omega

end CanonicalChain

namespace StoredAs

theorem canonical (stored : StoredAs env db chain) (ascending : Ascending chain)
    (present : chain ≠ []) : CanonicalChain env db chain where
  present := present
  ascending := ascending
  first := fun genesis head =>
    ⟨stored.first genesis head, stored.bySlot genesis (List.mem_of_mem_head? head)⟩
  latest := stored.latest
  next := stored.next

/-- The guard cuts no part of a stored chain. -/
theorem take_guard (stored : StoredAs env db chain) (kept : Block → Bool) :
    (chain.takeWhile kept).take walkGuard = chain.takeWhile kept :=
  List.take_of_length_le ((List.takeWhile_sublist kept).length_le.trans stored.bounded)

/-- The walks of the ledger on a stored chain: `isLast` marks the tip or the
last block that is not too far. -/
theorem walk_eq (stored : StoredAs env db chain) (ascending : Ascending chain)
    (present : chain ≠ []) {tooFar isLast : Int → Bool}
    (stops : ∀ tip, chain.getLast? = some tip →
      isLast tip.number = true ∨ tooFar tip.number = true)
    (early : ∀ before parent child after, chain = before ++ parent :: child :: after →
      isLast parent.number = true → tooFar child.number = true) :
    walk env db tooFar isLast walkGuard (getBlock env db (getFirstBlockId db)) =
      chain.takeWhile (fun block => !tooFar block.number) := by
  rw [(stored.canonical ascending present).walk_eq stops early, stored.take_guard]

/-- Only the tip has the latest number. -/
theorem below_latest (stored : StoredAs env db chain) (ascending : Ascending chain)
    {before after : List Block} {parent child : Block}
    (place : chain = before ++ parent :: child :: after) :
    parent.number < getLatestBlockId db :=
  ascending.below_last stored.latest place

/-- The chain up to a stop block; a stop block that is not positive cuts nothing. -/
theorem visitedBlocks_eq (stored : StoredAs env db chain) (ascending : Ascending chain)
    (present : chain ≠ []) (stopBlock : Int) :
    LedgerState.visitedBlocks env db stopBlock =
      chain.takeWhile (fun block => !decide (0 < stopBlock ∧ stopBlock < block.number)) := by
  rw [(stored.canonical ascending present).visitedBlocks_eq, stored.take_guard]

theorem visitedBlocks_all (stored : StoredAs env db chain) (ascending : Ascending chain)
    (present : chain ≠ []) {stopBlock : Int}
    (covers : stopBlock ≤ 0 ∨ ∀ block ∈ chain, block.number ≤ stopBlock) :
    LedgerState.visitedBlocks env db stopBlock = chain := by
  rw [stored.visitedBlocks_eq ascending present, List.takeWhile_eq_self_iff]
  intro block member
  rcases covers with unset | above
  · simp [not_lt.mpr unset]
  · simp [not_lt.mpr (above block member)]

end StoredAs

end Safire
