/-
The branch validator over the whole candidate vector, and what the pop loop of
`rebuildBestChainIndex` leaves of it.

In the source the block loop keeps no list of earlier blocks. It reads the
candidate by index: its front, the parent at `b - 1`, and the creators downward
from there. Reading by index changes nothing, so the verdict on a beginning is
the same whatever follows it.
-/

import Safire.RebuildChoice

namespace Safire

open Loop

namespace ChainValidator

variable {env : Env}

/-! ### The validator by index -/

/-- The loop of `consecutiveRecoveryBlocksInBranch`, down from `index - 1`. -/
def recoveryRunBelow (chain : List Block) (recoveryPublicKey : Text) : Nat → Int → Int
  | 0, count => count
  | index + 1, count =>
      if Selector.getRecoveryWindowBlocks ≤ count then count
      else
        match chain[index]? with
        | none => count
        | some block =>
            if block.creatorKey ≠ recoveryPublicKey then count
            else recoveryRunBelow chain recoveryPublicKey index (count + 1)

def consecutiveRecoveryBlocksBelow (chain : List Block) (index : Nat)
    (recoveryPublicKey : Text) : Int :=
  if recoveryPublicKey.length = 0 then 0
  else recoveryRunBelow chain recoveryPublicKey index 0

/-- Creator required for the block at `index` of the candidate. -/
def authorizationAt (env : Env) (chain : List Block) (index : Nat) (state : BranchState)
    (parent genesis : Block) (snapshot : BranchSnapshot) (blockNumber : Int) :
    Selector.Authorization :=
  let recoveryPublicKey := configuredRecoveryPublicKey env genesis.creatorKey
  Selector.getAuthorizedCreatorForBlock env blockNumber snapshot.blockHash
    (activeMemberKeysForBlock snapshot.members snapshot.chainHasHeartbeatRecords blockNumber)
    parent.hash
    (activeMemberKeysForBlock state.members state.chainHasHeartbeatRecords blockNumber)
    recoveryPublicKey
    (consecutiveRecoveryBlocksBelow chain index recoveryPublicKey)

def checkParentLinkAt (env : Env) (chain : List Block) (index : Nat) (genesis parent : Block)
    (state : BranchState) (block : Block) : Except String Unit :=
  if block.previousBlockId ≠ parent.number then
    .error "previous block id does not match parent"
  else if block.number ≤ block.previousBlockId then
    .error "previous block id is not before block number"
  else if block.previousBlockHash ≠ parent.hash then
    .error "previous block hash does not match parent"
  else
    match selectionSnapshotForBlock state.snapshots block.number genesis.number with
    | none => .error "selection checkpoint is missing"
    | some snapshot =>
        if snapshot.blockHash.length = 0 then .error "selection checkpoint is missing"
        else
          checkCreator
            (authorizationAt env chain index state parent genesis snapshot block.number).creator
            block

/-- The branch on `isGenesis`. `at` and `front` find their blocks at every other index. -/
def checkLinkAt (env : Env) (chain : List Block) (index : Nat) (state : BranchState)
    (block : Block) : Except String Unit :=
  if index = 0 then checkGenesisLink env block
  else
    match chain.head?, chain[index - 1]? with
    | some genesis, some parent => checkParentLinkAt env chain index genesis parent state block
    | _, _ => .error "vector index out of range"

/-- One round of the block loop at an index of the candidate. -/
def connectBlockAt (env : Env) (chain : List Block) (index : Nat) (state : BranchState)
    (block : Block) : Except String BranchState := do
  checkEnvelope env block
  checkLinkAt env chain index state block
  let next ← connectRecords env block (decide (index = 0)) state block.records
  pure (pushSnapshot block next)

/-- The block loop for a number of rounds, from an index of the candidate on. -/
def connectFrom (env : Env) (chain : List Block) :
    Nat → Nat → BranchState → Except String BranchState
  | 0, _, state => .ok state
  | rounds + 1, index, state =>
      match chain[index]? with
      | none => .ok state
      | some block => do
          let next ← connectBlockAt env chain index state block
          connectFrom env chain rounds (index + 1) next

def validateCandidate (env : Env) (chain : List Block) : Except String Unit :=
  if chain.length = 0 then .error "candidate chain is empty"
  else (connectFrom env chain chain.length 0 .initial).map (fun _ => ())

/-! ### The index reads earlier blocks only -/

/-- The count below an index is the run of creators that ends there, cut at the window. -/
theorem recoveryRunBelow_eq (recoveryPublicKey : Text) (before : List Block) :
    ∀ (rest : List Block) (count : Int), count ≤ Selector.getRecoveryWindowBlocks →
      recoveryRunBelow (before ++ rest) recoveryPublicKey before.length count =
        min (count + (before.reverse.takeWhile
          (fun block => block.creatorKey = recoveryPublicKey)).length)
          Selector.getRecoveryWindowBlocks := by
  induction before using List.reverseRecOn with
  | nil =>
      intro rest count counted
      simpa [recoveryRunBelow] using counted
  | append_singleton before last ih =>
      intro rest count counted
      rw [List.length_append, List.length_singleton, recoveryRunBelow,
        show (before ++ [last] ++ rest)[before.length]? = some last by simp,
        List.reverse_concat, List.takeWhile_cons]
      by_cases full : Selector.getRecoveryWindowBlocks ≤ count
      · rw [if_pos full]
        omega
      · rw [if_neg full]
        by_cases same : last.creatorKey = recoveryPublicKey
        · have shifted := ih (last :: rest) (count + 1) (by omega)
          simp only [same, ne_eq, not_true_eq_false, if_false, decide_true, if_true,
            List.length_cons, List.append_assoc, List.singleton_append]
          rw [shifted, Nat.cast_succ]
          congr 1
          omega
        · simp only [same, ne_eq, not_false_eq_true, if_true, decide_false, Bool.false_eq_true,
            if_false, List.length_nil]
          omega

theorem consecutiveRecoveryBlocksBelow_eq (before rest : List Block) (recoveryPublicKey : Text) :
    consecutiveRecoveryBlocksBelow (before ++ rest) before.length recoveryPublicKey =
      consecutiveRecoveryBlocksInBranch before recoveryPublicKey := by
  have window : (0 : Int) ≤ Selector.getRecoveryWindowBlocks := by decide
  rw [consecutiveRecoveryBlocksBelow, consecutiveRecoveryBlocksInBranch,
    recoveryRunBelow_eq recoveryPublicKey before rest 0 window, zero_add]

theorem authorizationAt_eq (before rest : List Block) (state : BranchState)
    (parent genesis : Block) (snapshot : BranchSnapshot) (blockNumber : Int) :
    authorizationAt env (before ++ rest) before.length state parent genesis snapshot blockNumber =
      branchAuthorization env before state parent genesis snapshot blockNumber := by
  rw [authorizationAt, branchAuthorization, consecutiveRecoveryBlocksBelow_eq]

theorem checkParentLinkAt_eq (before rest : List Block) (genesis parent : Block)
    (state : BranchState) (block : Block) :
    checkParentLinkAt env (before ++ rest) before.length genesis parent state block =
      checkParentLink env before genesis parent state block := by
  rw [checkParentLinkAt, checkParentLink]
  cases selectionSnapshotForBlock state.snapshots block.number genesis.number with
  | none => rfl
  | some snapshot => simp only [authorizationAt_eq]

theorem checkLinkAt_eq (before rest : List Block) (state : BranchState) (block : Block) :
    checkLinkAt env (before ++ rest) before.length state block =
      checkLink env before state block := by
  cases before using List.reverseRecOn with
  | nil => rfl
  | append_singleton before parent =>
      have last : (before ++ [parent] ++ rest)[(before ++ [parent]).length - 1]? = some parent := by
        simp
      obtain ⟨genesis, others, split⟩ :=
        List.exists_cons_of_ne_nil (List.append_ne_nil_of_right_ne_nil before
          (List.cons_ne_nil parent []))
      have front : (before ++ [parent] ++ rest).head? = some genesis := by
        rw [split]
        rfl
      have start : (before ++ [parent]).head? = some genesis := by
        rw [split]
        rfl
      rw [checkLinkAt, if_neg (by simp), front, last, checkLink, start,
        List.getLast?_concat]
      exact checkParentLinkAt_eq (before ++ [parent]) rest genesis parent state block

theorem connectBlockAt_eq (before rest : List Block) (state : BranchState) (block : Block) :
    connectBlockAt env (before ++ rest) before.length state block =
      connectBlock env before state block := by
  have first : decide (before.length = 0) = before.isEmpty := by
    cases before with
    | nil => rfl
    | cons genesis others => rfl
  rw [connectBlockAt, connectBlock, checkHeader, checkLinkAt_eq, first]
  cases checkEnvelope env block with
  | error reason => rfl
  | ok checked => rfl

/-- The loop invariant: after `before` the rounds that are left do what the fold
over the next blocks does, whatever the candidate holds behind them. -/
theorem connectFrom_eq (next : List Block) : ∀ (before later : List Block) (state : BranchState),
    connectFrom env (before ++ (next ++ later)) next.length before.length state =
      (next.foldlM (blockStep env) (before, state)).map Prod.snd := by
  induction next with
  | nil => intros; rfl
  | cons block rest ih =>
      intro before later state
      have here : (before ++ (block :: rest ++ later))[before.length]? = some block := by simp
      rw [List.length_cons, connectFrom, here, List.foldlM_cons]
      dsimp only
      rw [connectBlockAt_eq, blockStep]
      cases connectBlock env before state block with
      | error reason => rfl
      | ok after =>
          have tail := ih (before ++ [block]) later after
          rw [List.append_assoc, List.length_append] at tail
          exact tail

theorem connectFrom_start (chain later : List Block) :
    connectFrom env (chain ++ later) chain.length 0 .initial = connectChain env chain := by
  have run := @connectFrom_eq env chain [] later .initial
  rw [List.nil_append, List.length_nil] at run
  rw [run, connectChain]
  cases chain.foldlM (blockStep env) ([], .initial) with
  | error reason => rfl
  | ok progress => rfl

theorem validateCandidate_eq (chain : List Block) :
    validateCandidate env chain = validateConnectedChain env chain := by
  have whole := @connectFrom_start env chain []
  rw [List.append_nil] at whole
  rw [validateCandidate, validateConnectedChain, whole]

/-! ### Beginnings of a candidate -/

theorem Accepts.beginning {chain later : List Block} (accepted : Accepts env (chain ++ later))
    (present : chain ≠ []) : Accepts env chain := by
  obtain ⟨-, state, connected⟩ := accepts_iff.mp accepted
  obtain ⟨reached, below⟩ := connectChain_prefix connected
  exact accepts_iff.mpr ⟨present, reached, below⟩

/-- A rejected beginning rejects the candidate, for the same reason. -/
theorem connectFrom_stops {chain later : List Block} {reason : String}
    (rejected : connectChain env chain = .error reason) :
    connectFrom env (chain ++ later) (chain ++ later).length 0 .initial = .error reason := by
  have whole := @connectFrom_start env (chain ++ later) []
  rw [List.append_nil] at whole
  rw [whole]
  rw [connectChain] at rejected ⊢
  rw [List.foldlM_append]
  cases run : chain.foldlM (blockStep env) ([], .initial) with
  | error stopped =>
      rw [run] at rejected
      exact rejected
  | ok progress =>
      rw [run] at rejected
      cases rejected

theorem validateCandidate_stops {chain : List Block} (later : List Block) {reason : String}
    (present : chain ≠ []) (rejected : validateCandidate env chain = .error reason) :
    validateCandidate env (chain ++ later) = .error reason := by
  have long : chain.length ≠ 0 := fun empty => present (List.length_eq_zero_iff.mp empty)
  rw [validateCandidate_eq, validateConnectedChain, if_neg long] at rejected
  have longer : (chain ++ later).length ≠ 0 := by
    rw [List.length_append]
    omega
  rw [validateCandidate, if_neg longer]
  cases connected : connectChain env chain with
  | error stopped =>
      rw [connected] at rejected
      rw [connectFrom_stops connected]
      exact rejected
  | ok state =>
      rw [connected] at rejected
      cases rejected

end ChainValidator

open ChainValidator

variable {env : Env}

/-! ### What popping leaves -/

/-- The accepted beginnings of the candidate are the nonempty beginnings of what is kept. -/
theorem accepts_beginning_iff {chain start : List Block} (begins : start <+: chain) :
    Accepts env start ↔ start ≠ [] ∧ start <+: dropInvalidTail env chain.length chain := by
  have kept := @dropInvalidTail_isPrefix env chain.length chain
  constructor
  · intro accepted
    have shorter := length_le_dropInvalidTail begins accepted
    exact ⟨(accepts_iff.mp accepted).1, List.prefix_of_prefix_length_le begins kept shorter⟩
  · intro ⟨present, ⟨later, split⟩⟩
    have remains : dropInvalidTail env chain.length chain ≠ [] := by
      rw [← split]
      exact List.append_ne_nil_of_left_ne_nil present later
    have accepted : Accepts env (dropInvalidTail env chain.length chain) :=
      dropInvalidTail_accepts remains
    rw [← split] at accepted
    exact accepted.beginning present

/-- Nothing is kept, if and only if the genesis block alone is rejected. -/
theorem dropInvalidTail_eq_nil_iff (genesis : Block) (rest : List Block) :
    dropInvalidTail env (genesis :: rest).length (genesis :: rest) = [] ↔
      ¬ Accepts env [genesis] := by
  have begins : [genesis] <+: genesis :: rest := List.prefix_append [genesis] rest
  constructor
  · intro empty accepted
    have kept := ((accepts_beginning_iff begins).mp accepted).2
    rw [empty] at kept
    exact absurd (List.prefix_nil.mp kept) (List.cons_ne_nil _ _)
  · intro refused
    by_contra remains
    obtain ⟨later, split⟩ := @dropInvalidTail_isPrefix env (genesis :: rest).length
      (genesis :: rest)
    obtain ⟨first, others, whole⟩ := List.exists_cons_of_ne_nil remains
    have same : first = genesis := by
      rw [whole] at split
      exact (List.cons.inj split).1
    have starts : [genesis] <+: dropInvalidTail env (genesis :: rest).length (genesis :: rest) := by
      rw [whole, same]
      exact List.prefix_append [genesis] others
    exact refused ((accepts_beginning_iff begins).mpr ⟨List.cons_ne_nil _ _, starts⟩)

/-- Acceptance passes to nonempty beginnings, the loop over a beginning runs alike
under every continuation, and popping keeps the longest accepted beginning. -/
theorem popping_keeps_longest_accepted (env : Env) :
    (∀ chain later, chain ≠ [] → validateCandidate env (chain ++ later) = .ok () →
        validateCandidate env chain = .ok ()) ∧
      (∀ chain later,
        connectFrom env (chain ++ later) chain.length 0 .initial =
            connectFrom env chain chain.length 0 .initial ∧
          ∀ reason, chain ≠ [] → validateCandidate env chain = .error reason →
            validateCandidate env (chain ++ later) = .error reason) ∧
      ∀ chain,
        dropInvalidTail env chain.length chain <+: chain ∧
          (∀ start, start <+: chain →
            (validateCandidate env start = .ok () ↔
              start ≠ [] ∧ start <+: dropInvalidTail env chain.length chain)) ∧
          ∀ genesis, chain.head? = some genesis →
            (dropInvalidTail env chain.length chain = [] ↔
              validateCandidate env [genesis] ≠ .ok ()) := by
  refine ⟨?_, ?_, ?_⟩
  · intro chain later present accepted
    rw [validateCandidate_eq] at accepted ⊢
    exact Accepts.beginning accepted present
  · intro chain later
    constructor
    · have alone := @connectFrom_start env chain []
      rw [List.append_nil] at alone
      rw [connectFrom_start, alone]
    · intro reason present rejected
      exact validateCandidate_stops later present rejected
  · intro chain
    refine ⟨dropInvalidTail_isPrefix _ _, ?_, ?_⟩
    · intro start begins
      rw [validateCandidate_eq]
      exact accepts_beginning_iff begins
    · intro genesis front
      cases chain with
      | nil => cases front
      | cons first rest =>
          obtain rfl := Option.some.inj front
          rw [validateCandidate_eq]
          exact dropInvalidTail_eq_nil_iff first rest

end Safire
