/-
Balances along an accepted branch: no overdraft, spending by the owner only and
conservation.

The three keys of a balance update may coincide in any way, and any of them may
be empty. The lemmas about `credit` absorb all coincidences.
-/

import Safire.BranchStep
import Safire.Library.Tally

namespace Safire.ChainValidator

variable {env : Env}

/-! ### Balance updates -/

@[simp] theorem getD_credit (balances : TextMap Rat) (key other : Text) (amount : Rat) :
    (credit balances key amount).getD other 0 =
      balances.getD other 0 + if key = other then amount else 0 := by
  rw [credit, Std.ExtTreeMap.getD_insert]
  by_cases same : key = other
  · subst same
    simp
  · simp [same]

@[simp] theorem total_credit (balances : TextMap Rat) (key : Text) (amount : Rat) :
    Tally.total (credit balances key amount) = Tally.total balances + amount :=
  Tally.total_insert_add balances key amount

theorem getD_applyTransfer (block : Block) (record : Record) (balances : TextMap Rat)
    (key : Text) :
    (applyTransfer block record balances).getD key 0 =
      balances.getD key 0 + (if record.recipientPublicKey = key then record.amount else 0) +
        (if record.senderPublicKey = key then -(record.amount + record.fee) else 0) +
        (if block.creatorKey = key then record.fee else 0) := by
  simp only [applyTransfer, getD_credit]

theorem getD_applyVote (block : Block) (record : Record) (balances : TextMap Rat) (key : Text) :
    (applyVote block record balances).getD key 0 =
      balances.getD key 0 + (if record.senderPublicKey = key then -record.fee else 0) +
        (if block.creatorKey = key then record.fee else 0) := by
  simp only [applyVote, getD_credit]

theorem total_applyTransfer (block : Block) (record : Record) (balances : TextMap Rat) :
    Tally.total (applyTransfer block record balances) = Tally.total balances := by
  simp only [applyTransfer, total_credit]
  ring

theorem total_applyVote (block : Block) (record : Record) (balances : TextMap Rat) :
    Tally.total (applyVote block record balances) = Tally.total balances := by
  simp only [applyVote, total_credit]
  ring

theorem balance_acceptHash (state : BranchState) (record : Record) (key : Text) :
    (acceptHash state record).balance key = state.balance key :=
  rfl

/-! ### How one record can lower a balance -/

/-- A transfer lowers only its sender, by at most what `transferDebit` checked. -/
theorem applyTransfer_lower (block : Block) (record : Record) (balances : TextMap Rat)
    (key : Text) (positive : 0 < record.amount) (feeLower : 0 ≤ record.fee) :
    balances.getD key 0 - (if record.senderPublicKey = key then transferDebit record else 0) ≤
      (applyTransfer block record balances).getD key 0 := by
  rw [getD_applyTransfer, transferDebit]
  have creatorGain : 0 ≤ if block.creatorKey = key then record.fee else 0 := by
    split <;> simp [feeLower]
  by_cases sender : record.senderPublicKey = key
  · subst sender
    by_cases own : record.senderPublicKey = record.recipientPublicKey
    · rw [if_pos rfl, if_pos own, if_pos own.symm, if_pos rfl]
      linarith
    · rw [if_pos rfl, if_neg own, if_neg (Ne.symm own), if_pos rfl]
      linarith
  · rw [if_neg sender, if_neg sender]
    have recipientGain : 0 ≤ if record.recipientPublicKey = key then record.amount else 0 := by
      split <;> simp [positive.le]
    linarith

theorem applyVote_lower (block : Block) (record : Record) (balances : TextMap Rat) (key : Text)
    (feeLower : 0 ≤ record.fee) :
    balances.getD key 0 - (if record.senderPublicKey = key then record.fee else 0) ≤
      (applyVote block record balances).getD key 0 := by
  rw [getD_applyVote]
  have creatorGain : 0 ≤ if block.creatorKey = key then record.fee else 0 := by
    split <;> simp [feeLower]
  by_cases sender : record.senderPublicKey = key
  · rw [if_pos sender, if_pos sender]
    linarith
  · rw [if_neg sender, if_neg sender]
    linarith

theorem credit_raises (balances : TextMap Rat) (key other : Text) {amount : Rat}
    (nonnegative : 0 ≤ amount) :
    balances.getD other 0 ≤ (credit balances key amount).getD other 0 := by
  rw [getD_credit]
  have gain : 0 ≤ if key = other then amount else 0 := by
    split <;> simp [nonnegative]
  linarith

/-- The bound on what a record takes from a key. Only the sender of a transfer
or a vote pays, and what he pays was covered by his balance. -/
theorem applied_lower {block : Block} {isGenesis : Bool} {state next : BranchState}
    {record : Record} (applied : Applied block isGenesis state record next) (key : Text) :
    state.balance key ≤ next.balance key ∨
      record.senderPublicKey = key ∧
        (record.transactionType = .transferCurrency ∧
            state.balance key - transferDebit record ≤ next.balance key ∧
            transferDebit record ≤ state.balance key + balanceTolerance ∨
          record.transactionType = .vote ∧
            state.balance key - record.fee ≤ next.balance key ∧
            record.fee ≤ state.balance key + balanceTolerance) := by
  cases applied with
  | issue kind lower upper fromCreator toCreator =>
      exact .inl (credit_raises _ _ _ lower)
  | transfer kind positive feeLower sequenced funded =>
      have bound := applyTransfer_lower block record state.balances key positive feeLower
      by_cases sender : record.senderPublicKey = key
      · rw [if_pos sender] at bound
        rw [sender] at funded
        exact .inr ⟨sender, .inl ⟨kind, bound, funded⟩⟩
      · rw [if_neg sender, sub_zero] at bound
        exact .inl bound
  | vote kind feeLower funded =>
      have bound := applyVote_lower block record state.balances key feeLower
      by_cases sender : record.senderPublicKey = key
      · rw [if_pos sender] at bound
        rw [sender] at funded
        exact .inr ⟨sender, .inr ⟨kind, bound, funded⟩⟩
      · rw [if_neg sender, sub_zero] at bound
        exact .inl bound
  | join | joinNamed | rename | heartBeat | strayHeartBeat | carryForwardAgain =>
      exact .inl le_rfl
  | carryForward kind wellFormed keyed opens =>
      exact .inl (credit_raises _ _ _ (by rw [carryForwardReward]; norm_num))

/-! ### No account is overdrawn -/

def NeverOverdrawn (_ : List Entry) (state : BranchState) : Prop :=
  ∀ key, -balanceTolerance ≤ state.balance key

theorem neverOverdrawn_initial : NeverOverdrawn [] .initial := by
  intro key
  rw [BranchState.balance, BranchState.initial, Std.ExtTreeMap.getD_empty, balanceTolerance]
  norm_num

theorem neverOverdrawn_step (chain : List Block) :
    PreservedByRecords env chain NeverOverdrawn := by
  intro before block after earlier record later state seen next _ _ held connected key
  have old : -balanceTolerance ≤ (acceptHash state record).balance key := held key
  rcases applied_lower (connected_of_ok connected).applied key with
    raised | ⟨-, ⟨-, paid, funded⟩ | ⟨-, paid, funded⟩⟩
  · exact old.trans raised
  · linarith
  · linarith

theorem balance_never_overdrawn {chain before after : List Block} {block : Block}
    {records later : List Record} (accepted : Accepts env chain)
    (place : chain = before ++ block :: after) (split : block.records = records ++ later) :
    ∃ state, stateAfterRecords env before block records = .ok state ∧
      ∀ key, -(1 / 1000000) ≤ state.balance key := by
  obtain ⟨state, reached⟩ := stateAfterRecords_reached accepted place split
  exact ⟨state, reached, holds_after_record neverOverdrawn_initial (neverOverdrawn_step chain)
    (fun _ _ _ held => held) place split reached⟩

theorem balance_never_overdrawn_after_spend :
    ∃ state, stateAfterRecords Sample.env [Sample.genesis] Sample.validSpend [Sample.spend] =
        .ok state ∧ ∀ key, -(1 / 1000000) ≤ state.balance key :=
  @balance_never_overdrawn Sample.env [Sample.genesis, Sample.validSpend] [Sample.genesis] []
    Sample.validSpend [Sample.spend] [] Sample.accepts_validSpend rfl rfl

/-! ### Only the owner spends -/

def issuedAmount (entries : List Entry) : Rat :=
  (entries.map (fun entry =>
    if entry.2.transactionType = .issueCurrency then entry.2.amount else 0)).sum

/-- The keys of the carry-forward records of a history, with repetitions. -/
def carryForwardKeys (entries : List Entry) : List Text :=
  entries.filterMap (fun entry =>
    if entry.2.transactionType = .carryForward ∧ carryForwardKey entry.2 ≠ [] then
      some (carryForwardKey entry.2)
    else none)

theorem issuedAmount_snoc (entries : List Entry) (entry : Entry) :
    issuedAmount (entries ++ [entry]) = issuedAmount entries +
      if entry.2.transactionType = .issueCurrency then entry.2.amount else 0 := by
  simp [issuedAmount]

theorem carryForwardKeys_snoc (entries : List Entry) (entry : Entry) :
    carryForwardKeys (entries ++ [entry]) = carryForwardKeys entries ++
      if entry.2.transactionType = .carryForward ∧ carryForwardKey entry.2 ≠ [] then
        [carryForwardKey entry.2]
      else [] := by
  rw [carryForwardKeys, List.filterMap_append]
  congr 1
  by_cases keyed : entry.2.transactionType = .carryForward ∧ carryForwardKey entry.2 ≠ []
  · rw [List.filterMap_cons, if_pos keyed, if_pos keyed, List.filterMap_nil]
  · rw [List.filterMap_cons, if_neg keyed, if_neg keyed, List.filterMap_nil]

/-- The set of accepted keys is that of the history, and the balances sum up to
what was issued and rewarded. -/
structure Conserved (done : List Entry) (state : BranchState) : Prop where
  keys : ∀ key, key ∈ state.acceptedCarryForwardKeys ↔ key ∈ carryForwardKeys done
  sum : Tally.total state.balances =
    issuedAmount done + carryForwardReward * (carryForwardKeys done).toFinset.card

theorem conserved_initial : Conserved [] .initial where
  keys := by
    intro key
    simp [BranchState.initial, carryForwardKeys, Std.ExtTreeSet.not_mem_empty]
  sum := by
    simp [BranchState.initial, Tally.total_empty, issuedAmount, carryForwardKeys]

/-- A record that neither issues nor opens a key leaves both sides alone. -/
private theorem conserved_unchanged {done : List Entry} {state next : BranchState} {entry : Entry}
    (held : Conserved done state) (notIssue : entry.2.transactionType ≠ .issueCurrency)
    (notOpening : entry.2.transactionType = .carryForward → carryForwardKey entry.2 ≠ [] →
      carryForwardKey entry.2 ∈ carryForwardKeys done)
    (sameKeys : next.acceptedCarryForwardKeys = state.acceptedCarryForwardKeys)
    (sameTotal : Tally.total next.balances = Tally.total state.balances) :
    Conserved (done ++ [entry]) next := by
  have members : ∀ key, key ∈ carryForwardKeys (done ++ [entry]) ↔ key ∈ carryForwardKeys done := by
    intro key
    rw [carryForwardKeys_snoc, List.mem_append]
    split
    · rename_i keyed
      simp only [List.mem_singleton]
      constructor
      · rintro (old | rfl)
        · exact old
        · exact notOpening keyed.1 keyed.2
      · exact .inl
    · simp
  have sameSet : (carryForwardKeys (done ++ [entry])).toFinset = (carryForwardKeys done).toFinset := by
    ext key
    simp only [List.mem_toFinset, members]
  exact
    { keys := fun key => by rw [sameKeys, held.keys, members]
      sum := by rw [sameTotal, held.sum, issuedAmount_snoc, if_neg notIssue, add_zero, sameSet] }

theorem conserved_step (chain : List Block) : PreservedByRecords env chain Conserved := by
  intro before block after earlier record later state seen next _ _ held connected
  generalize history before block earlier = done at held ⊢
  have heldMarked : Conserved done (acceptHash state record) := ⟨held.keys, held.sum⟩
  cases (connected_of_ok connected).applied with
  | issue kind lower upper fromCreator toCreator =>
      have noKey : carryForwardKeys (done ++ [(block, record)]) = carryForwardKeys done := by
        simp [carryForwardKeys_snoc, kind]
      exact
        { keys := fun key => by rw [noKey]; exact held.keys key
          sum := by
            rw [total_credit, noKey, issuedAmount_snoc, if_pos kind, heldMarked.sum]
            ring }
  | transfer kind positive feeLower sequenced funded =>
      exact conserved_unchanged heldMarked (by simp [kind]) (by simp [kind]) rfl
        (total_applyTransfer block record _)
  | vote kind feeLower funded =>
      exact conserved_unchanged heldMarked (by simp [kind]) (by simp [kind]) rfl
        (total_applyVote block record _)
  | join kind | joinNamed kind | rename kind | heartBeat kind | strayHeartBeat kind =>
      exact conserved_unchanged heldMarked (by simp [kind]) (by simp [kind]) rfl rfl
  | carryForward kind wellFormed keyed opens =>
      have newKey : carryForwardKey record ∉ carryForwardKeys done :=
        fun old => opens ((heldMarked.keys _).mpr old)
      have extended : carryForwardKeys (done ++ [(block, record)]) =
          carryForwardKeys done ++ [carryForwardKey record] := by
        rw [carryForwardKeys_snoc, if_pos ⟨kind, keyed⟩]
      have counted : (carryForwardKeys (done ++ [(block, record)])).toFinset.card =
          (carryForwardKeys done).toFinset.card + 1 := by
        rw [extended, List.toFinset_append, Finset.union_comm]
        simp [newKey]
      exact
        { keys := by
            intro key
            rw [extended, List.mem_append, List.mem_singleton, ← heldMarked.keys key,
              Std.ExtTreeSet.mem_insert, Std.LawfulEqCmp.compare_eq_iff_eq, or_comm,
              @eq_comm _ key]
          sum := by
            rw [total_credit, heldMarked.sum, counted, issuedAmount_snoc, if_neg (by simp [kind])]
            push_cast
            ring }
  | carryForwardAgain kind wellFormed idle =>
      refine conserved_unchanged heldMarked (by simp [kind]) ?_ rfl rfl
      intro _ keyed
      rcases idle with empty | old
      · exact absurd empty keyed
      · exact (heldMarked.keys _).mp old

theorem balances_conserved {chain before after : List Block} {block : Block}
    {records later : List Record} (accepted : Accepts env chain)
    (place : chain = before ++ block :: after) (split : block.records = records ++ later) :
    ∃ state, stateAfterRecords env before block records = .ok state ∧
      Tally.total state.balances =
        issuedAmount (history before block records) +
          carryForwardReward * (carryForwardKeys (history before block records)).toFinset.card := by
  obtain ⟨state, reached⟩ := stateAfterRecords_reached accepted place split
  have conserved : Conserved (history before block records) state :=
    holds_after_record conserved_initial (conserved_step chain)
      (fun _ _ _ held => ⟨held.keys, held.sum⟩) place split reached
  exact ⟨state, reached, conserved.sum⟩

theorem balances_conserved_after_spend :
    ∃ state, stateAfterRecords Sample.env [Sample.genesis] Sample.validSpend [Sample.spend] =
        .ok state ∧
      Tally.total state.balances =
        issuedAmount (history [Sample.genesis] Sample.validSpend [Sample.spend]) +
          carryForwardReward *
            (carryForwardKeys
              (history [Sample.genesis] Sample.validSpend [Sample.spend])).toFinset.card :=
  @balances_conserved Sample.env [Sample.genesis, Sample.validSpend] [Sample.genesis] []
    Sample.validSpend [Sample.spend] [] Sample.accepts_validSpend rfl rfl

end Safire.ChainValidator
