/-
The ledger total beside the issued supply.

`build` adds to balances and to the supply in separate statements, and drops an
amount for the empty key. Along an accepted chain the sender of a transfer, a vote
or a carry-forward record and the creator of a block are never empty, so the two
sums drift apart by exactly what transfers pay to the empty key.
-/

import Safire.LedgerBalances

namespace Safire.LedgerState

open ChainValidator

variable {env : Env} {db : LevelDb} {chain : List Block}

theorem total_addBalanceDelta (balances : TextMap Rat) (key : Text) (amount : Rat) :
    Tally.total (addBalanceDelta balances key amount) =
      Tally.total balances + if key = [] then 0 else amount := by
  unfold addBalanceDelta
  by_cases empty : key = []
  · rw [if_pos (by rw [empty]; rfl), if_pos empty, add_zero]
  · rw [if_neg (by simpa using empty), if_neg empty, total_credit]

/-- The balances, with what they lost, sum up to the supply. -/
def SupplyCovered (done : List Entry) (progress : Progress) : Prop :=
  Tally.total progress.result.balances + lostAmount done = progress.result.issuedSupply

theorem lostAmount_snoc (done : List Entry) (entry : Entry) :
    lostAmount (done ++ [entry]) = lostAmount done +
      if entry.2.transactionType = .transferCurrency ∧ entry.2.recipientPublicKey = [] then
        entry.2.amount else 0 := by
  rw [lostAmount, lostAmount, List.map_append, List.sum_append]
  simp

theorem suppliedAmount_of_other {record : Record}
    (other : record.transactionType ≠ .issueCurrency) : suppliedAmount record = 0 :=
  if_neg other

section Step

variable {snapshotMatches : Record → Bool} {wallet : Text} {done : List Entry}
variable {progress : Progress} {block : Block} {record : Record}

/-- A record that is no carry-forward: the amounts move the sums apart by what is lost. -/
theorem SupplyCovered.moved (covered : SupplyCovered done progress)
    (other : record.transactionType ≠ .carryForward)
    (change : ∀ balances, Tally.total (applyRecordToBalances block record balances) +
        (if record.transactionType = .transferCurrency ∧ record.recipientPublicKey = [] then
          record.amount else 0) = Tally.total balances + suppliedAmount record) :
    SupplyCovered (done ++ [(block, record)])
      (applyRecord snapshotMatches wallet progress block record) := by
  obtain ⟨-, -, sameBalances, -, sameSupply⟩ :=
    @applyMembership_amounts snapshotMatches wallet progress block record other
  have moved := change progress.result.balances
  rw [SupplyCovered] at covered ⊢
  rw [applyRecord, applyAmounts, lostAmount_snoc]
  dsimp only
  rw [sameBalances, sameSupply]
  linarith

/-- A carry-forward record: both sums get the reward, or neither. -/
theorem SupplyCovered.carried (covered : SupplyCovered done progress)
    (kind : record.transactionType = .carryForward) (sender : record.senderPublicKey ≠ []) :
    SupplyCovered (done ++ [(block, record)])
      (applyRecord snapshotMatches wallet progress block record) := by
  have rewarded : Tally.total (applyMembership snapshotMatches wallet progress block
        record).result.balances + lostAmount done =
      (applyMembership snapshotMatches wallet progress block record).result.issuedSupply := by
    rw [applyMembership_carryForward kind]
    split
    · unfold applyCarryForward
      dsimp only
      split
      · dsimp only
        rw [total_addBalanceDelta, if_neg sender, ← covered]
        ring
      · exact covered
    · exact covered
  have still : ∀ balances, applyRecordToBalances block record balances = balances := by
    intro balances
    simp [applyRecordToBalances, kind]
  have lost : lostAmount (done ++ [(block, record)]) = lostAmount done := by
    rw [lostAmount_snoc, if_neg (by simp [kind]), add_zero]
  rw [SupplyCovered, applyRecord, applyAmounts, lost,
    suppliedAmount_of_other (by simp [kind]), still]
  dsimp only
  rw [add_zero]
  exact rewarded

end Step

/-- Along an accepted chain every record is applied once. -/
theorem supplyCovered_step (creators : ∀ block ∈ chain, block.creatorKey ≠ [])
    (snapshotMatches : Record → Bool) (wallet : Text) (first latest : Int) :
    PreservedByRecords env chain (fun done state =>
      AmountsRelated snapshotMatches done
          (walkEntries snapshotMatches wallet (.start first latest) done) state ∧
        SupplyCovered done (walkEntries snapshotMatches wallet (.start first latest) done)) := by
  intro before block after earlier record later state seen next place split held connected
  refine ⟨amountsRelated_step creators snapshotMatches wallet first latest before block after
    earlier record later state seen next place split held.1 connected, ?_⟩
  have creator : block.creatorKey ≠ [] := creators block (by rw [place]; simp)
  obtain ⟨related, covered⟩ := held
  rw [walkEntries_snoc]
  generalize walkEntries snapshotMatches wallet (.start first latest)
    (history before block earlier) = progress at related covered ⊢
  generalize history before block earlier = done at related covered ⊢
  obtain ⟨-, hashed, unseen, signed, applied⟩ := connected_of_ok connected
  rw [recordRound_of_new _ _ hashed (related.hashes ▸ unseen)]
  have marked : SupplyCovered done (progress.markHash record) := covered
  generalize progress.markHash record = progress at marked ⊢
  cases applied with
  | issue kind lower upper fromCreator toCreator =>
      refine marked.moved (by simp [kind]) fun balances => ?_
      rw [if_neg (by simp [kind]), suppliedAmount, if_pos kind]
      simp only [applyRecordToBalances, kind, total_addBalanceDelta, toCreator, creator, if_false,
        add_zero]
  | transfer kind positive feeLower sequenced funded =>
      have sender := (signed (by simp [recordRequiresSenderSignature, kind])).1
      refine marked.moved (by simp [kind]) fun balances => ?_
      rw [suppliedAmount_of_other (by simp [kind])]
      simp only [applyRecordToBalances, kind, total_addBalanceDelta, sender, creator, if_false,
        true_and]
      split <;> ring
  | vote kind feeLower funded =>
      have sender := (signed (by simp [recordRequiresSenderSignature, kind])).1
      refine marked.moved (by simp [kind]) fun balances => ?_
      rw [if_neg (by simp [kind]), suppliedAmount_of_other (by simp [kind])]
      simp only [applyRecordToBalances, kind, total_addBalanceDelta, sender, creator, if_false]
      ring
  | join kind | joinNamed kind | rename kind | heartBeat kind | strayHeartBeat kind =>
      refine marked.moved (by simp [kind]) fun balances => ?_
      rw [if_neg (by simp [kind]), suppliedAmount_of_other (by simp [kind])]
      simp only [applyRecordToBalances, kind]
  | carryForward kind | carryForwardAgain kind =>
      exact marked.carried kind (signed (by simp [recordRequiresSenderSignature, kind])).1

theorem supplyCovered_of_connected {state : BranchState}
    (connected : connectChain env chain = .ok state) (snapshotMatches : Record → Bool)
    (wallet : Text) (first latest : Int) :
    SupplyCovered (chainEntries chain)
      (walkEntries snapshotMatches wallet (.start first latest) (chainEntries chain)) := by
  have initially : SupplyCovered [] (.start first latest) := by
    simp [SupplyCovered, Progress.start, State.start, Tally.total_empty, lostAmount]
  have held := holds_after_blocks
    (⟨amountsRelated_start snapshotMatches first latest, initially⟩ :
      AmountsRelated snapshotMatches []
          (walkEntries snapshotMatches wallet (.start first latest) []) .initial ∧
        SupplyCovered [] (walkEntries snapshotMatches wallet (.start first latest) []))
    (supplyCovered_step (creators_of_connected connected) snapshotMatches wallet first latest)
    (fun _ _ _ held =>
      ⟨⟨held.1.hashes, held.1.branchKeys, held.1.ledgerKeys, held.1.balances, held.1.emptyKey,
        held.1.nonces⟩, held.2⟩)
    (List.append_nil chain).symm connected
  exact held.2

/-! ### The finished state -/

/-- The walk leaves the total to the end. -/
theorem walkEntries_ledgerBalanceTotal (snapshotMatches : Record → Bool) (wallet : Text)
    (start : Progress) (entries : List Entry) :
    (walkEntries snapshotMatches wallet start entries).result.ledgerBalanceTotal =
      start.result.ledgerBalanceTotal := by
  induction entries using List.reverseRecOn with
  | nil => rfl
  | append_singleton entries entry ih =>
      rw [walkEntries_snoc, ← ih]
      generalize walkEntries snapshotMatches wallet start entries = progress
      unfold recordRound
      split
      · rfl
      · dsimp only [applyRecord, applyAmounts]
        unfold applyMembership applyJoin applyCarryForward
        dsimp only
        split_ifs <;> rfl

theorem finish_totals (progress : Progress) (wallet : Text) (now : Int) :
    (finish progress wallet now).ledgerBalanceTotal =
        progress.result.ledgerBalanceTotal + Tally.total progress.result.balances ∧
      (finish progress wallet now).issuedSupply = progress.result.issuedSupply := by
  have heartbeat :
      (finishHeartbeat (finishMembers progress now) now).balances = progress.result.balances ∧
        (finishHeartbeat (finishMembers progress now) now).ledgerBalanceTotal =
          progress.result.ledgerBalanceTotal ∧
        (finishHeartbeat (finishMembers progress now) now).issuedSupply =
          progress.result.issuedSupply := by
    unfold finishHeartbeat
    dsimp only
    split_ifs <;> exact ⟨rfl, rfl, rfl⟩
  have summed : ∀ (entries : List (Text × Rat)) (start : Rat),
      entries.foldl (fun total entry => total + entry.2) start =
        start + (entries.map Prod.snd).sum := by
    intro entries start
    induction entries generalizing start with
    | nil => simp
    | cons entry rest ih =>
        rw [List.foldl_cons, ih, List.map_cons, List.sum_cons, add_assoc]
  unfold finish finishTotals
  dsimp only
  split
  · exact ⟨by rw [summed, heartbeat.1, heartbeat.2.1, Tally.total], heartbeat.2.2⟩
  · exact ⟨by rw [summed, heartbeat.1, heartbeat.2.1, Tally.total], heartbeat.2.2⟩

/-- The blocks that `build` visits: those up to a positive stop block. -/
def blocksUpTo (stop : Int) (chain : List Block) : List Block :=
  chain.takeWhile (fun block => !decide (0 < stop ∧ stop < block.number))

theorem connected_blocksUpTo {state : BranchState} (connected : connectChain env chain = .ok state)
    (stop : Int) : ∃ reached, connectChain env (blocksUpTo stop chain) = .ok reached := by
  obtain ⟨rest, cut⟩ := List.takeWhile_prefix
    (fun block : Block => !decide (0 < stop ∧ stop < block.number)) (l := chain)
  rw [← cut] at connected
  exact connectChain_prefix connected

/-- What `build` returns on a stored chain. -/
theorem build_total_add_lost (accepted : Accepts env chain) (stored : StoredAs env db chain)
    (queries : List Query) (now : Int) (wallet : Text) (stop : Int) :
    (build env db (cacheAfter env db queries) now wallet stop).1.ledgerBalanceTotal +
        lostAmount (chainEntries (blocksUpTo stop chain)) =
      (build env db (cacheAfter env db queries) now wallet stop).1.issuedSupply := by
  obtain ⟨present, state, connected⟩ := accepts_iff.mp accepted
  have visited : visitedBlocks env db stop = blocksUpTo stop chain :=
    stored.visitedBlocks_eq (ascending_of_accepts accepted) present stop
  obtain ⟨reached, below⟩ := connected_blocksUpTo connected stop
  have covered : SupplyCovered (chainEntries (blocksUpTo stop chain))
      (walkedProgress env db wallet stop (blocksUpTo stop chain)) :=
    supplyCovered_of_connected below _ wallet _ _
  have untouched :
      (walkedProgress env db wallet stop (blocksUpTo stop chain)).result.ledgerBalanceTotal = 0 :=
    walkEntries_ledgerBalanceTotal _ wallet _ _
  obtain ⟨total, supply⟩ :=
    finish_totals (walkedProgress env db wallet stop (blocksUpTo stop chain)) wallet now
  rw [build_of_stored stored accepted, computeState_of_visited visited]
  dsimp only
  rw [total, supply, untouched, zero_add]
  exact covered

/-- The ledger total is the issued supply, if and only if no visited transfer pays
the empty key. -/
theorem ledger_total_eq_supply_iff (accepted : Accepts env chain) (stored : StoredAs env db chain)
    (queries : List Query) (now : Int) (wallet : Text) (stop : Int) :
    (build env db (cacheAfter env db queries) now wallet stop).1.ledgerBalanceTotal =
        (build env db (cacheAfter env db queries) now wallet stop).1.issuedSupply ↔
      NoLostTransfers (blocksUpTo stop chain) := by
  obtain ⟨-, state, connected⟩ := accepts_iff.mp accepted
  obtain ⟨reached, below⟩ := connected_blocksUpTo connected stop
  rw [← build_total_add_lost accepted stored, ← lostAmount_eq_zero_iff below]
  exact left_eq_add

/-- Half a coin paid to nobody. -/
def lostStore : LevelDb :=
  canonicalStore Sample.env Sample.genesis [Sample.lostBlock]

theorem accepts_lostBlock : Accepts Sample.env [Sample.genesis, Sample.lostBlock] :=
  Sample.accepts_child 7 rfl

theorem storedAs_lostStore :
    StoredAs Sample.env lostStore [Sample.genesis, Sample.lostBlock] :=
  Sample.storedAs (List.mem_iff_getElem?.mpr ⟨10, rfl⟩) accepts_lostBlock (by decide)

theorem lost_transfer_total_differs :
    Accepts Sample.env [Sample.genesis, Sample.lostBlock] ∧
      StoredAs Sample.env lostStore [Sample.genesis, Sample.lostBlock] ∧
      (build Sample.env lostStore ∅ 0 [] (-1)).1.ledgerBalanceTotal ≠
        (build Sample.env lostStore ∅ 0 [] (-1)).1.issuedSupply := by
  refine ⟨accepts_lostBlock, storedAs_lostStore, fun same => ?_⟩
  have sum := build_total_add_lost accepts_lostBlock storedAs_lostStore [] 0 [] (-1)
  rw [cacheAfter_nil, same] at sum
  have lost : lostAmount (chainEntries (blocksUpTo (-1) [Sample.genesis, Sample.lostBlock])) =
      1 / 2 := by
    decide +kernel
  rw [lost] at sum
  linarith

theorem lost_transfer_total_iff :
    (build Sample.env lostStore (cacheAfter Sample.env lostStore []) 0 [] 100).1.ledgerBalanceTotal =
        (build Sample.env lostStore (cacheAfter Sample.env lostStore []) 0 [] 100).1.issuedSupply ↔
      NoLostTransfers [Sample.genesis] :=
  ledger_total_eq_supply_iff accepts_lostBlock storedAs_lostStore [] 0 [] 100

end Safire.LedgerState
