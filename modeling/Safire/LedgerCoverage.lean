/-
How much of a chain the ledger covers. The walks make at most as many rounds as
their guard allows, and a stop block that is not positive stops nothing.
-/

import Safire.LedgerSupply

namespace Safire.LedgerState

open ChainValidator Text

variable {env : Env} {db : LevelDb} {chain : List Block}

/-! ### The blocks of a query -/

/-- The blocks with a number of at most the stop block, if one is given. -/
def blocksAtMost (stop : Int) (chain : List Block) : List Block :=
  if 0 < stop then chain.filter (fun block => decide (block.number ≤ stop)) else chain

/-- What `build` returns when it has processed these blocks. -/
def stateOver (env : Env) (db : LevelDb) (now : Int) (wallet : Text) (stop : Int)
    (blocks : List Block) : State :=
  { finish (walkedProgress env db wallet stop blocks) wallet now with
    latestBlock := blocks.getLast?.getD .missing
    connectedBlockCount := blocks.length }

/-- The fold of `balancesThroughBlock`. -/
def foldBalances (blocks : List Block) : TextMap Rat :=
  (blocks.foldl (fun progress block => block.records.foldl (balanceRound block) progress)
    (∅, ∅)).1

theorem takeWhile_le_eq_filter (ascending : Ascending chain) (stop : Int) :
    chain.takeWhile (fun block => !decide (stop < block.number)) =
      chain.filter (fun block => decide (block.number ≤ stop)) := by
  obtain ⟨-, sorted⟩ := ascending
  induction chain with
  | nil => rfl
  | cons first rest ih =>
      obtain ⟨above, sorted⟩ := List.pairwise_cons.mp sorted
      by_cases far : stop < first.number
      · have none : rest.filter (fun block => decide (block.number ≤ stop)) = [] := by
          rw [List.filter_eq_nil_iff]
          intro block member
          have later := above block member
          rw [decide_eq_true_eq]
          omega
        simp [far, none]
      · simp [not_lt.mp far, ih sorted]

theorem blocksUpTo_eq (ascending : Ascending chain) (stop : Int) :
    blocksUpTo stop chain = blocksAtMost stop chain := by
  unfold blocksUpTo blocksAtMost
  by_cases given : 0 < stop
  · rw [if_pos given, ← takeWhile_le_eq_filter ascending]
    simp only [given, true_and]
  · rw [if_neg given, List.takeWhile_eq_self_iff]
    intro block _
    simp [given]

/-! ### What the walks process -/

theorem visitedBlocks_of_canonical (canonical : CanonicalChain env db chain) (stop : Int) :
    visitedBlocks env db stop = (blocksAtMost stop chain).take walkGuard := by
  rw [canonical.visitedBlocks_eq, ← blocksUpTo_eq canonical.ascending]
  rfl

/-- Whatever was queried before, `build` folds as many blocks as the guard allows. -/
theorem build_of_canonical (canonical : CanonicalChain env db chain) (queries : List Query)
    (now : Int) (wallet : Text) (stop : Int) :
    (build env db (cacheAfter env db queries) now wallet stop).1 =
      stateOver env db now wallet stop ((blocksAtMost stop chain).take walkGuard) := by
  obtain ⟨first, latest⟩ := canonical.ends_positive
  have reached : 0 ≤ buildLatestBlockId db stop := by
    rw [buildLatestBlockId]
    split <;> omega
  rw [build_eq_computeState (cacheAfter_coherent queries) first.le reached]
  exact computeState_of_visited (visitedBlocks_of_canonical canonical stop) now wallet

theorem balancesThroughBlock_of_canonical (canonical : CanonicalChain env db chain)
    (checkpoint : Int) :
    balancesThroughBlock env db checkpoint = foldBalances
      ((chain.filter (fun block => decide (block.number ≤ checkpoint))).take walkGuard) := by
  obtain ⟨first, latest⟩ := canonical.ends_positive
  rw [balancesThroughBlock, ← takeWhile_le_eq_filter canonical.ascending]
  dsimp only
  by_cases below : checkpoint < getFirstBlockId db
  · have head := (canonical.first _ (List.head?_eq_some_head canonical.present)).1
    have none : chain.takeWhile (fun block => !decide (checkpoint < block.number)) = [] := by
      obtain ⟨genesis, rest, rfl⟩ := List.exists_cons_of_ne_nil canonical.present
      rw [head] at below
      exact List.takeWhile_cons_of_neg (by simpa using below)
    rw [if_pos (by omega), none]
    rfl
  · rw [if_neg (by omega), canonical.walk_eq]
    · rfl
    · intro tip last
      rw [canonical.latest tip last]
      simp
    · intro before parent child after place isLast
      have under := canonical.below_latest place
      rw [decide_eq_true_eq] at isLast
      omega

theorem balanceRounds_nil_key (block : Block) (records : List Record) :
    ∀ progress : TextMap Rat × TextSet,
      (records.foldl (balanceRound block) progress).1.getD [] 0 = progress.1.getD [] 0 := by
  induction records with
  | nil => exact fun _ => rfl
  | cons record records ih =>
      intro progress
      rw [List.foldl_cons, ih]
      unfold balanceRound
      split
      · rfl
      · exact getD_applyRecordToBalances_nil block record progress.1

theorem foldBalances_nil_key (blocks : List Block) : (foldBalances blocks).getD [] 0 = 0 := by
  induction blocks using List.reverseRecOn with
  | nil => simp [foldBalances]
  | append_singleton blocks block ih =>
      rw [foldBalances, List.foldl_append]
      exact (balanceRounds_nil_key block block.records _).trans ih

theorem balanceAtBlock_of_canonical (canonical : CanonicalChain env db chain) (key : Text)
    (checkpoint : Int) :
    balanceAtBlock env db key checkpoint = (foldBalances
      ((chain.filter (fun block => decide (block.number ≤ checkpoint))).take walkGuard)).getD
        key 0 := by
  rw [balanceAtBlock, balancesThroughBlock_of_canonical canonical]
  by_cases empty : key = []
  · rw [empty, foldBalances_nil_key]
    rfl
  · rw [if_neg (by rwa [List.length_eq_zero_iff])]

/-! ### The ledger covers a chain -/

/-- `build` processes exactly the blocks of the chain up to the stop block: its
count, its last block and all else are those of the fold over them. -/
def Covers (env : Env) (db : LevelDb) (chain : List Block) (stop : Int) : Prop :=
  ∀ queries now wallet, (build env db (cacheAfter env db queries) now wallet stop).1 =
    stateOver env db now wallet stop (blocksAtMost stop chain)

/-- Every balance at the checkpoint is the fold of all blocks up to it. -/
def BalancesCover (env : Env) (db : LevelDb) (chain : List Block) (checkpoint : Int) : Prop :=
  ∀ key, balanceAtBlock env db key checkpoint =
    (foldBalances (chain.filter (fun block => decide (block.number ≤ checkpoint)))).getD key 0

theorem covers_iff (canonical : CanonicalChain env db chain) (stop : Int) :
    Covers env db chain stop ↔ (blocksAtMost stop chain).length ≤ walkGuard := by
  constructor
  · intro covers
    have built := build_of_canonical canonical [] 0 [] stop
    rw [covers] at built
    have count := congrArg State.connectedBlockCount built
    simp only [stateOver, List.length_take] at count
    omega
  · intro short queries now wallet
    rw [build_of_canonical canonical, List.take_of_length_le short]

theorem balancesCover_of_short (canonical : CanonicalChain env db chain) {checkpoint : Int}
    (short : (chain.filter (fun block => decide (block.number ≤ checkpoint))).length ≤ walkGuard) :
    BalancesCover env db chain checkpoint := by
  intro key
  rw [balanceAtBlock_of_canonical canonical, List.take_of_length_le short]

/-- The ledger covers a chain under every stop block and checkpoint, if and only
if the chain has at most as many blocks as the guard. Under one stop block only
the blocks up to it count. -/
theorem ledger_covers_chain_iff (canonical : CanonicalChain env db chain) :
    ((∀ stop, Covers env db chain stop) ∧ (∀ checkpoint, BalancesCover env db chain checkpoint) ↔
        chain.length ≤ walkGuard) ∧
      (∀ stop, Covers env db chain stop ↔ (blocksAtMost stop chain).length ≤ walkGuard) ∧
      ∀ checkpoint,
        (chain.filter (fun block => decide (block.number ≤ checkpoint))).length ≤ walkGuard →
          BalancesCover env db chain checkpoint := by
  have whole : blocksAtMost (-1) chain = chain := rfl
  constructor
  · constructor
    · intro holds
      exact (covers_iff canonical (-1)).mp (holds.1 (-1))
    · intro short
      constructor
      · intro stop
        apply (covers_iff canonical stop).mpr
        unfold blocksAtMost
        split
        · exact (List.length_filter_le _ _).trans short
        · exact short
      · intro checkpoint
        exact balancesCover_of_short canonical ((List.length_filter_le _ _).trans short)
  constructor
  · exact covers_iff canonical
  · intro checkpoint
    exact balancesCover_of_short canonical

/-! ### A chain with a block in every slot -/

def tickBlock (number : Int) : Block where
  network := "main".toList
  number := number
  time := "1".toList
  previousBlockId := number - 1
  previousBlockHash := if number = 1 then [] else ofLong (number - 1)
  recordsMerkleRoot := []
  creatorKey := "creator".toList
  hash := ofLong number
  signature := "signature".toList
  records := []

def ticksFrom (number : Int) : Nat → List Block
  | 0 => []
  | count + 1 => tickBlock number :: ticksFrom (number + 1) count

/-- The chain from slot one on, with this many blocks after the first. -/
def tickStore (count : Nat) : LevelDb :=
  canonicalStore Sample.env (tickBlock 1) (ticksFrom 2 count)

theorem length_ticksFrom (number : Int) (count : Nat) : (ticksFrom number count).length = count := by
  induction count generalizing number with
  | zero => rfl
  | succ count ih => rw [ticksFrom, List.length_cons, ih]

theorem mem_ticksFrom {number : Int} {count : Nat} {block : Block}
    (member : block ∈ ticksFrom number count) :
    ∃ slot, number ≤ slot ∧ slot < number + count ∧ block = tickBlock slot := by
  induction count generalizing number with
  | zero => cases member
  | succ count ih =>
      cases List.mem_cons.mp member with
      | inl same => exact ⟨number, le_rfl, by omega, same⟩
      | inr later =>
          obtain ⟨slot, lower, upper, same⟩ := ih later
          exact ⟨slot, by omega, by omega, same⟩

theorem tickBlock_connects {number : Int} (positive : 0 < number) :
    childConnectsToParent (tickBlock (number + 1)) (tickBlock number) = true := by
  apply childConnectsToParent_iff.mpr
  have later : number + 1 ≠ 1 := by omega
  simp only [tickBlock, add_sub_cancel_right, if_neg later]
  exact ⟨positive, trivial, by omega, ofLong_ne_nil number, trivial⟩

theorem ticks_linked {number : Int} (positive : 0 < number) (count : Nat) :
    (ticksFrom number count).IsChain
      (fun parent child => childConnectsToParent child parent = true) := by
  induction count generalizing number with
  | zero => exact List.isChain_nil
  | succ count ih =>
      cases count with
      | zero => exact List.isChain_singleton _
      | succ count =>
          apply List.isChain_cons_cons.mpr
          constructor
          · exact tickBlock_connects positive
          · exact ih (by omega : 0 < number + 1)

theorem ticks_ascending {number : Int} (positive : 0 < number) (count : Nat) :
    Ascending (ticksFrom number count) := by
  constructor
  · intro block member
    obtain ⟨slot, lower, -, rfl⟩ := mem_ticksFrom member
    exact positive.trans_le lower
  · induction count generalizing number with
    | zero => exact List.Pairwise.nil
    | succ count ih =>
        apply List.pairwise_cons.mpr
        constructor
        · intro block member
          obtain ⟨slot, lower, -, rfl⟩ := mem_ticksFrom member
          exact Int.lt_of_lt_of_le (Int.lt_succ number) lower
        · exact ih (by omega : 0 < number + 1)

theorem tickBlock_roundTrips {number : Int} (positive : 0 < number) (fits : IsLong number) :
    RoundTrips Sample.env (tickBlock number) := by
  have parent : IsLong (number - 1) := by
    unfold IsLong longMin longMax at fits ⊢
    omega
  apply roundTrips_of_fit
  · exact
      { network := (by decide : isPlain "main".toList = true)
        time := (by decide : isPlain "1".toList = true)
        previousBlockHash := by
          unfold tickBlock
          dsimp only
          split
          · rfl
          · exact isPlain_ofLong _
        recordsMerkleRoot := rfl
        creatorKey := (by decide : isPlain "creator".toList = true)
        hash := isPlain_ofLong number
        signature := (by decide : isPlain "signature".toList = true)
        number := ⟨positive, fits⟩
        previousBlockId := parent
        hashed := ofLong_ne_nil number
        timed := List.cons_ne_nil _ _
        genesisNetwork := fun _ => List.cons_ne_nil _ _
        records := List.forall_mem_nil _ }
  · exact recordsFit_nil

theorem separate_ticks {number : Int} (positive : 0 < number) (count : Nat) :
    Separate (ticksFrom number count) := by
  have distinct : ((ticksFrom number count).map Block.number).Nodup := by
    apply List.pairwise_map.mpr
    exact (ticks_ascending positive count).sorted.imp fun above => above.ne
  have named : (ticksFrom number count).map Block.hash =
      ((ticksFrom number count).map Block.number).map ofLong := by
    rw [List.map_map]
    apply List.map_congr_left
    intro block member
    obtain ⟨slot, -, -, rfl⟩ := mem_ticksFrom member
    rfl
  constructor
  · exact distinct
  · rw [named]
    exact distinct.map fun _ _ => ofLong_injective

theorem canonical_tickStore {count : Nat} (fits : (count : Int) < longMax) :
    CanonicalChain Sample.env (tickStore count) (ticksFrom 1 (count + 1)) := by
  apply canonicalChain_canonicalStore
  · exact ticks_ascending Int.one_pos (count + 1)
  · exact ticks_linked Int.one_pos (count + 1)
  · exact separate_ticks Int.one_pos (count + 1)
  · intro block member
    obtain ⟨slot, lower, upper, rfl⟩ := @mem_ticksFrom 1 (count + 1) block member
    apply tickBlock_roundTrips (by omega)
    unfold IsLong longMin longMax at *
    push_cast at upper
    omega

/-- On the 100001 blocks of the slots from one on, the last block is left out. -/
theorem long_chain_cut :
    CanonicalChain Sample.env (tickStore 100000) (ticksFrom 1 100001) ∧
      (build Sample.env (tickStore 100000) ∅ 0 [] (-1)).1.connectedBlockCount = 100000 ∧
      ¬ Covers Sample.env (tickStore 100000) (ticksFrom 1 100001) (-1) := by
  have canonical : CanonicalChain Sample.env (tickStore 100000) (ticksFrom 1 100001) :=
    canonical_tickStore (by decide)
  have whole : blocksAtMost (-1) (ticksFrom 1 100001) = ticksFrom 1 100001 := rfl
  constructor
  · exact canonical
  constructor
  · have built := build_of_canonical canonical [] 0 [] (-1)
    rw [cacheAfter_nil, whole] at built
    rw [built]
    simp only [stateOver, List.length_take, length_ticksFrom, walkGuard]
    rfl
  · rw [covers_iff canonical, whole, length_ticksFrom, walkGuard]
    decide

theorem ledger_covers_sample :
    ((∀ stop, Covers Sample.env (tickStore 2) (ticksFrom 1 3) stop) ∧
          (∀ checkpoint, BalancesCover Sample.env (tickStore 2) (ticksFrom 1 3) checkpoint) ↔
        (ticksFrom 1 3).length ≤ walkGuard) ∧
      (∀ stop, Covers Sample.env (tickStore 2) (ticksFrom 1 3) stop ↔
        (blocksAtMost stop (ticksFrom 1 3)).length ≤ walkGuard) ∧
      ∀ checkpoint, ((ticksFrom 1 3).filter
          (fun block => decide (block.number ≤ checkpoint))).length ≤ walkGuard →
        BalancesCover Sample.env (tickStore 2) (ticksFrom 1 3) checkpoint :=
  ledger_covers_chain_iff (@canonical_tickStore 2 (by decide))

/-! ### Confirmed blocks -/

theorem confirmedStopBlock_of_canonical (canonical : CanonicalChain env db chain)
    (bounded : chain.length ≤ walkGuard) {confirmations : Int} (some : 1 ≤ confirmations) :
    confirmedStopBlock env db confirmations =
      if (chain.length : Int) ≤ confirmations then getFirstBlockId db - 1
      else (chain.map Block.number).getD (chain.length - confirmations.toNat - 1) 0 := by
  obtain ⟨first, latest⟩ := canonical.ends_positive
  have connected : walk env db (fun _ => false)
      (fun number => decide (number = getLatestBlockId db)) walkGuard
        (getBlock env db (getFirstBlockId db)) = chain := by
    rw [canonical.walk_eq]
    · have whole : chain.takeWhile (fun _ => !false) = chain :=
        List.takeWhile_eq_self_iff.mpr fun _ _ => rfl
      rw [whole, List.take_of_length_le bounded]
    · intro tip last
      rw [canonical.latest tip last]
      simp
    · intro before parent child after place isLast
      have under := canonical.below_latest place
      rw [decide_eq_true_eq] at isLast
      omega
  rw [confirmedStopBlock]
  dsimp only
  rw [if_neg (by omega), if_neg (by omega), connected, List.length_map]

/-- The blocks up to a block of an ascending chain. -/
theorem blocksAtMost_of_place (ascending : Ascending chain) {place : Nat} {block : Block}
    (found : chain[place]? = some block) :
    blocksAtMost block.number chain = chain.take (place + 1) := by
  obtain ⟨inside, value⟩ := List.getElem?_eq_some_iff.mp found
  have split : chain = chain.take place ++ block :: chain.drop (place + 1) := by
    rw [← value, List.cons_getElem_drop_succ, List.take_append_drop]
  have sorted := ascending.sorted
  rw [split] at sorted
  obtain ⟨-, after, before⟩ := List.pairwise_append.mp sorted
  have later := (List.pairwise_cons.mp after).1
  have front : (chain.take place).filter (fun other => decide (other.number ≤ block.number)) =
      chain.take place := by
    rw [List.filter_eq_self]
    intro other member
    exact decide_eq_true (before other member block List.mem_cons_self).le
  have back : (chain.drop (place + 1)).filter
      (fun other => decide (other.number ≤ block.number)) = [] := by
    rw [List.filter_eq_nil_iff]
    intro other member
    have above := later other member
    rw [decide_eq_true_eq]
    omega
  have taken : chain.take (place + 1) = chain.take place ++ [block] := by
    rw [List.take_add_one, found]
    rfl
  rw [blocksAtMost, if_pos (ascending.positive block (List.mem_of_getElem? found)), taken]
  nth_rewrite 1 [split]
  rw [List.filter_append, front, List.filter_cons, if_pos (by simp), back]

/-- The state of `build` under the confirmed stop block is that of the chain
without its last blocks, and it is empty where the chain has no more of them. -/
def OmitsUnconfirmed (env : Env) (db : LevelDb) (chain : List Block) (confirmations : Int) :
    Prop :=
  let stop := confirmedStopBlock env db confirmations
  let confirmed := chain.take (chain.length - confirmations.toNat)
  visitedBlocks env db stop = confirmed ∧
    ∀ queries now wallet,
      (build env db (cacheAfter env db queries) now wallet stop).1 =
          stateOver env db now wallet stop confirmed ∧
        ((chain.length : Int) ≤ confirmations → ∀ key,
          (build env db (cacheAfter env db queries) now wallet stop).1.balances.getD key 0 = 0)

theorem stateOver_nil_balance (now : Int) (wallet : Text) (stop : Int) (key : Text) :
    (stateOver env db now wallet stop []).balances.getD key 0 = 0 := by
  have finished := (finish_amounts (walkedProgress env db wallet stop []) wallet now).1 key
  exact finished.trans (by simp [walkedProgress, walkEntries, Progress.start, State.start,
    chainEntries])

theorem blocksAtMost_confirmed (canonical : CanonicalChain env db chain)
    (bounded : chain.length ≤ walkGuard) {confirmations : Int} (some : 1 ≤ confirmations)
    (cut : confirmations < chain.length ∨ 1 < getFirstBlockId db) :
    blocksAtMost (confirmedStopBlock env db confirmations) chain =
      chain.take (chain.length - confirmations.toNat) := by
  have present := List.length_pos_iff.mpr canonical.present
  rw [confirmedStopBlock_of_canonical canonical bounded some]
  by_cases short : (chain.length : Int) ≤ confirmations
  · have first : 1 < getFirstBlockId db := by omega
    have head := (canonical.first _ (List.head?_eq_some_head canonical.present)).1
    have none : chain.length - confirmations.toNat = 0 := by omega
    rw [if_pos short, blocksAtMost, if_pos (by omega), none, List.take_zero,
      List.filter_eq_nil_iff]
    intro block member
    have above : getFirstBlockId db ≤ block.number := by
      obtain ⟨genesis, rest, rfl⟩ := List.exists_cons_of_ne_nil canonical.present
      rw [head]
      cases List.mem_cons.mp member with
      | inl same => rw [same]; rfl
      | inr later =>
          exact ((List.pairwise_cons.mp canonical.ascending.sorted).1 block later).le
    rw [decide_eq_true_eq]
    omega
  · have inside : chain.length - confirmations.toNat - 1 < chain.length := by omega
    have place := List.getElem?_eq_getElem inside
    rw [if_neg short, List.getD_eq_getElem?_getD, List.getElem?_map, place]
    dsimp only [Option.map_some, Option.getD_some]
    rw [blocksAtMost_of_place canonical.ascending place]
    congr 1
    omega

/-- The confirmed state omits exactly the last blocks, if and only if the chain
has more blocks than those or its first number is not one. -/
theorem confirmed_state_omits_iff (canonical : CanonicalChain env db chain)
    (bounded : chain.length ≤ walkGuard) {confirmations : Int} (some : 1 ≤ confirmations) :
    OmitsUnconfirmed env db chain confirmations ↔
      confirmations < chain.length ∨ 1 < getFirstBlockId db := by
  have present := List.length_pos_iff.mpr canonical.present
  obtain ⟨first, -⟩ := canonical.ends_positive
  constructor
  · intro omits
    by_contra uncut
    rw [not_or, not_lt, not_lt] at uncut
    have stop : confirmedStopBlock env db confirmations = 0 := by
      rw [confirmedStopBlock_of_canonical canonical bounded some, if_pos uncut.1]
      omega
    have visited := omits.1
    have none : chain.length - confirmations.toNat = 0 := by omega
    rw [stop, visitedBlocks_of_canonical canonical, none, List.take_zero] at visited
    have count := congrArg List.length visited
    rw [show blocksAtMost 0 chain = chain from rfl, List.take_of_length_le bounded,
      List.length_nil] at count
    omega
  · intro cut
    have confirmed := blocksAtMost_confirmed canonical bounded some cut
    have short : (chain.take (chain.length - confirmations.toNat)).length ≤ walkGuard :=
      (List.length_take_le _ _).trans (by omega)
    have built : ∀ queries now wallet,
        (build env db (cacheAfter env db queries) now wallet
          (confirmedStopBlock env db confirmations)).1 =
          stateOver env db now wallet (confirmedStopBlock env db confirmations)
            (chain.take (chain.length - confirmations.toNat)) := by
      intro queries now wallet
      rw [build_of_canonical canonical, confirmed, List.take_of_length_le short]
    constructor
    · rw [visitedBlocks_of_canonical canonical, confirmed, List.take_of_length_le short]
    · intro queries now wallet
      constructor
      · exact built queries now wallet
      · intro few key
        have none : chain.length - confirmations.toNat = 0 := by omega
        rw [built, none, List.take_zero]
        exact stateOver_nil_balance now wallet _ key

/-- On one block in slot one, no confirmation leaves it out. -/
theorem unconfirmed_genesis_counted :
    CanonicalChain Sample.env (tickStore 0) (ticksFrom 1 1) ∧
      confirmedStopBlock Sample.env (tickStore 0) 1 = 0 ∧
      (build Sample.env (tickStore 0) ∅ 0 [] 0).1.connectedBlockCount = 1 ∧
      ¬ OmitsUnconfirmed Sample.env (tickStore 0) (ticksFrom 1 1) 1 := by
  have canonical : CanonicalChain Sample.env (tickStore 0) (ticksFrom 1 1) :=
    canonical_tickStore (by decide)
  have first : getFirstBlockId (tickStore 0) = 1 := (canonical.first (tickBlock 1) rfl).1
  constructor
  · exact canonical
  constructor
  · rw [confirmedStopBlock_of_canonical canonical (by decide) le_rfl, first]
    rfl
  constructor
  · have built := build_of_canonical canonical [] 0 [] 0
    rw [cacheAfter_nil] at built
    rw [built]
    rfl
  · rw [confirmed_state_omits_iff canonical (by decide) le_rfl, first]
    decide

theorem confirmed_state_of_ticks :
    OmitsUnconfirmed Sample.env (tickStore 2) (ticksFrom 1 3) 2 ↔
      2 < ((ticksFrom 1 3).length : Int) ∨ 1 < getFirstBlockId (tickStore 2) :=
  confirmed_state_omits_iff (@canonical_tickStore 2 (by decide)) (by decide) (by decide)

end Safire.LedgerState
