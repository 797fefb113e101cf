/-
When a wallet can be selected as a creator.

A heartbeat counts for a slot once the selection boundary of the slot covers its
block. The status of a node announces the first such slot from the epoch of the
heartbeat alone.
-/

import Safire.ConnectedChain
import Safire.LedgerState
import Safire.Selector
import Safire.Library.Epochs

namespace Safire

namespace Selector

variable {genesisBlock blockNumber slot : Int}

theorem getEpochForBlock_eq (positive : 0 < genesisBlock) (after : genesisBlock < blockNumber) :
    getEpochForBlock blockNumber genesisBlock =
      Epochs.epoch getEpochSizeBlocks genesisBlock blockNumber := by
  rw [getEpochForBlock, if_neg (not_or.mpr ⟨not_le.mpr positive, not_le.mpr after⟩), Epochs.epoch]

/-- Up to the genesis block there is no whole epoch, whichever way it is counted. -/
theorem getSelectionBoundaryBlock_eq (positive : 0 < genesisBlock) (slot : Int) :
    getSelectionBoundaryBlock slot genesisBlock =
      Epochs.boundary getEpochSizeBlocks getSelectionLagEpochs genesisBlock slot := by
  rw [getSelectionBoundaryBlock, if_neg (not_le.mpr positive)]
  by_cases after : genesisBlock < slot
  · rw [getEpochForBlock_eq positive after]
    rfl
  · have early : Epochs.epoch getEpochSizeBlocks genesisBlock slot < getSelectionLagEpochs := by
      rw [Epochs.epoch_lt_iff (by decide)]
      have lag : 0 ≤ getSelectionLagEpochs * getEpochSizeBlocks := by decide
      have size : 0 < getSelectionLagEpochs * getEpochSizeBlocks := by decide
      omega
    have first : getEpochForBlock slot genesisBlock = 0 := by
      rw [getEpochForBlock, if_pos (.inr (not_lt.mp after))]
    rw [first, Epochs.boundary, if_pos early, if_pos (by decide)]

end Selector

namespace RequestHandler

/-! ### The estimate of the status -/

def walletCreatorEligible (currentActiveMemberKeys currentLatestActiveMemberKeys : List Text)
    (currentLatestFallback : Bool) (creatorPublicKey : Text) : Bool :=
  currentActiveMemberKeys.any (fun key => key = creatorPublicKey) ||
    (currentLatestFallback && currentLatestActiveMemberKeys.any (fun key => key = creatorPublicKey))

/-- Whether the wallet can create the current slot already: as a member of the selection
state, or of the latest state where the selection falls back to it. -/
def currentlyEligible (env : Env) (currentSelectionState chainState : LedgerState.State)
    (latestBlockHash creatorPublicKey recoveryPublicKey : Text) (recoveryRun epoch : Int) : Bool :=
  let currentTimeBlock := epoch.tdiv 15
  let currentActiveMemberKeys :=
    LedgerState.activeMemberKeysAt currentSelectionState currentTimeBlock
  let currentLatestActiveMemberKeys := LedgerState.activeMemberKeysAt chainState currentTimeBlock
  let current := Selector.getAuthorizedCreatorForBlock env currentTimeBlock
    currentSelectionState.latestBlock.hash currentActiveMemberKeys latestBlockHash
    currentLatestActiveMemberKeys recoveryPublicKey recoveryRun
  walletCreatorEligible currentActiveMemberKeys currentLatestActiveMemberKeys
    current.latestStateFallback creatorPublicKey

/-- `creatorEligibilityBlock` and `creatorEligibilityEtaSeconds`. -/
def creatorEligibility (env : Env) (currentSelectionState chainState creatorState : LedgerState.State)
    (latestBlockHash creatorPublicKey recoveryPublicKey : Text) (recoveryRun firstBlockId epoch : Int) :
    Int × Int :=
  if currentlyEligible env currentSelectionState chainState latestBlockHash creatorPublicKey
        recoveryPublicKey recoveryRun epoch = false ∧
      creatorState.joined = true ∧ -1 < creatorState.lastHeartbeatBlock ∧ 0 < firstBlockId then
    let heartbeatEpoch := Selector.getEpochForBlock creatorState.lastHeartbeatBlock firstBlockId
    let eligibleEpoch := heartbeatEpoch + Selector.getSelectionLagEpochs
    let creatorEligibilityBlock := firstBlockId + eligibleEpoch * Selector.getEpochSizeBlocks
    let creatorEligibilityEtaSeconds := creatorEligibilityBlock * 15 - epoch
    (creatorEligibilityBlock,
      if creatorEligibilityEtaSeconds < 0 then 0 else creatorEligibilityEtaSeconds)
  else (-1, -1)

/-- What a block number and a slot say about each other on a chain from a genesis block. -/
structure ScheduleAgrees (genesisBlock : Int) : Prop where
  covers : ∀ blockNumber slot, genesisBlock < blockNumber → genesisBlock < slot →
    (blockNumber ≤ Selector.getSelectionBoundaryBlock slot genesisBlock ↔
      genesisBlock + (Selector.getEpochForBlock blockNumber genesisBlock +
        Selector.getSelectionLagEpochs) * Selector.getEpochSizeBlocks ≤ slot)
  monotone : Monotone fun slot => Selector.getSelectionBoundaryBlock slot genesisBlock
  behind : ∀ slot, 2 ≤ Selector.getEpochForBlock slot genesisBlock →
    Selector.getSelectionBoundaryBlock slot genesisBlock ≤ slot - Selector.getEpochSizeBlocks - 1
  announced : ∀ (env : Env) (currentSelectionState chainState creatorState : LedgerState.State)
    (latestBlockHash creatorPublicKey recoveryPublicKey : Text) (recoveryRun epoch : Int),
    currentlyEligible env currentSelectionState chainState latestBlockHash creatorPublicKey
        recoveryPublicKey recoveryRun epoch = false →
      creatorState.joined = true → genesisBlock < creatorState.lastHeartbeatBlock →
        ∃ creatorEligibilityBlock,
          creatorEligibility env currentSelectionState chainState creatorState latestBlockHash
            creatorPublicKey recoveryPublicKey recoveryRun genesisBlock epoch =
              (creatorEligibilityBlock, max 0 (creatorEligibilityBlock * 15 - epoch)) ∧
          IsLeast {slot | creatorState.lastHeartbeatBlock ≤
            Selector.getSelectionBoundaryBlock slot genesisBlock} creatorEligibilityBlock
  withheld : ∀ (env : Env) (currentSelectionState chainState creatorState : LedgerState.State)
    (latestBlockHash creatorPublicKey recoveryPublicKey : Text) (recoveryRun epoch : Int),
    (currentlyEligible env currentSelectionState chainState latestBlockHash creatorPublicKey
        recoveryPublicKey recoveryRun epoch = true ∨
      creatorState.joined = false ∨ creatorState.lastHeartbeatBlock ≤ -1) →
        creatorEligibility env currentSelectionState chainState creatorState latestBlockHash
          creatorPublicKey recoveryPublicKey recoveryRun genesisBlock epoch = (-1, -1)
  ahead : ∀ blockNumber slot, 2 ≤ Selector.getEpochForBlock blockNumber genesisBlock →
    blockNumber < slot → slot ≤ blockNumber + Selector.getEpochSizeBlocks →
      Selector.getSelectionBoundaryBlock slot genesisBlock < blockNumber

section Schedule

variable {genesisBlock blockNumber slot : Int} (positive : 0 < genesisBlock)
include positive

theorem boundary_covers_iff (after : genesisBlock < blockNumber) :
    blockNumber ≤ Selector.getSelectionBoundaryBlock slot genesisBlock ↔
      genesisBlock + (Selector.getEpochForBlock blockNumber genesisBlock +
        Selector.getSelectionLagEpochs) * Selector.getEpochSizeBlocks ≤ slot := by
  rw [Selector.getSelectionBoundaryBlock_eq positive, Selector.getEpochForBlock_eq positive after]
  exact Epochs.le_boundary_iff (by decide) after

omit positive in
theorem after_of_epoch (lagged : 2 ≤ Selector.getEpochForBlock slot genesisBlock) :
    genesisBlock < slot := by
  apply lt_of_not_ge
  intro early
  rw [Selector.getEpochForBlock, if_pos (.inr early)] at lagged
  exact absurd lagged (by decide)

theorem boundary_behind (lagged : 2 ≤ Selector.getEpochForBlock slot genesisBlock) :
    Selector.getSelectionBoundaryBlock slot genesisBlock ≤
      slot - Selector.getEpochSizeBlocks - 1 := by
  rw [Selector.getEpochForBlock_eq positive (after_of_epoch lagged)] at lagged
  have behind : Epochs.boundary Selector.getEpochSizeBlocks Selector.getSelectionLagEpochs
      genesisBlock slot +
        (Selector.getSelectionLagEpochs - 1) * Selector.getEpochSizeBlocks + 1 ≤ slot :=
    Epochs.boundary_behind (by decide) lagged
  rw [← Selector.getSelectionBoundaryBlock_eq positive] at behind
  have lag : (Selector.getSelectionLagEpochs - 1) * Selector.getEpochSizeBlocks =
      Selector.getEpochSizeBlocks := by decide
  rw [lag] at behind
  omega

theorem boundary_mono : Monotone fun slot => Selector.getSelectionBoundaryBlock slot genesisBlock := by
  intro slot later order
  dsimp only
  rw [Selector.getSelectionBoundaryBlock_eq positive, Selector.getSelectionBoundaryBlock_eq positive]
  exact Epochs.boundary_mono (by decide) order

/-- The slots of the next epoch size after a block look at earlier blocks only. -/
theorem boundary_lt_of_near (lagged : 2 ≤ Selector.getEpochForBlock blockNumber genesisBlock)
    (near : slot ≤ blockNumber + Selector.getEpochSizeBlocks) :
    Selector.getSelectionBoundaryBlock slot genesisBlock < blockNumber := by
  have own := boundary_behind positive lagged
  have last : Selector.getSelectionBoundaryBlock slot genesisBlock ≤
      Selector.getSelectionBoundaryBlock (blockNumber + Selector.getEpochSizeBlocks) genesisBlock :=
    boundary_mono positive near
  have after := after_of_epoch lagged
  have lagged' : 2 ≤ Selector.getEpochForBlock (blockNumber + Selector.getEpochSizeBlocks)
      genesisBlock := by
    have size : 0 < Selector.getEpochSizeBlocks := by decide
    rw [Selector.getEpochForBlock_eq positive after] at lagged
    rw [Selector.getEpochForBlock_eq positive (by omega)]
    rw [Epochs.le_epoch_iff size] at lagged ⊢
    omega
  have behind := boundary_behind positive lagged'
  omega

section Estimate

variable {env : Env} {currentSelectionState chainState creatorState : LedgerState.State}
variable {latestBlockHash creatorPublicKey recoveryPublicKey : Text} {recoveryRun epoch : Int}

/-- Under the four conditions of the status, the block follows the epoch of the heartbeat. -/
theorem creatorEligibility_waiting
    (waiting : currentlyEligible env currentSelectionState chainState latestBlockHash
      creatorPublicKey recoveryPublicKey recoveryRun epoch = false)
    (joined : creatorState.joined = true) (beaten : -1 < creatorState.lastHeartbeatBlock) :
    creatorEligibility env currentSelectionState chainState creatorState latestBlockHash
      creatorPublicKey recoveryPublicKey recoveryRun genesisBlock epoch =
        (genesisBlock + (Selector.getEpochForBlock creatorState.lastHeartbeatBlock genesisBlock +
            Selector.getSelectionLagEpochs) * Selector.getEpochSizeBlocks,
          max 0 ((genesisBlock +
            (Selector.getEpochForBlock creatorState.lastHeartbeatBlock genesisBlock +
              Selector.getSelectionLagEpochs) * Selector.getEpochSizeBlocks) * 15 - epoch)) := by
  rw [creatorEligibility, if_pos ⟨waiting, joined, beaten, positive⟩]
  dsimp only
  congr 1
  split
  · rename_i passed
    exact (max_eq_left passed.le).symm
  · rename_i ahead
    exact (max_eq_right (not_lt.mp ahead)).symm

omit positive in
theorem creatorEligibility_withheld
    (withheld : currentlyEligible env currentSelectionState chainState latestBlockHash
        creatorPublicKey recoveryPublicKey recoveryRun epoch = true ∨
      creatorState.joined = false ∨ creatorState.lastHeartbeatBlock ≤ -1) :
    creatorEligibility env currentSelectionState chainState creatorState latestBlockHash
      creatorPublicKey recoveryPublicKey recoveryRun genesisBlock epoch = (-1, -1) := by
  rw [creatorEligibility, if_neg]
  intro shown
  cases withheld with
  | inl eligible => exact absurd (shown.1.symm.trans eligible) Bool.false_ne_true
  | inr unknown =>
      cases unknown with
      | inl absent => exact absurd (absent.symm.trans shown.2.1) Bool.false_ne_true
      | inr silent => exact absurd shown.2.2.1 (not_lt.mpr silent)

/-- The slot of the estimate is the first that looks at the heartbeat. -/
theorem estimate_isLeast (after : genesisBlock < blockNumber) :
    IsLeast {slot | blockNumber ≤ Selector.getSelectionBoundaryBlock slot genesisBlock}
      (genesisBlock + (Selector.getEpochForBlock blockNumber genesisBlock +
        Selector.getSelectionLagEpochs) * Selector.getEpochSizeBlocks) := by
  constructor
  · exact (boundary_covers_iff positive after).mpr le_rfl
  · intro slot covered
    exact (boundary_covers_iff positive after).mp covered

end Estimate

/-- The epoch arithmetic of the selection and the estimate of the status agree. -/
theorem schedule_agrees : ScheduleAgrees genesisBlock := by
  constructor
  case covers =>
    intro blockNumber slot after _
    exact boundary_covers_iff positive after
  case monotone => exact boundary_mono positive
  case behind =>
    intro slot lagged
    exact boundary_behind positive lagged
  case announced =>
    intro env currentSelectionState chainState creatorState latestBlockHash creatorPublicKey
      recoveryPublicKey recoveryRun epoch waiting joined after
    have beaten : -1 < creatorState.lastHeartbeatBlock := by omega
    exact ⟨_, creatorEligibility_waiting positive waiting joined beaten,
      estimate_isLeast positive after⟩
  case withheld =>
    intro env currentSelectionState chainState creatorState latestBlockHash creatorPublicKey
      recoveryPublicKey recoveryRun epoch withheld
    exact creatorEligibility_withheld withheld
  case ahead =>
    intro blockNumber slot lagged _ near
    exact boundary_lt_of_near positive lagged near

end Schedule

end RequestHandler

namespace Sample

open RequestHandler

/-- The genesis creator, and a wallet whose first heartbeat is in block 150. -/
def selectable (publicKey : Text) (heartbeat : Int) : LedgerState.MemberState :=
  { publicKey := publicKey, name := [], joinBlock := heartbeat, lastHeartbeatBlock := heartbeat,
    active := true }

def hundredState : LedgerState.State :=
  { LedgerState.State.start 100 100 with
    members := [selectable ['a'] 100]
    chainHasHeartbeatRecords := true
    latestBlock := { Block.missing with hash := ['g'] } }

def waitingState : LedgerState.State :=
  { LedgerState.State.start 100 150 with
    members := [selectable ['a'] 100, selectable ['b'] 150]
    chainHasHeartbeatRecords := true
    joined := true
    lastHeartbeatBlock := 150 }

theorem waiting_estimate :
    currentlyEligible env hundredState waitingState ['h'] ['b'] [] 0 2400 = false ∧
      creatorEligibility env hundredState waitingState waitingState ['h'] ['b'] [] 0 100 2400 =
        (300, 2100) := by
  decide +kernel

/-- In slot 160 the wallet waits for slot 300, the first one whose boundary is past 150. -/
theorem schedule_agrees_of_hundred :
    creatorEligibility env hundredState waitingState waitingState ['h'] ['b'] [] 0 100 2400 =
        (300, 2100) ∧
      IsLeast {slot | 150 ≤ Selector.getSelectionBoundaryBlock slot 100} 300 ∧
      Selector.getSelectionBoundaryBlock 300 100 = 199 ∧
      Selector.getSelectionBoundaryBlock 350 100 ≤ 350 - Selector.getEpochSizeBlocks - 1 ∧
      Selector.getSelectionBoundaryBlock 450 100 < 350 := by
  have agrees : ScheduleAgrees 100 := schedule_agrees (by decide)
  obtain ⟨shown, estimate, least⟩ := agrees.announced env hundredState waitingState waitingState
    ['h'] ['b'] [] 0 2400 waiting_estimate.1 rfl (by decide)
  have same : shown = 300 := (congrArg Prod.fst (estimate.symm.trans waiting_estimate.2))
  rw [same] at least
  exact ⟨waiting_estimate.2, least, by decide, agrees.behind 350 (by decide),
    agrees.ahead 350 450 (by decide) (by decide) (by decide)⟩

end Sample

end Safire
