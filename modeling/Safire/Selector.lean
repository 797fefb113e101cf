/-
Creator selection: epochs, the selection boundary and the authorised creator of
a slot.
-/

import Safire.Hashing

namespace Safire

open Text

namespace Selector

def getEpochSizeBlocks : Int := 100

def getSelectionLagEpochs : Int := 2

def getRecoveryWindowBlocks : Int := 10

def getEpochForBlock (blockNumber genesisBlock : Int) : Int :=
  if genesisBlock ≤ 0 ∨ blockNumber ≤ genesisBlock then 0
  else (blockNumber - genesisBlock) / getEpochSizeBlocks

def getSelectionBoundaryBlock (blockNumber genesisBlock : Int) : Int :=
  if genesisBlock ≤ 0 then blockNumber
  else
    let currentEpoch := getEpochForBlock blockNumber genesisBlock
    if currentEpoch < getSelectionLagEpochs then genesisBlock
    else
      let selectionEpoch := currentEpoch - getSelectionLagEpochs
      genesisBlock + (selectionEpoch + 1) * getEpochSizeBlocks - 1

def hexValue (digit : Char) : Nat :=
  if '0' ≤ digit ∧ digit ≤ '9' then digit.toNat - '0'.toNat
  else if 'a' ≤ digit ∧ digit ≤ 'f' then 10 + (digit.toNat - 'a'.toNat)
  else if 'A' ≤ digit ∧ digit ≤ 'F' then 10 + (digit.toNat - 'A'.toNat)
  else 0

/-- The first sixteen digits of the seeded digest, as an unsigned 64-bit number. -/
def selectionValue (env : Env) (blockNumber : Int) (selectionSeedHash : Text) : Nat :=
  let digest := cString (hashText env (selectionSeedHash ++ ":".toList ++ ofLong blockNumber))
  (digest.take 16).foldl (fun value digit => (value * 16 + hexValue digit) % 2 ^ 64) 0

def getSelectedIndexForBlock (env : Env) (blockNumber : Int) (selectionSeedHash : Text)
    (userCount : Nat) : Option Nat :=
  if userCount = 0 then none
  else some (selectionValue env blockNumber selectionSeedHash % userCount)

def getSelectedUserForBlock (env : Env) (blockNumber : Int) (selectionSeedHash : Text)
    (activeUsers : List Text) : Text :=
  match getSelectedIndexForBlock env blockNumber selectionSeedHash activeUsers.length with
  | none => []
  | some index => activeUsers.getD index []

/-- The chosen key with the two mode flags `recoveryMode` and
`latestStateFallback` that the source returns through pointers. -/
structure Authorization where
  creator : Text
  recoveryMode : Bool
  latestStateFallback : Bool

def getAuthorizedCreatorForBlock (env : Env) (blockNumber : Int) (selectionSeedHash : Text)
    (checkpointActiveUsers : List Text) (latestSeedHash : Text) (latestActiveUsers : List Text)
    (recoveryPublicKey : Text) (consecutiveRecoveryBlocks : Int) : Authorization :=
  if 0 < checkpointActiveUsers.length ∧ 0 < selectionSeedHash.length then
    ⟨getSelectedUserForBlock env blockNumber selectionSeedHash checkpointActiveUsers, false, false⟩
  else if 0 < latestActiveUsers.length ∧ 0 < latestSeedHash.length then
    ⟨getSelectedUserForBlock env blockNumber latestSeedHash latestActiveUsers, false, true⟩
  else if 0 < recoveryPublicKey.length ∧ consecutiveRecoveryBlocks < getRecoveryWindowBlocks then
    ⟨recoveryPublicKey, true, false⟩
  else ⟨[], false, false⟩

end Selector

end Safire
