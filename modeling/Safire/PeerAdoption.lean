/-
Adopting the tip that a peer reports.

The status message names a block by number and hash. Where that block is stored,
its branch is adopted whatever the current chain is; the tips are compared after
the index has been rewritten.
-/

import Safire.Lineage

namespace Safire

open Text ChainValidator

variable {env : Env} {db : LevelDb}

/-! ### The reported tip -/

/-- The fields of a peer status that the adoption reads. -/
structure PeerStatus where
  latestBlockId : Int
  latestBlockHash : Text

/-- The verdict of `adoptStoredPeerTip`, its flag and the database after the call. -/
structure TipAdoption where
  adopted : Bool
  changed : Bool
  db : LevelDb

/-- The checks before the adoption is called. -/
def storesPeerTip (env : Env) (db : LevelDb) (status : PeerStatus) : Bool :=
  if status.latestBlockId ≤ 0 ∨ status.latestBlockHash.length = 0 then false
  else
    let storedTip := getBlockByHash env db status.latestBlockHash
    decide (storedTip.number = status.latestBlockId) &&
      decide (storedTip.hash = status.latestBlockHash)

def adoptStoredPeerTip (env : Env) (now : Int) (db : LevelDb) (status : PeerStatus)
    (changed : Bool) : TipAdoption :=
  if storesPeerTip env db status = false then ⟨false, changed, db⟩
  else
    match adoptStoredChainEndingAtHash env now db status.latestBlockHash with
    | (none, after) => ⟨false, changed, after⟩
    | (some adoptedTipId, after) =>
        if getLatestBlockId db < adoptedTipId then ⟨true, true, after⟩
        else
          ⟨decide (adoptedTipId = getLatestBlockId db) &&
            decide (getLatestBlockHash env after = status.latestBlockHash), changed, after⟩

/-- More blocks first, then a higher tip, then a smaller hash. -/
def preferChainPath (candidate current : List Block) : Bool :=
  match current.getLast? with
  | none => true
  | some currentTip =>
      if candidate.length ≠ current.length then decide (current.length < candidate.length)
      else
        let candidateTip := candidate.getLast?.getD .missing
        if candidateTip.number ≠ currentTip.number then
          decide (currentTip.number < candidateTip.number)
        else decide (candidateTip.hash < currentTip.hash)

def NotWorse (chain current : List Block) : Prop :=
  chain = current ∨ preferChainPath chain current = true

/-- A chain that is not worse is not shorter. -/
theorem NotWorse.length_le {chain current : List Block} (better : NotWorse chain current) :
    current.length ≤ chain.length := by
  cases better with
  | inl same => rw [same]
  | inr preferred =>
      unfold preferChainPath at preferred
      cases tip : current.getLast? with
      | none =>
          rw [List.getLast?_eq_none_iff.mp tip]
          exact Nat.zero_le _
      | some currentTip =>
          rw [tip] at preferred
          dsimp only at preferred
          by_cases lengths : chain.length = current.length
          · exact lengths.ge
          · rw [if_pos lengths, decide_eq_true_eq] at preferred
            exact preferred.le

/-! ### The adopted chain -/

namespace Sample

end Sample

end Safire
