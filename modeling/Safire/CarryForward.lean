/-
The carry-forward record that a node queues for its own account, and what the
ledger makes of it.

The node fills in the balance of its own fold at a checkpoint, and the ledger
compares it with its fold once the record is in a block. A checkpoint that lies
above the tip covers blocks that the node did not know when it queued the record.
-/

import Safire.AccountBalances
import Safire.ConnectedTip
import Safire.Issuance
import Safire.SubmittedRecords

namespace Safire.CarryForward

open ChainValidator LedgerState Mempool Text

variable {env : Env} {db : LevelDb} {chain : List Block}

/-! ### Queueing a record -/

def carryForwardSnapshotMatches (env : Env) (db : LevelDb) (record : Record) : Bool :=
  let checkpoint := parseCarryForwardValueLong record.value "checkpoint"
  if checkpoint < 0 then false
  else
    let diff := accountBalanceAtBlock env db record.recipientPublicKey checkpoint - record.amount
    decide ((if diff < 0 then -diff else diff) < balanceTolerance)

theorem CanonicalChain.sameChain {after : LevelDb} (canonical : CanonicalChain env db chain)
    (same : SameChain db after) : CanonicalChain env after chain :=
  canonical.congr same.getFirstBlockId.symm same.getLatestBlockId.symm
    (fun number => (same.getBlock number).symm) (fun block => (same.getNextBlock block).symm)

end Safire.CarryForward

/-! ### A queued record that gets into the chain -/

namespace Safire.Sample

open ChainValidator LedgerState Mempool Text CarryForward

local instance creditSigned_lawfulBEq : LawfulBEq (Text × Text × Text) := inferInstance

end Safire.Sample
