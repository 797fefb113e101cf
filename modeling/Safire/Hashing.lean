/-
Record hashes, the Merkle root of a record list and block hashes.

Every preimage is a plain concatenation of fields, handed to the digest as a
`char *`.
-/

import Safire.Json

namespace Safire

open Text

def hashText (env : Env) (content : Text) : Text :=
  env.sha256 (cString content)

def getRecordHash (env : Env) (record : Record) : Text :=
  hashText env
    (record.network ++ record.time ++ ofLong record.transactionType.code ++
      (if 0 < record.nonce then ofLong record.nonce else []) ++
      env.doubleText record.amount ++ env.doubleText record.fee ++
      record.senderPublicKey ++ record.recipientPublicKey ++ record.name ++ record.value)

/-- The hash a record carries, or the computed one where it carries none. -/
def recordHashOrComputed (env : Env) (record : Record) : Text :=
  if record.hash = [] then getRecordHash env record else record.hash

/-- One round of the Merkle loop: an odd last entry is paired with itself. -/
def merkleLevel (env : Env) : List Text → List Text
  | [] => []
  | [left] => [hashText env (left ++ left)]
  | left :: right :: rest => hashText env (left ++ right) :: merkleLevel env rest

/-- A level with two or more entries shrinks, so its size bounds the rounds. -/
def merkleRounds (env : Env) : Nat → List Text → List Text
  | 0, level => level
  | rounds + 1, level =>
      if 1 < level.length then merkleRounds env rounds (merkleLevel env level) else level

def getRecordsMerkleRoot (env : Env) (records : List Record) : Text :=
  if records = [] then hashText env []
  else
    let level := records.map (recordHashOrComputed env)
    (merkleRounds env level.length level).headD []

def getBlockHash (env : Env) (block : Block) : Text :=
  hashText env
    (block.network ++ ofLong block.number ++ block.time ++ block.previousBlockHash ++
      block.creatorKey ++ block.recordsMerkleRoot ++
      if block.recordsMerkleRoot.length = 0 then
        block.records.flatMap (recordHashOrComputed env)
      else [])

end Safire
