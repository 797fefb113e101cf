/-
The record rules that more than one consensus function applies: which types
need a signature, public names and the fields of a carry-forward record.
-/

import Safire.Selector
import Safire.Library.KeyedList

namespace Safire

open Text

def recordRequiresSenderSignature (record : Record) : Bool :=
  match record.transactionType with
  | .joinNetwork | .issueCurrency | .transferCurrency | .carryForward | .vote | .heartBeat
  | .updateName => true
  | .periodSummary => false

/-! ### Public names -/

/-- `isalnum` in the "C" locale. -/
def isAlnum (byte : Char) : Bool :=
  ('0' ≤ byte && byte ≤ '9') || ('a' ≤ byte && byte ≤ 'z') || ('A' ≤ byte && byte ≤ 'Z')

def toLower (byte : Char) : Char :=
  if 'A' ≤ byte ∧ byte ≤ 'Z' then Char.ofNat (byte.toNat + 32) else byte

def normalizedNameByte (byte : Char) : Option Char :=
  if isAlnum byte then some (toLower byte)
  else if byte = '-' ∨ byte = '_' then some byte
  else none

/-- Both copies of `normalizedPublicName` share this loop: the lower-case name,
or nothing for a bad length or byte. -/
def normalizedName (name : Text) : Option Text :=
  if name.length < 3 ∨ 32 < name.length then none else name.mapM normalizedNameByte

/-! ### Carry-forward fields -/

def parseCarryForwardValueLong (value : Text) (key : String) : Int :=
  let sectionTag := key.toList ++ "=".toList
  match find value sectionTag 0 with
  | none => -1
  | some found =>
      let start := found + sectionTag.length
      let content :=
        match find value ";".toList start with
        | none => value.drop start
        | some stop => substr value start (stop - start)
      if content.length = 0 then -1 else atol content

def carryForwardKey (record : Record) : Text :=
  let period := parseCarryForwardValueLong record.value "period"
  if record.recipientPublicKey.length = 0 ∨ period < 0 then []
  else record.recipientPublicKey ++ ":".toList ++ ofLong period

def isBasicCarryForwardRecord (record : Record) (blockNumber : Int) : Bool :=
  if record.transactionType ≠ .carryForward then false
  else if record.senderPublicKey.length = 0 ∨ record.recipientPublicKey.length = 0 then false
  else
    let checkpoint := parseCarryForwardValueLong record.value "checkpoint"
    let period := parseCarryForwardValueLong record.value "period"
    if checkpoint < 0 ∨ period < 0 ∨ blockNumber ≤ checkpoint then false
    else decide (0 ≤ record.amount)

/-! ### Associative containers -/

/-- `std::map` and `std::set` keyed by strings, in byte order. -/
abbrev TextMap (β : Type) := Std.ExtTreeMap Text β

abbrev TextSet := Std.ExtTreeSet Text

/-- `balances[key] += amount`: a missing entry starts from zero. -/
def credit (balances : TextMap Rat) (key : Text) (amount : Rat) : TextMap Rat :=
  balances.insert key (balances.getD key 0 + amount)

def configuredRecoveryPublicKey (env : Env) (genesisCreatorKey : Text) : Text :=
  if 0 < env.config.recoveryPublicKey.length then env.config.recoveryPublicKey
  else genesisCreatorKey

/-- The header checks, made in the same order and with the same texts at the
start of both validators. -/
def checkEnvelope (env : Env) (block : Block) : Except String Unit :=
  if block.number ≤ 0 then .error "block number is invalid"
  else if block.hash.length = 0 then .error "block hash is missing"
  else if maxBlockRecords < block.records.length then .error "too many records"
  else if 0 < block.recordsMerkleRoot.length ∧
      getRecordsMerkleRoot env block.records ≠ block.recordsMerkleRoot then
    .error "records merkle root mismatch"
  else if getBlockHash env block ≠ block.hash then .error "block hash mismatch"
  else if block.creatorKey.length = 0 then .error "block creator is missing"
  else if block.signature.length = 0 ∨
      env.verifyMessageCompressed block.hash block.signature block.creatorKey ≠ 1 then
    .error "block signature is invalid"
  else .ok ()

/-- The hash checks at the start of both record loops. `inParent` says whether
the hash already stands in the chain below the block. -/
def checkRecordHash (env : Env) (blockRecordHashes : TextSet) (inParent : Bool)
    (record : Record) : Except String Unit :=
  if isRecordSizeValid env record = false then .error "record is oversized"
  else if record.hash.length = 0 ∨ getRecordHash env record ≠ record.hash then
    .error "record hash mismatch"
  else if record.hash ∈ blockRecordHashes then .error "duplicate record hash in block"
  else if inParent then .error "duplicate record hash already exists in chain"
  else .ok ()

def checkRecordSignature (env : Env) (record : Record) : Except String Unit :=
  if recordRequiresSenderSignature record = false then .ok ()
  else if record.senderPublicKey.length = 0 then .error "record sender key is missing"
  else if record.signature.length = 0 ∨
      env.verifyMessageCompressed record.hash record.signature record.senderPublicKey ≠ 1 then
    .error "record signature is invalid"
  else .ok ()

end Safire
