/-
The text form of records and blocks, and the tag scanner that reads it back.

The scanner looks for a quoted tag and takes what stands before the next quote.
It knows nothing of nesting, except that `parseSectionBlock` counts braces.
-/

import Safire.Structures

namespace Safire

open Text

/-- One quoted name and value followed by a comma. -/
def jsonField (name : String) (value : Text) : Text :=
  "\"".toList ++ name.toList ++ "\":\"".toList ++ value ++ "\",".toList

def recordJSON (env : Env) (record : Record) : Text :=
  "\x7b\"record\":\x7b ".toList ++
    jsonField "network" record.network ++
    jsonField "time" record.time ++
    jsonField "name" record.name ++
    jsonField "typ" (ofLong record.transactionType.code) ++
    (if 0 < record.nonce then jsonField "nonce" (ofLong record.nonce) else []) ++
    jsonField "amt" (env.doubleText record.amount) ++
    jsonField "fee" (env.doubleText record.fee) ++
    jsonField "sndkey" record.senderPublicKey ++
    jsonField "rcvkey" record.recipientPublicKey ++
    jsonField "value" record.value ++
    jsonField "hash" record.hash ++
    "\"sig\":\"".toList ++ record.signature ++ "\"".toList ++
    "\x7d\x7d\n".toList

def recordSizeError (env : Env) (record : Record) : String :=
  if maxRecordNetworkBytes < record.network.length then "network field is too long"
  else if maxRecordTimeBytes < record.time.length then "time field is too long"
  else if maxRecordNameBytes < record.name.length then "name field is too long"
  else if maxRecordValueBytes < record.value.length then "value field is too long"
  else if maxRecordKeyBytes < record.senderPublicKey.length then "sender public key is too long"
  else if maxRecordKeyBytes < record.recipientPublicKey.length then
    "recipient public key is too long"
  else if maxRecordHashBytes < record.hash.length then "hash field is too long"
  else if maxRecordSignatureBytes < record.signature.length then "signature field is too long"
  else if maxRecordJsonBytes < (recordJSON env record).length then "serialized record is too large"
  else ""

def isRecordSizeValid (env : Env) (record : Record) : Bool :=
  recordSizeError env record = ""

def blockJSON (env : Env) (block : Block) : Text :=
  "\x7b\"block\":\x7b".toList ++
    jsonField "creator_key" block.creatorKey ++
    jsonField "network" block.network ++
    jsonField "number" (ofLong block.number) ++
    jsonField "time" block.time ++
    jsonField "previous_block_id" (ofLong block.previousBlockId) ++
    jsonField "previous_block_hash" block.previousBlockHash ++
    (if 0 < block.recordsMerkleRoot.length then
      jsonField "records_merkle_root" block.recordsMerkleRoot else []) ++
    jsonField "hash" block.hash ++
    jsonField "signature" block.signature ++
    "\"records\":\x7b\n".toList ++
    block.records.flatMap (recordJSON env) ++
    "\x7d\x7d\x7d\n".toList

/-! ### Reading -/

def parseSectionString (content start stop : Text) : Text :=
  match find content start 0 with
  | none => []
  | some startIndex =>
      match find content stop (startIndex + start.length) with
      | none => []
      | some endIndex =>
          substr content (startIndex + start.length) (endIndex - (startIndex + start.length))

/-- The value behind a quoted name, up to the next quote. -/
def quotedSection (content : Text) (name : String) : Text :=
  parseSectionString content ("\"".toList ++ name.toList ++ "\":\"".toList) "\"".toList

def parseSectionLong (content : Text) (name : String) : Int :=
  atol (quotedSection content name)

def parseSectionInt (content : Text) (name : String) : Int :=
  atoi (quotedSection content name)

def parseSectionDouble (env : Env) (content : Text) (name : String) : Rat :=
  env.atof (quotedSection content name)

/-- Index of the brace that closes the first opened one. The loop of the source
counts past the end of the string, where no brace is read. -/
def closingIndex : Text → Int → Bool → Nat → Option Nat
  | [], _, _, _ => none
  | byte :: rest, depth, started, index =>
      let depth' := if byte = '\x7b' then depth + 1 else if byte = '\x7d' then depth - 1 else depth
      let started' := started || byte = '\x7b'
      if depth' = 0 ∧ started' = true then some index
      else closingIndex rest depth' started' (index + 1)

/-- The text between the braces after the tag, and the remaining content. The
remainder is cut at an index that is relative to the tag, not to the content. -/
def parseSectionBlock (content start : Text) : Text × Text :=
  match find content start 0 with
  | none => ([], content)
  | some startIndex =>
      match closingIndex (content.drop (startIndex + start.length)) 0 false start.length with
      | none => ([], content)
      | some index =>
          (substr content (startIndex + start.length + 1) (index - start.length - 1),
            content.drop (index - start.length))

def parseTransactionType (env : Env) : Int → TransactionType
  | 0 => .joinNetwork
  | 1 => .issueCurrency
  | 2 => .transferCurrency
  | 3 => .carryForward
  | 4 => .periodSummary
  | 5 => .vote
  | 6 => .heartBeat
  | 7 => .updateName
  | _ => env.unsetType

def parseRecordJson (env : Env) (content : Text) : Record :=
  let name := quotedSection content "name"
  { network := quotedSection content "network"
    time := quotedSection content "time"
    transactionType := parseTransactionType env (parseSectionInt content "typ")
    nonce := parseSectionLong content "nonce"
    amount := parseSectionDouble env content "amt"
    fee := parseSectionDouble env content "fee"
    senderPublicKey := quotedSection content "sndkey"
    recipientPublicKey := quotedSection content "rcvkey"
    hash := quotedSection content "hash"
    signature := quotedSection content "sig"
    name := if name.length = 0 then quotedSection content "name:" else name
    value := quotedSection content "value" }

/-- Each round of the loop shortens the content, so its length bounds the rounds. -/
def parseRecords (env : Env) : Nat → Text → List Record
  | 0, _ => []
  | rounds + 1, content =>
      let (recordSection, remaining) := parseSectionBlock content "\"record\":".toList
      if recordSection = [] then []
      else parseRecordJson env recordSection :: parseRecords env rounds remaining

def parseBlockSection (env : Env) (content : Text) : Block :=
  let recordsSection := (parseSectionBlock content "\"records\":".toList).1
  let records := parseRecords env (recordsSection.length + 1) recordsSection
  let network := quotedSection content "network"
  let time := quotedSection content "time"
  let previousBlockId := parseSectionLong content "previous_block_id"
  { network :=
      match records with
      | [] => network
      | first :: _ => if previousBlockId ≤ 0 ∧ network.length = 0 then first.network else network
    number := parseSectionLong content "number"
    time :=
      match records with
      | [] => time
      | first :: _ => if time.length = 0 then first.time else time
    previousBlockId := previousBlockId
    previousBlockHash := quotedSection content "previous_block_hash"
    recordsMerkleRoot := quotedSection content "records_merkle_root"
    creatorKey := quotedSection content "creator_key"
    hash := quotedSection content "hash"
    signature := quotedSection content "signature"
    records := records }

def parseBlockSections (env : Env) : Nat → Text → List Block
  | 0, _ => []
  | rounds + 1, content =>
      let opened := content.dropWhile (· ≠ '\x7b')
      match closingIndex opened 0 false 0 with
      | none => []
      | some endIndex =>
          let block := parseBlockSection env (opened.take (endIndex + 1))
          let later := parseBlockSections env rounds (opened.drop (endIndex + 1))
          if 0 < block.number ∧ 0 < block.hash.length then block :: later else later

def parseBlockJson (env : Env) (content : Text) : List Block :=
  parseBlockSections env (content.length + 1) content

end Safire
