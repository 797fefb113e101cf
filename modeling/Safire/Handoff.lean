/-
The handoff that the creator of a block sends after it.

The message names the block, its parent and creator, and the creator of the next
slot. A receiver checks the hash over these fields and the signature, and looks
the block up, but what the lookup shows decides nothing: a message that differs
from the stored block is kept all the same.
-/

import Safire.MemberKeys
import Safire.Selector

namespace Safire

open Text Search

/-! ### Messages -/

structure HandoffFields where
  blockNumber : Int
  blockHash : Text
  parentHash : Text
  creator : Text
  nextSlot : Int
  nextCreator : Text
  activeMemberSetHash : Text

structure HandoffMessage extends HandoffFields where
  handoffHash : Text
  signature : Text

def handoffSeed (fields : HandoffFields) : Text :=
  ofLong fields.blockNumber ++ "|".toList ++ fields.blockHash ++ "|".toList ++
    fields.parentHash ++ "|".toList ++ fields.creator ++ "|".toList ++ ofLong fields.nextSlot ++
    "|".toList ++ fields.nextCreator ++ "|".toList ++ fields.activeMemberSetHash

/-- The digest of the fields. Both sides have a copy of this function. -/
def handoffSeedHash (env : Env) (fields : HandoffFields) : Text :=
  hashText env (handoffSeed fields)

namespace LocalPeerClient

def handoffMemberSetHash (env : Env) (activeMemberKeys : List Text) : Text :=
  hashText env (List.intercalate ",".toList activeMemberKeys)

def handoffHashSeed (env : Env) (fields : HandoffFields) : Text :=
  handoffSeedHash env fields

/-- The query that `handoffJson` makes, at the time of the call. -/
def handoffCall (db : LevelDb) (currentTimeBlock : Int) (block : Block) : LedgerState.Call :=
  ⟨db, currentTimeBlock, [],
    Selector.getSelectionBoundaryBlock (block.number + 1) (getFirstBlockId db)⟩

def handoffFields (env : Env) (ledgerState : LedgerState.State) (block : Block) : HandoffFields :=
  let activeMemberKeys := LedgerState.activeMemberKeysAt ledgerState ledgerState.latestBlockId
  { blockNumber := block.number
    blockHash := block.hash
    parentHash := block.previousBlockHash
    creator := block.creatorKey
    nextSlot := block.number + 1
    nextCreator :=
      Selector.getSelectedUserForBlock env (block.number + 1) ledgerState.latestBlock.hash
        activeMemberKeys
    activeMemberSetHash := handoffMemberSetHash env activeMemberKeys }

def handoffText (message : HandoffMessage) : Text :=
  "\x7b\"type\":\"BLOCK_HANDOFF\",".toList ++
    jsonField "block_number" (ofLong message.blockNumber) ++
    jsonField "block_hash" message.blockHash ++
    jsonField "parent_hash" message.parentHash ++
    jsonField "creator" message.creator ++
    jsonField "next_slot" (ofLong message.nextSlot) ++
    jsonField "next_creator" message.nextCreator ++
    jsonField "active_member_set_hash" message.activeMemberSetHash ++
    jsonField "handoff_hash" message.handoffHash ++
    "\"signature\":\"".toList ++ message.signature ++ "\"\x7d".toList

/-- `signMessage` gives the signature that `SignMessage` returns. -/
def handoffJson (env : Env) (signMessage : Text → Text → Text) (ledgerState : LedgerState.State)
    (block : Block) (creatorPrivateKey : Text) : Text :=
  if block.number ≤ 0 ∨ block.hash.length = 0 ∨ creatorPrivateKey.length = 0 then []
  else
    let fields := handoffFields env ledgerState block
    let handoffHash := handoffHashSeed env fields
    handoffText
      { toHandoffFields := fields
        handoffHash := handoffHash
        signature := signMessage creatorPrivateKey handoffHash }

end LocalPeerClient

namespace RequestHandler

def jsonField (json : Text) (key : String) : Text :=
  quotedSection json key

def jsonFieldLong (json : Text) (key : String) : Int :=
  parseSectionLong json key

def handoffHashSeed (env : Env) (fields : HandoffFields) : Text :=
  handoffSeedHash env fields

def jsonEscape (value : Text) : Text :=
  value.flatMap fun byte =>
    if byte = '"' ∨ byte = '\\' then ['\\', byte]
    else if byte = '\n' then ['\\', 'n']
    else if byte = '\r' then ['\\', 'r']
    else [byte]

/-- The fields that `submit_handoff_json` reads. -/
def readHandoff (handoff : Text) : HandoffMessage where
  blockNumber := jsonFieldLong handoff "block_number"
  blockHash := jsonField handoff "block_hash"
  parentHash := jsonField handoff "parent_hash"
  creator := jsonField handoff "creator"
  nextSlot := jsonFieldLong handoff "next_slot"
  nextCreator := jsonField handoff "next_creator"
  activeMemberSetHash := jsonField handoff "active_member_set_hash"
  handoffHash := jsonField handoff "handoff_hash"
  signature := jsonField handoff "signature"

/-- `block_matches`, for a block that is known. -/
def blockMatches (block : Block) (message : HandoffMessage) : Bool :=
  decide (block.number = message.blockNumber) &&
    decide (block.previousBlockHash = message.parentHash) &&
    decide (block.creatorKey = message.creator)

/-- The reply, the flag `accepted`, and the text of `handoff.dat` after the call. -/
structure HandoffReply where
  reply : Text
  accepted : Bool
  handoffDat : Text

def acceptedReply (blockKnown matching : Bool) (message : HandoffMessage) : Text :=
  "\x7b\"status\":\"accepted\",\"verification\":\"hash_signature_valid\",".toList ++
    Safire.jsonField "block_known" (if blockKnown then "yes" else "no").toList ++
    Safire.jsonField "block_matches"
      (if matching then "yes" else if blockKnown then "no" else "unknown").toList ++
    Safire.jsonField "block_number" (ofLong message.blockNumber) ++
    Safire.jsonField "next_slot" (ofLong message.nextSlot) ++
    "\"next_creator\":\"".toList ++ jsonEscape message.nextCreator ++ "\"\x7d".toList

def incomplete (message : HandoffMessage) : Bool :=
  decide (message.blockNumber ≤ 0) || decide (message.blockHash.length = 0) ||
    decide (message.creator.length = 0) || decide (message.nextSlot ≤ 0) ||
    decide (message.handoffHash.length = 0) || decide (message.signature.length = 0)

/-- `writable` says that `handoff.dat` can be opened, which empties it. -/
def submitHandoffJson (env : Env) (db : LevelDb) (writable : Bool) (handoffDat handoff : Text) :
    HandoffReply :=
  let refused (reply : String) : HandoffReply := ⟨reply.toList, false, handoffDat⟩
  let message := readHandoff handoff
  if handoff.length = 0 then
    refused "\x7b\"status\":\"error\",\"message\":\"Missing handoff message.\"\x7d"
  else if incomplete message then
    refused "\x7b\"status\":\"error\",\"message\":\"Incomplete handoff message.\"\x7d"
  else if handoffHashSeed env message.toHandoffFields ≠ message.handoffHash then
    refused "\x7b\"status\":\"invalid\",\"message\":\"Handoff hash does not match message fields.\"\x7d"
  else if env.verifyMessageCompressed message.handoffHash message.signature message.creator ≠ 1 then
    refused "\x7b\"status\":\"invalid\",\"message\":\"Handoff signature is invalid.\"\x7d"
  else
    let block := getBlockByHash env db message.blockHash
    let blockKnown := decide (0 < block.number)
    let matching := blockKnown && blockMatches block message
    if writable = false then
      refused "\x7b\"status\":\"error\",\"message\":\"Unable to store handoff message.\"\x7d"
    else ⟨acceptedReply blockKnown matching message, true, handoff⟩

end RequestHandler

/-! ### What an accepted message has passed -/

namespace RequestHandler

variable {env : Env} {db : LevelDb} {writable : Bool} {handoffDat handoff : Text}

/-- The hash and the signature of a complete message are right. -/
structure Authentic (env : Env) (message : HandoffMessage) : Prop where
  complete : incomplete message = false
  hash : handoffHashSeed env message.toHandoffFields = message.handoffHash
  signature :
    env.verifyMessageCompressed message.handoffHash message.signature message.creator = 1

/-- The block of the message is stored with another number, parent or creator. -/
def Contradicted (env : Env) (db : LevelDb) (message : HandoffMessage) : Prop :=
  0 < (getBlockByHash env db message.blockHash).number ∧
    blockMatches (getBlockByHash env db message.blockHash) message = false

/-- Only checked messages are accepted, and no other message is kept. -/
structure ChecksHandoff (env : Env) (db : LevelDb) (writable : Bool) (handoffDat handoff : Text) :
    Prop where
  accepted : (submitHandoffJson env db writable handoffDat handoff).accepted = true →
    Authentic env (readHandoff handoff) ∧ ¬ Contradicted env db (readHandoff handoff)
  kept : (submitHandoffJson env db writable handoffDat handoff).accepted = false →
    (submitHandoffJson env db writable handoffDat handoff).handoffDat = handoffDat

theorem accepted_iff :
    (submitHandoffJson env db writable handoffDat handoff).accepted = true ↔
      handoff ≠ [] ∧ Authentic env (readHandoff handoff) ∧ writable = true := by
  rw [submitHandoffJson]
  dsimp only
  split
  · rename_i empty
    simp [List.length_eq_zero_iff.mp empty]
  · rename_i present
    split
    · rename_i missing
      constructor
      · intro refused
        cases refused
      · intro passed
        rw [passed.2.1.complete] at missing
        cases missing
    · rename_i complete
      split
      · rename_i differs
        constructor
        · intro refused
          cases refused
        · intro passed
          exact absurd passed.2.1.hash differs
      · rename_i hash
        split
        · rename_i invalid
          constructor
          · intro refused
            cases refused
          · intro passed
            exact absurd passed.2.1.signature invalid
        · rename_i signature
          split
          · rename_i closed
            constructor
            · intro refused
              cases refused
            · intro passed
              rw [passed.2.2] at closed
              cases closed
          · rename_i opened
            constructor
            · intro _
              exact ⟨fun empty => present (by rw [empty, List.length_nil]),
                ⟨Bool.eq_false_of_not_eq_true complete, not_not.mp hash, not_not.mp signature⟩,
                Bool.eq_true_of_not_eq_false opened⟩
            · intro _
              rfl

theorem handoffDat_of_refused
    (refused : (submitHandoffJson env db writable handoffDat handoff).accepted = false) :
    (submitHandoffJson env db writable handoffDat handoff).handoffDat = handoffDat := by
  rw [submitHandoffJson] at refused ⊢
  dsimp only at refused ⊢
  split_ifs at refused ⊢
  all_goals rfl

theorem checksHandoff_iff :
    ChecksHandoff env db writable handoffDat handoff ↔
      ¬ (handoff ≠ [] ∧ Authentic env (readHandoff handoff) ∧ writable = true ∧
        Contradicted env db (readHandoff handoff)) := by
  constructor
  · intro checks wrong
    obtain ⟨present, authentic, opened, contradicted⟩ := wrong
    exact (checks.accepted (accepted_iff.mpr ⟨present, authentic, opened⟩)).2 contradicted
  · intro agrees
    constructor
    · intro accepted
      obtain ⟨present, authentic, opened⟩ := accepted_iff.mp accepted
      exact ⟨authentic, fun contradicted => agrees ⟨present, authentic, opened, contradicted⟩⟩
    · exact handoffDat_of_refused

end RequestHandler

/-! ### Messages read back -/

/-- Numbers that are longs, and texts without quotes. -/
structure ReadableMessage (message : HandoffMessage) : Prop where
  blockNumber : IsLong message.blockNumber
  nextSlot : IsLong message.nextSlot
  blockHash : quoteFree message.blockHash = true
  parentHash : quoteFree message.parentHash = true
  creator : quoteFree message.creator = true
  nextCreator : quoteFree message.nextCreator = true
  activeMemberSetHash : quoteFree message.activeMemberSetHash = true
  handoffHash : quoteFree message.handoffHash = true
  signature : quoteFree message.signature = true

namespace LocalPeerClient

/-- The fields with a comma behind them. -/
def messageFields (message : HandoffMessage) : List (String × Text) :=
  [("type", "BLOCK_HANDOFF".toList), ("block_number", ofLong message.blockNumber),
    ("block_hash", message.blockHash), ("parent_hash", message.parentHash),
    ("creator", message.creator), ("next_slot", ofLong message.nextSlot),
    ("next_creator", message.nextCreator),
    ("active_member_set_hash", message.activeMemberSetHash),
    ("handoff_hash", message.handoffHash)]

def messageNames : List String :=
  ["type", "block_number", "block_hash", "parent_hash", "creator", "next_slot", "next_creator",
    "active_member_set_hash", "handoff_hash"]

theorem names_messageFields (message : HandoffMessage) :
    (messageFields message).map Prod.fst = messageNames := rfl

/-- The fixed texts of a message. -/
theorem message_texts :
    (∀ name ∈ messageNames, isTagName name.toList = true) ∧
      "\x7b\"type\":\"BLOCK_HANDOFF\",".toList =
        '\x7b' :: Safire.jsonField "type" "BLOCK_HANDOFF".toList ∧
      "\"signature\":\"".toList = tagText "signature".toList ['"'] ∧
      quoteFree "BLOCK_HANDOFF".toList = true := by
  decide +kernel

theorem isTagName_messageField {name : String} (listed : name ∈ messageNames) :
    isTagName name.toList = true :=
  message_texts.1 name listed

theorem handoffText_eq (message : HandoffMessage) :
    handoffText message = ['\x7b'] ++ (fieldsText (messageFields message) ++
      (tagText "signature".toList ['"'] ++ (message.signature ++ '"' :: ['\x7d']))) := by
  obtain ⟨-, opening, signed, -⟩ := message_texts
  have closing : "\"\x7d".toList = ['"', '\x7d'] := rfl
  unfold handoffText messageFields fieldsText
  simp only [opening, signed, closing, List.flatMap_cons, List.flatMap_nil, List.append_nil,
    List.append_assoc, List.cons_append, List.nil_append]

variable {message : HandoffMessage} (readable : ReadableMessage message)
include readable

theorem readable_messageFields : FieldsReadable (messageFields message) := by
  have printed (value : Int) : quoteFree (ofLong value) = true :=
    (isPlain_iff.mp (isPlain_ofLong value)).1
  intro field member
  constructor
  · apply isTagName_messageField
    rw [← names_messageFields message]
    exact List.mem_map_of_mem member
  · simp only [messageFields, List.mem_cons, List.not_mem_nil, or_false] at member
    obtain rfl | rfl | rfl | rfl | rfl | rfl | rfl | rfl | rfl := member
    · exact message_texts.2.2.2
    · exact printed _
    · exact readable.blockHash
    · exact readable.parentHash
    · exact readable.creator
    · exact printed _
    · exact readable.nextCreator
    · exact readable.activeMemberSetHash
    · exact readable.handoffHash

theorem field_read {name : String} (value : Text)
    (found : (messageFields message).lookup name = some value) :
    quotedSection (handoffText message) name = value := by
  obtain ⟨before, after, split, -⟩ := List.lookup_eq_some_iff.mp found
  have fields := readable_messageFields readable
  have member : (name, value) ∈ messageFields message := by
    rw [split]
    exact List.mem_append_right _ List.mem_cons_self
  rw [handoffText_eq]
  exact quotedSection_lookup found (fields _ member).1 fields
    fun _ => clear_of_notMem (by decide : '"' ∉ ['\x7b'])

theorem signature_read : quotedSection (handoffText message) "signature" = message.signature := by
  have others : ∀ field ∈ messageFields message, "signature".toList ≠ field.1.toList := by
    have unlisted : "signature" ∉ messageNames := by decide
    intro field member same
    rw [String.toList_inj.mp same, ← names_messageFields message] at unlisted
    exact unlisted (List.mem_map_of_mem member)
  have clear : Clear (tagText "signature".toList ['"']) (['\x7b'] ++ fieldsText (messageFields message))
      (tagText "signature".toList ['"'] ++ (message.signature ++ '"' :: ['\x7d'])) := by
    apply Clear.append
    · exact clear_of_notMem (by decide : '"' ∉ ['\x7b'])
    · exact clear_fieldsText rfl (readable_messageFields readable) others
  rw [handoffText_eq, ← List.append_assoc]
  exact quotedSection_of_clear clear readable.signature

/-- The receiver reads the message that was written. -/
theorem readHandoff_handoffText : RequestHandler.readHandoff (handoffText message) = message := by
  have number : RequestHandler.jsonFieldLong (handoffText message) "block_number" =
      message.blockNumber := by
    rw [RequestHandler.jsonFieldLong, parseSectionLong,
      field_read readable (ofLong message.blockNumber) (by rfl),
      atol_ofLong readable.blockNumber]
  have slot : RequestHandler.jsonFieldLong (handoffText message) "next_slot" =
      message.nextSlot := by
    rw [RequestHandler.jsonFieldLong, parseSectionLong,
      field_read readable (ofLong message.nextSlot) (by rfl),
      atol_ofLong readable.nextSlot]
  unfold RequestHandler.readHandoff RequestHandler.jsonField
  rw [number, slot, field_read readable message.blockHash (by rfl),
    field_read readable message.parentHash (by rfl),
    field_read readable message.creator (by rfl),
    field_read readable message.nextCreator (by rfl),
    field_read readable message.activeMemberSetHash (by rfl),
    field_read readable message.handoffHash (by rfl), signature_read readable]

end LocalPeerClient

/-! ### A creator's own message -/

/-- What the creator's code relies on for its key pair: signatures are texts of 128
hexadecimal digits that verify under the public key. -/
structure SigningKeys (env : Env) (signMessage : Text → Text → Text) (privateKey publicKey : Text) :
    Prop where
  present : 0 < privateKey.length
  width : publicKey.length = 66
  signature : ∀ message, (signMessage privateKey message).length = 128 ∧
    quoteFree (signMessage privateKey message) = true
  verifies : ∀ message,
    env.verifyMessageCompressed message (signMessage privateKey message) publicKey = 1

/-- Digests are texts of 64 hexadecimal digits. -/
def HexDigests (env : Env) : Prop :=
  ∀ content, (env.sha256 content).length = 64 ∧ quoteFree (env.sha256 content) = true

namespace LocalPeerClient

variable {env : Env} {db : LevelDb} {block : Block} {ledgerState : LedgerState.State}
  {signMessage : Text → Text → Text} {privateKey : Text}

theorem quoteFree_getSelectedUserForBlock {number : Int} {seed : Text} {activeUsers : List Text}
    (free : ∀ key ∈ activeUsers, quoteFree key = true) :
    quoteFree (Selector.getSelectedUserForBlock env number seed activeUsers) = true := by
  rw [Selector.getSelectedUserForBlock]
  cases Selector.getSelectedIndexForBlock env number seed activeUsers.length with
  | none => rfl
  | some index =>
      dsimp only
      by_cases inside : index < activeUsers.length
      · rw [List.getD_eq_getElem _ _ inside]
        exact free _ (List.getElem_mem inside)
      · rw [List.getD_eq_default _ _ (Nat.not_lt.mp inside)]
        rfl

/-- The message that the creator writes. -/
def ownMessage (env : Env) (signMessage : Text → Text → Text) (ledgerState : LedgerState.State)
    (block : Block) (privateKey : Text) : HandoffMessage :=
  { toHandoffFields := handoffFields env ledgerState block
    handoffHash := handoffHashSeed env (handoffFields env ledgerState block)
    signature := signMessage privateKey
      (handoffHashSeed env (handoffFields env ledgerState block)) }

theorem readable_ownMessage (digests : HexDigests env)
    (keys : SigningKeys env signMessage privateKey block.creatorKey) (stored : KeysFree block)
    (members : ∀ member ∈ ledgerState.members, quoteFree member.publicKey = true)
    (positive : 0 < block.number) (next : block.number < longMax) :
    ReadableMessage (ownMessage env signMessage ledgerState block privateKey) := by
  have lower : longMin ≤ 0 := by decide
  constructor
  · exact ⟨lower.trans positive.le, next.le⟩
  · constructor
    · change longMin ≤ block.number + 1
      omega
    · exact next
  · exact stored.hash
  · exact stored.previousBlockHash
  · exact stored.creatorKey
  · exact quoteFree_getSelectedUserForBlock (LedgerState.quoteFree_activeMemberKeysAt _ members)
  · exact (digests _).2
  · exact (digests _).2
  · exact (keys.signature _).2

theorem authentic_ownMessage (digests : HexDigests env)
    (keys : SigningKeys env signMessage privateKey block.creatorKey) (hashed : 0 < block.hash.length)
    (positive : 0 < block.number) :
    RequestHandler.Authentic env (ownMessage env signMessage ledgerState block privateKey) := by
  have digest : (handoffHashSeed env (handoffFields env ledgerState block)).length = 64 :=
    (digests _).1
  have signed := (keys.signature (handoffHashSeed env (handoffFields env ledgerState block))).1
  have width := keys.width
  constructor
  · have number : ¬ block.number ≤ 0 := by omega
    have slot : ¬ block.number + 1 ≤ 0 := by omega
    have hash : ¬ block.hash.length = 0 := by omega
    have creator : ¬ block.creatorKey.length = 0 := by omega
    have handoffHash : ¬ (handoffHashSeed env (handoffFields env ledgerState block)).length = 0 := by
      omega
    have signature : ¬ (signMessage privateKey
        (handoffHashSeed env (handoffFields env ledgerState block))).length = 0 := by
      omega
    unfold RequestHandler.incomplete
    simp only [Bool.or_eq_false_iff]
    exact ⟨⟨⟨⟨⟨decide_eq_false number, decide_eq_false hash⟩, decide_eq_false creator⟩,
      decide_eq_false slot⟩, decide_eq_false handoffHash⟩, decide_eq_false signature⟩
  · rfl
  · exact keys.verifies _

end LocalPeerClient

namespace RequestHandler

open LocalPeerClient

/-- A block that the lookup finds has a hash, and its texts hold no quote. -/
theorem stored_facts {env : Env} {db : LevelDb} {block : Block}
    (stored : getBlockByHash env db block.hash = block) (positive : 0 < block.number) :
    0 < block.hash.length ∧ KeysFree block := by
  constructor
  · by_contra short
    have empty : block.hash.length = 0 := by omega
    rw [getBlockByHash, if_pos empty] at stored
    rw [← stored] at positive
    exact absurd positive (by decide)
  · rw [← stored]
    exact keysFree_getBlockByHash _

/-- The receiver does what the protocol says exactly when the message does not
contradict a stored block, and the message of a block's creator is accepted. -/
theorem handoff_checked_iff (env : Env) :
    (∀ db writable handoffDat handoff,
      ChecksHandoff env db writable handoffDat handoff ↔
        ¬ (handoff ≠ [] ∧ Authentic env (readHandoff handoff) ∧ writable = true ∧
          Contradicted env db (readHandoff handoff))) ∧
    ∀ signMessage privateKey block senderDb earlier currentTimeBlock db handoffDat,
      HexDigests env → SigningKeys env signMessage privateKey block.creatorKey →
      getBlockByHash env senderDb block.hash = block → 0 < block.number →
      block.number < longMax →
      (submitHandoffJson env db true handoffDat
        (handoffJson env signMessage
          ((handoffCall senderDb currentTimeBlock block).build env
            (LedgerState.buildAll env ∅ earlier)).1 block privateKey)).accepted = true := by
  constructor
  · intro db writable handoffDat handoff
    exact checksHandoff_iff
  · intro signMessage privateKey block senderDb earlier currentTimeBlock db handoffDat digests keys
      stored positive next
    obtain ⟨hashed, free⟩ := stored_facts stored positive
    have members := LedgerState.quoteFree_build env earlier
      (handoffCall senderDb currentTimeBlock block)
    generalize ((handoffCall senderDb currentTimeBlock block).build env
      (LedgerState.buildAll env ∅ earlier)).1 = ledgerState at members ⊢
    have written : handoffJson env signMessage ledgerState block privateKey =
        handoffText (ownMessage env signMessage ledgerState block privateKey) := by
      have short : ¬ (block.number ≤ 0 ∨ block.hash.length = 0 ∨ privateKey.length = 0) := by
        have present := keys.present
        omega
      rw [handoffJson, if_neg short]
      rfl
    rw [written, accepted_iff,
      readHandoff_handoffText (readable_ownMessage digests keys free members positive next)]
    refine ⟨?_, authentic_ownMessage digests keys hashed positive, rfl⟩
    rw [handoffText_eq]
    exact List.cons_ne_nil _ _

end RequestHandler

namespace Sample

open RequestHandler LocalPeerClient

def senderPrivateKey : Text :=
  upperHexText 64 0x0a367b92cf0b037dfd89960ee832d56f7fc151681bb41e53690e776f5786998a

def genesisStore : LevelDb :=
  canonicalStore Sample.env genesis []

/-- The fields for the genesis block, with a parent of choice. -/
def genesisHandoff (parentHash : Text) : HandoffFields where
  blockNumber := 100
  blockHash := genesisHash
  parentHash := parentHash
  creator := sender
  nextSlot := 101
  nextCreator := sender
  activeMemberSetHash :=
    hexText 64 0xee2c45c7f33c04b815c4f32d8d8f268de40057074bab823f9d7dad8376f82e9d

/-- The digests of the members, of the selection, and of two messages. -/
def handoffDigests : List (Text × Text) :=
  [(sender, (genesisHandoff []).activeMemberSetHash),
    (genesisHash ++ ":101".toList,
      hexText 64 0x0f567acf824c957c573568580e707937f283a0056a530c5926e8a0109cfc4ca4),
    (handoffSeed (genesisHandoff []),
      hexText 64 0x6a62f2704b397e2c673add8fcfe9cd77a709cc18003f9d18d0e24de60b23d20c),
    (handoffSeed (genesisHandoff ['x']),
      hexText 64 0xccbd72302c69cec7015c897e1ef6eec45064d6746edd69d3838725730049e0f0)]

def handoffSignatures : List (Text × Text) :=
  [(hexText 64 0x6a62f2704b397e2c673add8fcfe9cd77a709cc18003f9d18d0e24de60b23d20c,
      hexText 128 0x480a7330cd2edadfc5df253f475d2c88b6a2a7f7b3dae7179ca9926be60baad132e8821c8fa02396b649c799a9d9c5eceeee243fa97552f7f805b7e32e7ffe73),
    (hexText 64 0xccbd72302c69cec7015c897e1ef6eec45064d6746edd69d3838725730049e0f0,
      hexText 128 0xcbb7fe3c95cbac476398b7ba56422f2f25f0bdede6a877af4a4dbf00decb14c8e642ccd3d991e77c793b6fa8e3753814d42190bf5b271ee52eea3332f26773b9)]

/-- The signatures of the sender. -/
def handoffSign (_privateKey message : Text) : Text :=
  (handoffSignatures.lookup message).getD (hexText 128 0)

def handoffEnv : Env :=
  { Sample.env with
    sha256 := fun content => (handoffDigests.lookup content).getD (hexText 64 0)
    verifyMessageCompressed := fun message signature publicKey =>
      if signature = handoffSign senderPrivateKey message ∧ publicKey = sender then 1 else 0 }

theorem table_values {table : List (Text × Text)} {width : Nat} {other : Text}
    (listed : ∀ entry ∈ table, entry.2.length = width ∧ quoteFree entry.2 = true)
    (default : other.length = width ∧ quoteFree other = true) (content : Text) :
    ((table.lookup content).getD other).length = width ∧
      quoteFree ((table.lookup content).getD other) = true := by
  cases found : table.lookup content with
  | none => exact default
  | some value => exact listed _ (KeyedList.mem_of_lookup found)

theorem handoffEnv_digests : HexDigests handoffEnv :=
  table_values (by decide +kernel) (by decide +kernel)

theorem genesis_signingKeys :
    SigningKeys handoffEnv handoffSign senderPrivateKey genesis.creatorKey where
  present := by decide +kernel
  width := by decide +kernel
  signature := table_values (by decide +kernel) (by decide +kernel)
  verifies := fun _ => if_pos ⟨rfl, rfl⟩

theorem genesis_stored :
    getBlockByHash handoffEnv genesisStore genesis.hash = genesis ∧ 0 < genesis.number ∧
      genesis.number < longMax := by
  decide +kernel

/-- A message of the genesis block's creator with a parent of choice. -/
def signedHandoff (parentHash : Text) : Text :=
  handoffText
    { toHandoffFields := genesisHandoff parentHash
      handoffHash := handoffSeedHash handoffEnv (genesisHandoff parentHash)
      signature := handoffSign senderPrivateKey
        (handoffSeedHash handoffEnv (genesisHandoff parentHash)) }

def genuineHandoff : Text :=
  signedHandoff []

theorem genuineHandoff_accepted :
    (submitHandoffJson handoffEnv genesisStore true [] genuineHandoff).accepted = true ∧
      blockMatches (getBlockByHash handoffEnv genesisStore
        (readHandoff genuineHandoff).blockHash) (readHandoff genuineHandoff) = true := by
  decide +kernel

/-- A genuine message is checked and accepted, and so is the own one of the creator. -/
theorem genesis_handoff_checked :
    (ChecksHandoff handoffEnv genesisStore true [] genuineHandoff ∧
      (submitHandoffJson handoffEnv genesisStore true [] genuineHandoff).accepted = true) ∧
    (submitHandoffJson handoffEnv ∅ true []
      (handoffJson handoffEnv handoffSign
        ((handoffCall genesisStore 101 genesis).build handoffEnv
          (LedgerState.buildAll handoffEnv ∅ [])).1 genesis senderPrivateKey)).accepted = true := by
  obtain ⟨checked, own⟩ := handoff_checked_iff handoffEnv
  obtain ⟨accepted, matching⟩ := genuineHandoff_accepted
  refine ⟨⟨(checked genesisStore true [] genuineHandoff).mpr ?_, accepted⟩, ?_⟩
  · rintro ⟨-, -, -, contradicted⟩
    rw [contradicted.2] at matching
    cases matching
  · exact own handoffSign senderPrivateKey genesis genesisStore [] 101 ∅ [] handoffEnv_digests
      genesis_signingKeys genesis_stored.1 genesis_stored.2.1 genesis_stored.2.2

/-- The message names another parent than the stored block. -/
def contradictingHandoff : Text :=
  signedHandoff ['x']

theorem contradictingHandoff_accepted :
    (submitHandoffJson handoffEnv genesisStore true [] contradictingHandoff).accepted = true ∧
      0 < (getBlockByHash handoffEnv genesisStore
        (readHandoff contradictingHandoff).blockHash).number ∧
      blockMatches (getBlockByHash handoffEnv genesisStore
        (readHandoff contradictingHandoff).blockHash) (readHandoff contradictingHandoff) = false := by
  decide +kernel

/-- The handoff is accepted although the stored block has another parent. -/
theorem contradicting_handoff_unchecked :
    ¬ ChecksHandoff handoffEnv genesisStore true [] contradictingHandoff := by
  intro checks
  obtain ⟨accepted, known, differs⟩ := contradictingHandoff_accepted
  exact (checks.accepted accepted).2 ⟨known, differs⟩

end Sample

end Safire
