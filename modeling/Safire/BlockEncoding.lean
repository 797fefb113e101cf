/-
Reading back the text form of blocks.

The fields of a block stand before its records, so a lookup finds the block's own
field, and the records follow the last tag of the block. A list of blocks reads
back exactly when the records of each block do.
-/

import Safire.RecordEncoding
import Safire.Store

namespace Safire

open Text
open Search

/-! ### One block -/

def blockFields (block : Block) : List (String × Text) :=
  [("creator_key", block.creatorKey), ("network", block.network),
    ("number", ofLong block.number), ("time", block.time),
    ("previous_block_id", ofLong block.previousBlockId),
    ("previous_block_hash", block.previousBlockHash)] ++
    (if 0 < block.recordsMerkleRoot.length then [("records_merkle_root", block.recordsMerkleRoot)]
      else []) ++
    [("hash", block.hash), ("signature", block.signature)]

def blockFieldNames : List String :=
  ["creator_key", "network", "number", "time", "previous_block_id", "previous_block_hash",
    "records_merkle_root", "hash", "signature"]

def blockHeader : Text :=
  "\x7b\"block\":\x7b".toList

/-- The records as the section between their braces. -/
def recordsText (env : Env) (block : Block) : Text :=
  '\n' :: block.records.flatMap (recordJSON env)

/-- The text of a block without the last line break. -/
def blockText (env : Env) (block : Block) : Text :=
  blockHeader ++ (fieldsText (blockFields block) ++ (tagText "records".toList [] ++
    ('\x7b' :: (recordsText env block ++ ['\x7d', '\x7d', '\x7d']))))

theorem blockJSON_eq (env : Env) (block : Block) :
    blockJSON env block = blockText env block ++ ['\n'] := by
  have opening : "\"records\":\x7b\n".toList =
      tagText "records".toList [] ++ ['\x7b', '\n'] := rfl
  have closing : "\x7d\x7d\x7d\n".toList = ['\x7d', '\x7d', '\x7d', '\n'] := rfl
  unfold blockJSON blockText blockHeader blockFields fieldsText recordsText
  simp only [opening, closing, List.append_assoc, List.cons_append, List.nil_append,
    List.flatMap_append, List.flatMap_cons, List.flatMap_nil]
  split
  · simp only [List.flatMap_cons, List.flatMap_nil, List.append_nil]
  · simp only [List.flatMap_nil]

/-- The texts without quotes or braces, the fields whose absence the parser
repairs or drops, and readable records. -/
structure BlockReadable (env : Env) (block : Block) : Prop where
  network : isPlain block.network = true
  time : isPlain block.time = true
  previousBlockHash : isPlain block.previousBlockHash = true
  recordsMerkleRoot : isPlain block.recordsMerkleRoot = true
  creatorKey : isPlain block.creatorKey = true
  hash : isPlain block.hash = true
  signature : isPlain block.signature = true
  number : 0 < block.number ∧ IsLong block.number
  previousBlockId : IsLong block.previousBlockId
  hashed : block.hash ≠ []
  timed : block.time ≠ []
  genesisNetwork : block.previousBlockId ≤ 0 → block.network ≠ []
  records : ∀ record ∈ block.records, RecordReadable env record

instance (env : Env) (block : Block) : Decidable (BlockReadable env block) :=
  decidable_of_iff
    ((isPlain block.network = true ∧ isPlain block.time = true ∧
      isPlain block.previousBlockHash = true ∧ isPlain block.recordsMerkleRoot = true ∧
      isPlain block.creatorKey = true) ∧
      (isPlain block.hash = true ∧ isPlain block.signature = true ∧
        (0 < block.number ∧ IsLong block.number) ∧ IsLong block.previousBlockId) ∧
      block.hash ≠ [] ∧ block.time ≠ [] ∧ (block.previousBlockId ≤ 0 → block.network ≠ []) ∧
      ∀ record ∈ block.records, RecordReadable env record)
    ⟨fun ⟨⟨network, time, previousHash, root, creator⟩, ⟨hash, signature, number, previousId⟩,
        hashed, timed, genesis, records⟩ =>
      ⟨network, time, previousHash, root, creator, hash, signature, number, previousId, hashed,
        timed, genesis, records⟩,
    fun ⟨network, time, previousHash, root, creator, hash, signature, number, previousId, hashed,
        timed, genesis, records⟩ =>
      ⟨⟨network, time, previousHash, root, creator⟩, ⟨hash, signature, number, previousId⟩,
        hashed, timed, genesis, records⟩⟩

theorem blockFields_names {block : Block} {field : String × Text}
    (member : field ∈ blockFields block) :
    field.1 ∈ blockFieldNames ∧
      (field.1 = "records_merkle_root" → 0 < block.recordsMerkleRoot.length) := by
  unfold blockFields at member
  simp only [List.mem_append, List.mem_cons, List.not_mem_nil, or_false] at member
  rcases member with ((rfl | rfl | rfl | rfl | rfl | rfl) | optional) | rfl | rfl
  case inl.inr =>
    split at optional
    · rename_i written
      rw [List.mem_singleton.mp optional]
      exact ⟨by simp [blockFieldNames], fun _ => written⟩
    · cases optional
  all_goals exact ⟨by simp [blockFieldNames], fun same => absurd same (by simp)⟩

theorem blockFieldNames_spec {name : String} (listed : name ∈ blockFieldNames) :
    isTagName name.toList = true ∧ braceFree name.toList = true ∧ name ≠ "records" ∧
      name ≠ "block" := by
  unfold blockFieldNames at listed
  fin_cases listed <;> exact ⟨rfl, rfl, by decide, by decide⟩

theorem clear_blockHeader {name : String} {more rest : Text} (named : isTagName name.toList = true)
    (notBlock : name ≠ "block") : Clear (tagText name.toList more) blockHeader rest := by
  have pieces : blockHeader = ['\x7b'] ++ (('"' :: "block".toList) ++ ['"', ':', '\x7b']) := rfl
  rw [pieces]
  refine Clear.append (clear_of_notMem (by decide)) (Clear.append ?_ ?_)
  · exact clear_piece named rfl fun same => absurd (String.toList_inj.mp same) notBlock
  · exact clear_punctuation named rfl rfl

/-- What the parser makes of a block's own text. -/
def readBack (env : Env) (block : Block) : Block :=
  { block with
    records := scanRecords env ((recordsText env block).length + 1) 2 block.records }

theorem BlockReadable.fields {env : Env} {block : Block}
    (readable : BlockReadable env block) {field : String × Text} (member : field ∈ blockFields block) :
    isPlain field.2 = true := by
  unfold blockFields at member
  simp only [List.mem_append, List.mem_cons, List.not_mem_nil, or_false] at member
  rcases member with ((rfl | rfl | rfl | rfl | rfl | rfl) | optional) | rfl | rfl
  · exact readable.creatorKey
  · exact readable.network
  · exact isPlain_ofLong _
  · exact readable.time
  · exact isPlain_ofLong _
  · exact readable.previousBlockHash
  · split at optional
    · rw [List.mem_singleton.mp optional]
      exact readable.recordsMerkleRoot
    · cases optional
  · exact readable.hash
  · exact readable.signature

/-- What a block needs to be found in its text: a header without quotes and braces,
and records that close what they open. -/
structure BlockEnclosed (env : Env) (block : Block) : Prop where
  fields : ∀ field ∈ blockFields block, isPlain field.2 = true
  number : 0 < block.number ∧ IsLong block.number
  hashed : block.hash ≠ []
  records : ∀ record ∈ block.records, RecordEnclosed env record

theorem BlockReadable.enclosed {env : Env} {block : Block} (readable : BlockReadable env block) :
    BlockEnclosed env block where
  fields := fun _ member => readable.fields member
  number := readable.number
  hashed := readable.hashed
  records := fun record member => (readable.records record member).enclosed

section Header

variable {block : Block} (fields : ∀ field ∈ blockFields block, isPlain field.2 = true)
include fields

theorem fieldsReadable_of_plain : FieldsReadable (blockFields block) :=
  fun _ member => ⟨(blockFieldNames_spec (blockFields_names member).1).1,
    (isPlain_iff.mp (fields _ member)).1⟩

theorem braceFree_blockFields : braceFree (fieldsText (blockFields block)) = true :=
  braceFree_fieldsText fun _ member => ⟨(blockFieldNames_spec (blockFields_names member).1).2.1,
    (isPlain_iff.mp (fields _ member)).2⟩

end Header

/-- Records that close only what they open leave open what their fields leave open. -/
theorem braceDepth_records {env : Env} {records : List Record}
    (ends : ∀ record ∈ records, (braceDepth 0 (recordBody env record)).isSome = true) :
    ∃ left, braceDepth 0 (records.flatMap (recordJSON env)) = some left ∧
      (left = 0 ↔ ∀ record ∈ records, braceDepth 0 (recordBody env record) = some 0) := by
  induction records with
  | nil => exact ⟨0, rfl, by simp⟩
  | cons record later ih =>
      obtain ⟨left, rest, closed⟩ := ih fun other member => ends other (List.mem_cons_of_mem _ member)
      obtain ⟨own, first⟩ := Option.isSome_iff_exists.mp (ends record List.mem_cons_self)
      refine ⟨left + own, ?_, ?_⟩
      · rw [List.flatMap_cons, braceDepth_append, braceDepth_recordJSON first, Option.bind_some,
          ← Nat.zero_add own, braceDepth_add rest, Nat.zero_add]
      · rw [Nat.add_eq_zero_iff, List.forall_mem_cons, ← closed, first, Option.some_inj, and_comm]

/-- The text of a block up to the braces that close it. -/
def blockOpening (env : Env) (block : Block) : Text :=
  blockHeader ++ (fieldsText (blockFields block) ++ (tagText "records".toList [] ++
    ('\x7b' :: recordsText env block)))

theorem blockText_eq (env : Env) (block : Block) :
    blockText env block = blockOpening env block ++ ['\x7d', '\x7d', '\x7d'] := by
  rw [blockText, blockOpening]
  simp only [List.append_assoc, List.cons_append]

/-- Behind its records a block has three sections to close, and what the records left open. -/
theorem closingIndex_blockOpening {env : Env} {block : Block} {left : Nat} {rest : Text}
    (fields : ∀ field ∈ blockFields block, isPlain field.2 = true)
    (records : braceDepth 0 (block.records.flatMap (recordJSON env)) = some left) :
    closingIndex (blockOpening env block ++ rest) 0 false 0 =
      closingIndex rest (3 + left) true (blockOpening env block).length := by
  have tail : braceDepth 0 (recordsText env block) = some left := records
  have opened : braceDepth 0 (tagText "block".toList [] ++ ('\x7b' :: (fieldsText (blockFields block) ++
      (tagText "records".toList [] ++ ('\x7b' :: recordsText env block))))) = some (left + 2) := by
    have name : braceFree (tagText "block".toList []) = true := rfl
    have section' : braceDepth 1 (tagText "records".toList [] ++ ['\x7b']) = some 2 := rfl
    have split : tagText "records".toList [] ++ ('\x7b' :: recordsText env block) =
        (tagText "records".toList [] ++ ['\x7b']) ++ recordsText env block := by simp
    rw [braceDepth_append, braceDepth_plain name, Option.bind_some, braceDepth, if_pos rfl,
      braceDepth_append, braceDepth_plain (braceFree_blockFields fields), Option.bind_some, split,
      braceDepth_append, section', Option.bind_some, ← Nat.zero_add 2, braceDepth_add tail,
      Nat.zero_add]
  have split : blockOpening env block = '\x7b' :: (tagText "block".toList [] ++ ('\x7b' ::
      (fieldsText (blockFields block) ++ (tagText "records".toList [] ++
        ('\x7b' :: recordsText env block))))) := by
    have header : blockHeader = '\x7b' :: (tagText "block".toList [] ++ ['\x7b']) := rfl
    rw [blockOpening, header]
    simp only [List.append_assoc, List.cons_append, List.nil_append]
  have passed : closingIndex (_ ++ rest) (1 + (0 : Nat)) true 1 = _ :=
    closingIndex_within opened one_pos
  have depth : (1 : Int) + (left + 2 : Nat) = 3 + left := by omega
  rw [depth, Nat.add_comm 1] at passed
  rw [split, List.cons_append, closingIndex_open le_rfl, List.length_cons]
  exact passed

section Block

variable {env : Env} {block : Block} (enclosed : BlockEnclosed env block)
include enclosed

theorem BlockEnclosed.clear_records {name : String} {more rest : Text}
    (named : isTagName name.toList = true) (unlisted : name ∉ recordFieldNames)
    (notSignature : name ≠ "sig") (notRecord : name ≠ "record") :
    Clear (tagText name.toList more) (block.records.flatMap (recordJSON env)) rest := by
  have all := enclosed.records
  clear enclosed
  revert all
  induction block.records with
  | nil => exact fun _ => clear_nil
  | cons record later ih =>
      intro all
      rw [List.flatMap_cons]
      refine Clear.append ?_ (ih fun other member => all other (List.mem_cons_of_mem _ member))
      exact (all record List.mem_cons_self).quotes.clear_recordJSON name named unlisted notSignature
        notRecord

theorem BlockEnclosed.braceDepth_recordsText : braceDepth 0 (recordsText env block) = some 0 := by
  have ends : ∀ record ∈ block.records, braceDepth 0 (recordBody env record) = some 0 :=
    fun record member => (enclosed.records record member).braces
  obtain ⟨left, depth, closed⟩ := braceDepth_records fun record member =>
    Option.isSome_iff_exists.mpr ⟨0, ends record member⟩
  rw [closed.mpr ends] at depth
  exact depth

/-- The records do not close the section they stand in. -/
theorem BlockEnclosed.closingIndex_recordsText {rest : Text} {depth : Int} {index : Nat}
    (inside : 0 < depth) :
    closingIndex (recordsText env block ++ rest) depth true index =
      closingIndex rest depth true (index + (recordsText env block).length) := by
  have passed := @closingIndex_within _ rest depth index 0 0 enclosed.braceDepth_recordsText inside
  rw [Nat.cast_zero, add_zero] at passed
  exact passed

theorem BlockEnclosed.lookup (name : String) (value : Text)
    (found : (blockFields block).lookup name = some value) :
    quotedSection (blockText env block) name = value := by
  obtain ⟨before, after, split, -⟩ := List.lookup_eq_some_iff.mp found
  have member : (name, value) ∈ blockFields block := by
    rw [split]
    simp
  obtain ⟨named, -, -, notBlock⟩ := blockFieldNames_spec (blockFields_names member).1
  exact quotedSection_lookup found named (fieldsReadable_of_plain enclosed.fields)
    fun _ => clear_blockHeader named notBlock

theorem BlockEnclosed.absent (name : String) (named : isTagName name.toList = true)
    (other : ∀ field ∈ blockFields block, name ≠ field.1) (notBlock : name ≠ "block")
    (notRecords : name ≠ "records") (unlisted : name ∉ recordFieldNames)
    (notSignature : name ≠ "sig") (notRecord : name ≠ "record") :
    quotedSection (blockText env block) name = [] := by
  have records : tagText "records".toList [] = ('"' :: "records".toList) ++ ['"', ':'] := rfl
  refine quotedSection_absent ?_
  rw [blockText, recordsText, records]
  refine Clear.append (clear_blockHeader named notBlock) (Clear.append ?_
    (Clear.append (Clear.append ?_ ?_) ?_))
  · exact clear_fieldsText named (fieldsReadable_of_plain enclosed.fields) fun field member same =>
      other field member (String.toList_inj.mp same)
  · exact clear_piece named rfl fun same => absurd (String.toList_inj.mp same) notRecords
  · exact clear_punctuation named rfl rfl
  · have opening : Clear (tagText name.toList ['"']) ['\x7b', '\n']
        (block.records.flatMap (recordJSON env) ++ ['\x7d', '\x7d', '\x7d'] ++ []) :=
      clear_of_notMem (by decide)
    refine opening.append (Clear.append ?_ (clear_of_notMem (by decide)))
    exact enclosed.clear_records named unlisted notSignature notRecord

theorem BlockEnclosed.merkleRoot_read :
    quotedSection (blockText env block) "records_merkle_root" = block.recordsMerkleRoot := by
  by_cases written : 0 < block.recordsMerkleRoot.length
  · refine enclosed.lookup _ _ ?_
    rw [blockFields, if_pos written]
    rfl
  · rw [enclosed.absent "records_merkle_root" rfl ?_ (by decide) (by decide)
      (by simp [recordFieldNames]) (by decide) (by decide)]
    · exact (List.length_eq_zero_iff.mp (Nat.eq_zero_of_not_pos written)).symm
    · exact fun field member same => written ((blockFields_names member).2 same.symm)

/-- The section of the records is the text between their braces. -/
theorem BlockEnclosed.records_section :
    (parseSectionBlock (blockText env block) "\"records\":".toList).1 = recordsText env block := by
  have tag : "\"records\":".toList = tagText "records".toList [] := rfl
  have clear : Clear (tagText "records".toList []) (blockHeader ++ fieldsText (blockFields block))
      (tagText "records".toList [] ++
        '\x7b' :: (recordsText env block ++ '\x7d' :: ['\x7d', '\x7d'])) := by
    refine Clear.append (clear_blockHeader rfl (by decide)) ?_
    refine clear_fieldsText rfl (fieldsReadable_of_plain enclosed.fields) fun field member same => ?_
    exact (blockFieldNames_spec (blockFields_names member).1).2.2.1 (String.toList_inj.mp same).symm
  rw [tag, blockText, ← List.append_assoc, parseSectionBlock_of_clear clear fun index => ?_]
  rw [enclosed.closingIndex_recordsText one_pos, closingIndex_last rfl]

theorem BlockEnclosed.records_read :
    parseRecords env ((recordsText env block).length + 1) (recordsText env block) =
      (scanRecords env ((recordsText env block).length + 1) 2 block.records).map
        (recordReadBack env) := by
  cases records : block.records with
  | nil =>
      have read := parseRecords_enclosed ((recordsText env block).length + 1)
        (fun record (member : record ∈ []) => enclosed.records record (by rwa [records]))
        (clear_of_notMem (by decide) : Clear (tagText "record".toList []) ['\n'] _)
      rw [scanRecords_nil] at read ⊢
      rw [← read, recordsText, records]
      rfl
  | cons record later =>
      have read := parseRecords_enclosed ((recordsText env block).length + 1)
        (fun other (member : other ∈ record :: later) => enclosed.records other (by rwa [records]))
        (clear_of_notMem (by decide) : Clear (tagText "record".toList []) ['\n', '\x7b'] _)
      have split : recordsText env block = ['\n', '\x7b'] ++ openRecords env (record :: later) := by
        rw [recordsText, records, List.flatMap_cons, recordJSON_eq]
        rfl
      rw [← split] at read
      exact read

/-- The braces of a block close at its last byte. -/
theorem BlockEnclosed.closingIndex_blockText {rest : Text} :
    closingIndex (blockText env block ++ rest) 0 false 0 =
      some ((blockText env block).length - 1) := by
  have records : braceDepth 0 (block.records.flatMap (recordJSON env)) = some 0 :=
    enclosed.braceDepth_recordsText
  rw [blockText_eq, List.append_assoc, closingIndex_blockOpening enclosed.fields records,
    Nat.cast_zero, add_zero, List.cons_append, closingIndex_close (by decide), List.cons_append,
    closingIndex_close (by decide), List.cons_append, closingIndex_last (by decide),
    List.length_append, Option.some_inj]
  rfl

end Block

section Readable

variable {env : Env} {block : Block} (readable : BlockReadable env block)
include readable

theorem BlockReadable.records_read :
    parseRecords env ((recordsText env block).length + 1) (recordsText env block) =
      scanRecords env ((recordsText env block).length + 1) 2 block.records := by
  have same : ∀ record ∈ scanRecords env ((recordsText env block).length + 1) 2 block.records,
      recordReadBack env record = id record := by
    intro record member
    exact parseRecordJson_body (readable.records record (mem_of_scanRecords _ member))
  rw [readable.enclosed.records_read, List.map_congr_left same, List.map_id]

/-- Everything of a block but its records reads back as written. -/
theorem BlockReadable.parseBlockSection_text :
    parseBlockSection env (blockText env block) = readBack env block := by
  unfold parseBlockSection
  dsimp only
  rw [readable.enclosed.records_section, readable.records_read, readable.enclosed.merkleRoot_read, parseSectionLong,
    parseSectionLong,
    readable.enclosed.lookup "network" block.network rfl,
    readable.enclosed.lookup "time" block.time rfl,
    readable.enclosed.lookup "previous_block_id" (ofLong block.previousBlockId) rfl,
    readable.enclosed.lookup "number" (ofLong block.number) rfl,
    readable.enclosed.lookup "previous_block_hash" block.previousBlockHash rfl,
    readable.enclosed.lookup "creator_key" block.creatorKey rfl,
    readable.enclosed.lookup "hash" block.hash ?_,
    readable.enclosed.lookup "signature" block.signature ?_,
    atol_ofLong readable.number.2, atol_ofLong readable.previousBlockId]
  · have network : ¬ (block.previousBlockId ≤ 0 ∧ block.network.length = 0) := fun genesis =>
      readable.genesisNetwork genesis.1 (List.length_eq_zero_iff.mp genesis.2)
    have time : ¬ block.time.length = 0 := fun empty =>
      readable.timed (List.length_eq_zero_iff.mp empty)
    unfold readBack
    simp only [network, time, if_false]
    cases scanRecords env ((recordsText env block).length + 1) 2 block.records <;> rfl
  all_goals
    unfold blockFields
    split <;> rfl

end Readable

/-! ### Lists of blocks -/

section Blocks

variable {env : Env} {blocks : List Block}
  (readable : ∀ block ∈ blocks, BlockReadable env block)
include readable

theorem parseBlockSections_eq (lead : Text) (free : '\x7b' ∉ lead) {rounds : Nat}
    (enough : blocks.length < rounds) :
    parseBlockSections env rounds (lead ++ blocks.flatMap (blockJSON env)) =
      blocks.map (readBack env) := by
  induction blocks generalizing lead rounds with
  | nil =>
      obtain ⟨rounds, rfl⟩ : ∃ less, rounds = less + 1 := ⟨rounds - 1, by omega⟩
      have opened : lead.dropWhile (· ≠ '\x7b') = [] := by
        rw [List.dropWhile_eq_nil_iff]
        intro byte member
        have other : byte ≠ '\x7b' := fun same => free (same ▸ member)
        simpa using other
      rw [List.flatMap_nil, List.append_nil, parseBlockSections]
      dsimp only
      rw [opened]
      rfl
  | cons block later ih =>
      obtain ⟨rounds, rfl⟩ : ∃ less, rounds = less + 1 := ⟨rounds - 1, by omega⟩
      have own := readable block List.mem_cons_self
      have opened : (lead ++ (block :: later).flatMap (blockJSON env)).dropWhile (· ≠ '\x7b') =
          blockText env block ++ (['\n'] ++ later.flatMap (blockJSON env)) := by
        rw [List.dropWhile_append_of_pos ?_, List.flatMap_cons, blockJSON_eq, List.append_assoc]
        · rfl
        · intro byte member
          have other : byte ≠ '\x7b' := fun same => free (same ▸ member)
          simpa using other
      have last : (blockText env block).length - 1 + 1 = (blockText env block).length := by
        have nonempty : 0 < (blockText env block).length := by
          rw [blockText, List.length_append]
          exact Nat.add_pos_left (by decide) _
        omega
      rw [List.length_cons] at enough
      rw [parseBlockSections]
      dsimp only
      rw [opened, own.enclosed.closingIndex_blockText]
      dsimp only
      rw [last, List.take_left, List.drop_left, own.parseBlockSection_text,
        ih (fun other member => readable other (List.mem_cons_of_mem _ member)) ['\n'] (by decide)
          (by omega), List.map_cons, if_pos]
      exact ⟨own.number.1, List.length_pos_iff.mpr own.hashed⟩

theorem parseBlockJson_eq :
    parseBlockJson env (blocks.flatMap (blockJSON env)) = blocks.map (readBack env) := by
  refine parseBlockSections_eq readable [] (by simp) ?_
  have long : blocks.length ≤ (blocks.flatMap (blockJSON env)).length := by
    clear readable
    induction blocks with
    | nil => rfl
    | cons block later ih =>
        rw [List.flatMap_cons, List.length_append, List.length_cons, blockJSON_eq,
          List.length_append, List.length_singleton]
        omega
  omega

end Blocks

/-- The rounds of the reader are enough for the records of a block. -/
theorem records_lt_text (env : Env) (block : Block) :
    block.records.length < (recordsText env block).length + 1 := by
  rw [recordsText, List.length_cons]
  induction block.records with
  | nil => simp
  | cons record later ih =>
      rw [List.flatMap_cons, List.length_append, List.length_cons, recordJSON_eq, List.length_cons]
      omega

theorem readBack_eq_iff {env : Env} {block : Block} :
    readBack env block = block ↔ RecordsFit env 2 block.records := by
  rw [← scanRecords_eq_iff (records_lt_text env block)]
  unfold readBack
  constructor
  · exact fun same => congrArg Block.records same
  · intro same
    rw [same]

/-- Blocks read back, alone from the store or many in one text, exactly when no
record is shorter than what the scan keeps before it. -/
theorem blocks_read_back_iff {env : Env} {blocks : List Block}
    (readable : ∀ block ∈ blocks, BlockReadable env block) :
    (parseBlockJson env (blocks.flatMap (blockJSON env)) = blocks ↔
        ∀ block ∈ blocks, RecordsFit env 2 block.records) ∧
      ∀ block ∈ blocks, ∀ db : LevelDb, db.get (.block block.hash) = blockJSON env block →
        (getBlockByHash env db block.hash = block ↔ RecordsFit env 2 block.records) := by
  refine ⟨?_, fun block member db stored => ?_⟩
  · have unchanged : blocks.map (readBack env) = blocks.map id ↔
        ∀ block ∈ blocks, readBack env block = block :=
      List.map_inj_left
    rw [List.map_id] at unchanged
    rw [parseBlockJson_eq readable, unchanged]
    exact forall₂_congr fun block _ => readBack_eq_iff
  · have own := readable block member
    have read := parseBlockJson_eq (fun other (listed : other ∈ [block]) =>
      readable other (by rwa [List.mem_singleton.mp listed]))
    rw [List.flatMap_singleton] at read
    rw [getBlockByHash, if_neg (by simpa using own.hashed), stored, parseSingleBlockJson, read]
    exact readBack_eq_iff

namespace Sample

/-- A payment block of forty records. -/
def crowdedBlock : Block :=
  { genesis with records := List.replicate 40 spend }

theorem crowdedBlock_not_read_back :
    BlockReadable env crowdedBlock ∧
      parseBlockJson env ([crowdedBlock].flatMap (blockJSON env)) ≠ [crowdedBlock] := by
  have readable : BlockReadable env crowdedBlock := by decide +kernel
  have short : recordSpan env spend ≤ 2 + 13 * 39 := by decide +kernel
  refine ⟨readable, fun same => ?_⟩
  rw [parseBlockJson_eq (by simpa using readable)] at same
  have fits := readBack_eq_iff.mp (List.cons.inj same).1 39 spend rfl
  omega

def blocks : List Block :=
  [genesis, validSpend, duplicateBlock, heirBlock, emptyBlock, laterBlock, repeatBlock,
    joinedBlock, carryBlock, strayBlock, lostBlock]

theorem blocks_fit :
    (∀ block ∈ blocks, BlockReadable env block) ∧
      ∀ block ∈ blocks, RecordsFit env 2 block.records := by
  rw [← forall₂_and, blocks]
  simp only [List.forall_mem_cons, List.not_mem_nil, false_implies, implies_true, and_true]
  refine ⟨?_, ?_, ?_, ?_, ?_, ?_, ?_, ?_, ?_, ?_, ?_⟩ <;> decide +kernel

theorem readable : ∀ block ∈ blocks, BlockReadable env block :=
  blocks_fit.1

theorem recordsFit : ∀ block ∈ blocks, RecordsFit env 2 block.records :=
  blocks_fit.2

theorem blocks_read_back :
    parseBlockJson env (blocks.flatMap (blockJSON env)) = blocks :=
  (blocks_read_back_iff readable).1.mpr recordsFit

end Sample

end Safire
