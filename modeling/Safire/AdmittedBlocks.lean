/-
Whether a block that the store admits is found in its own text.

The records of a block stand in its text with their fields as they are, and the
reader finds the sections by counting braces. A field that leaves a brace open hides
the whole block.
-/

import Safire.MemberKeys
import Safire.SoundStore
import Safire.StorageAgreement

namespace Safire

open ChainValidator

variable {env : Env} {block : Block}

/-! ### Records from a text -/

/-- The number texts of a record, as the C library prints them, have no quotes and braces. -/
def AmountsPlain (env : Env) (record : Record) : Prop :=
  isPlain (env.doubleText record.amount) = true ∧ isPlain (env.doubleText record.fee) = true

instance (env : Env) (record : Record) : Decidable (AmountsPlain env record) :=
  inferInstanceAs (Decidable (_ ∧ _))

/-- The fields of a record that was parsed end at the first quote. -/
theorem quoteFree_parsed {content : Text}
    (printed : AmountsPlain env (parseRecordJson env content)) :
    QuoteFreeRecord env (parseRecordJson env content) where
  network := quoteFree_quotedSection _ _
  time := quoteFree_quotedSection _ _
  name := by
    rw [parseRecordJson]
    dsimp only
    split
    · exact quoteFree_quotedSection _ _
    · exact quoteFree_quotedSection _ _
  sender := quoteFree_quotedSection _ _
  recipient := quoteFree_quotedSection _ _
  value := quoteFree_quotedSection _ _
  hash := quoteFree_quotedSection _ _
  signature := quoteFree_quotedSection _ _
  amount := (isPlain_iff.mp printed.1).1
  fee := (isPlain_iff.mp printed.2).1

/-! ### Blocks in their text -/

/-- The number, the hash and the record hashes of a block. -/
structure SameBlock (found block : Block) : Prop where
  number : found.number = block.number
  hash : found.hash = block.hash
  recordHashes : found.records.map Record.hash = block.records.map Record.hash

/-- The text of a block gives back one block, and it is this one. -/
def FoundInText (env : Env) (block : Block) : Prop :=
  ∃ found, parseBlockJson env (blockJSON env block) = [found] ∧ SameBlock found block

/-- Every record closes the braces that it opens, and no others. -/
def RecordsBalanced (env : Env) (block : Block) : Prop :=
  ∀ record ∈ block.records, braceDepth 0 (recordBody env record) = some 0

/-- No record closes a brace that it did not open. -/
def NoEarlyClose (env : Env) (block : Block) : Prop :=
  ∀ record ∈ block.records, (braceDepth 0 (recordBody env record)).isSome = true

instance (env : Env) (block : Block) : Decidable (RecordsBalanced env block) :=
  inferInstanceAs (Decidable (∀ record ∈ block.records, _ = _))

instance (env : Env) (block : Block) : Decidable (NoEarlyClose env block) :=
  inferInstanceAs (Decidable (∀ record ∈ block.records, _ = true))

theorem dropWhile_blockOpening (env : Env) (block : Block) (rest : Text) :
    (blockOpening env block ++ rest).dropWhile (· ≠ '\x7b') = blockOpening env block ++ rest := rfl

theorem dropWhile_blockText (env : Env) (block : Block) (rest : Text) :
    (blockText env block ++ rest).dropWhile (· ≠ '\x7b') = blockText env block ++ rest := rfl

section Enclosed

variable (enclosed : BlockEnclosed env block)
include enclosed

theorem BlockEnclosed.number_read :
    (parseBlockSection env (blockText env block)).number = block.number := by
  change parseSectionLong (blockText env block) "number" = block.number
  rw [parseSectionLong, enclosed.lookup "number" (Text.ofLong block.number) rfl,
    Text.atol_ofLong enclosed.number.2]

theorem BlockEnclosed.hash_read :
    (parseBlockSection env (blockText env block)).hash = block.hash := by
  have found : (blockFields block).lookup "hash" = some block.hash := by
    unfold blockFields
    split <;> rfl
  exact enclosed.lookup "hash" block.hash found

theorem BlockEnclosed.recordHashes_read :
    (parseBlockSection env (blockText env block)).records.map Record.hash =
      (scanRecords env ((recordsText env block).length + 1) 2 block.records).map Record.hash := by
  have read : (parseBlockSection env (blockText env block)).records =
      (scanRecords env ((recordsText env block).length + 1) 2 block.records).map
        (recordReadBack env) := by
    rw [← enclosed.records_read, ← enclosed.records_section]
    rfl
  rw [read, List.map_map]
  apply List.map_congr_left
  intro record member
  exact (enclosed.records record (mem_of_scanRecords _ member)).quotes.hash_readBack

/-- A block whose sections close is the only one in its text. -/
theorem BlockEnclosed.parseBlockJson_eq :
    parseBlockJson env (blockJSON env block) = [parseBlockSection env (blockText env block)] := by
  have nonempty : 0 < (blockText env block).length := by
    rw [blockText_eq, List.length_append]
    exact Nat.add_pos_right _ (by decide)
  have last : (blockText env block).length - 1 + 1 = (blockText env block).length := by omega
  have kept : 0 < (parseBlockSection env (blockText env block)).number ∧
      0 < (parseBlockSection env (blockText env block)).hash.length := by
    rw [enclosed.number_read, enclosed.hash_read]
    exact ⟨enclosed.number.1, List.length_pos_iff.mpr enclosed.hashed⟩
  have rest : ∀ rounds, parseBlockSections env rounds ['\n'] = [] := by
    intro rounds
    cases rounds with
    | zero => rfl
    | succ rounds => rfl
  rw [parseBlockJson, parseBlockSections]
  dsimp only
  rw [blockJSON_eq, dropWhile_blockText, enclosed.closingIndex_blockText]
  dsimp only
  rw [last, List.take_left, List.drop_left, if_pos kept, rest]

/-- With its sections closed a block is found if every record is longer than what
the scan keeps before it. -/
theorem BlockEnclosed.foundInText_iff :
    FoundInText env block ↔ RecordsFit env 2 block.records := by
  have enough := records_lt_text env block
  constructor
  · intro found
    obtain ⟨other, read, same⟩ := found
    rw [enclosed.parseBlockJson_eq] at read
    have hashes := same.recordHashes
    rw [← List.head_eq_of_cons_eq read, enclosed.recordHashes_read] at hashes
    by_contra unfit
    have longer := length_scanRecords_of_not_fit enough unfit
    have lengths := congrArg List.length hashes
    rw [List.length_map, List.length_map] at lengths
    omega
  · intro fits
    refine ⟨_, enclosed.parseBlockJson_eq, enclosed.number_read, enclosed.hash_read, ?_⟩
    rw [enclosed.recordHashes_read, scanRecords_of_fit enough.le fits]

end Enclosed

/-- Behind records that leave a brace open the block does not end. -/
theorem parseBlockJson_of_open {left : Nat}
    (fields : ∀ field ∈ blockFields block, isPlain field.2 = true)
    (records : braceDepth 0 (block.records.flatMap (recordJSON env)) = some (left + 1)) :
    parseBlockJson env (blockJSON env block) = [] := by
  have unclosed : closingIndex (blockOpening env block ++ ['\x7d', '\x7d', '\x7d', '\n']) 0 false 0 =
      none := by
    rw [closingIndex_blockOpening fields records, closingIndex_close (by omega),
      closingIndex_close (by omega), closingIndex_close (by omega)]
    have plain : braceFree ['\n'] = true := by decide
    have passed := @closingIndex_plain ['\n'] [] (3 + (left + 1 : Nat) - 1 - 1 - 1) true
      ((blockOpening env block).length + 1 + 1 + 1) plain (.inl (by omega))
    rw [List.append_nil] at passed
    rw [passed]
    rfl
  have text : blockJSON env block = blockOpening env block ++ ['\x7d', '\x7d', '\x7d', '\n'] := by
    rw [blockJSON_eq, blockText_eq, List.append_assoc]
    rfl
  rw [parseBlockJson, parseBlockSections]
  dsimp only
  rw [text, dropWhile_blockOpening, unclosed]

/-! ### Blocks in the store -/

section Stored

variable {db : LevelDb}

theorem get_block_writeBlock (env : Env) (db : LevelDb) (block : Block) :
    (writeBlock env db block).get (.block block.hash) = blockJSON env block := by
  have placed : ¬ StoreKey.IsPlacing block (.block block.hash) := by
    simp [StoreKey.IsPlacing, StoreKey.LinksTo, StoreKey.IsTip, StoreKey.IsQuiet, StoreKey.IsSide,
      StoreKey.IsLatest, latestHashKey]
  have stored : Writes StoreKey.IsAside (db.put (.block block.hash) (blockJSON env block))
      (writeStored env db block) :=
    (Writes.put (.refl _) (.inr (.inr (.inl rfl)))).trans
      (writes_maybeUpdateHighestStoredBlock _ _).aside
  rw [(placing_writeBlock env db block).get_eq placed, stored.blockData rfl, LevelDb.get_put_self]

theorem get_canonical_writeBlock (takes : TakesSlot env (writeStored env db block) block) :
    (writeBlock env db block).get (.canonical block.number) = block.hash := by
  cases writeBlock_cases env db block with
  | inl refused => exact absurd takes refused.1
  | inr placed =>
      obtain ⟨-, counted, writes, same⟩ := placed
      have linked := writes_writeNextLinks env counted block
      have moved := tip_advanceLatest env (writeNextLinks env counted block) block
      rw [same, moved.get_eq (by simp [StoreKey.IsTip, StoreKey.IsQuiet, StoreKey.IsSide,
          StoreKey.IsLatest, latestHashKey]),
        linked.get_eq (by simp [StoreKey.LinksTo]),
        writes.get_eq (by simp [StoreKey.IsQuiet, StoreKey.IsSide]), writeCanonical,
        LevelDb.get_put_of_ne (by simp), LevelDb.get_put_self]

/-- What is found in the text of a block is what the lookups show after it is written. -/
theorem FoundInText.stored (found : FoundInText env block) (positive : 0 < block.number)
    (hashed : block.hash ≠ []) :
    SameBlock (getBlockByHash env (writeBlock env db block) block.hash) block ∧
      (TakesSlot env (writeStored env db block) block →
        SameBlock (getBlock env (writeBlock env db block) block.number) block) := by
  obtain ⟨other, read, same⟩ := found
  have byHash : getBlockByHash env (writeBlock env db block) block.hash = other := by
    rw [getBlockByHash, if_neg (mt List.length_eq_zero_iff.mp hashed), get_block_writeBlock,
      parseSingleBlockJson, read]
    rfl
  constructor
  · rw [byHash]
    exact same
  · intro takes
    rw [getBlock, get_canonical_writeBlock takes]
    rw [byHash, if_pos (same.number ▸ positive)]
    exact same

theorem addBlock_wrote {ambient : Ambient} {node next : Node}
    (added : addBlock env ambient node block = (.ok (), next))
    (fresh : node.db.get (.block block.hash) = []) :
    next.db = writeBlock env node.db block := by
  unfold addBlock at added
  cases checked : checkAddedBlock env block with
  | error reason =>
      rw [checked] at added
      cases added
  | ok passed =>
      rw [checked] at added
      dsimp only at added
      rw [if_neg (by simp [fresh])] at added
      generalize validateBlockForStorage env ambient node.db node.caches block = verdict at added
      obtain ⟨outcome, caches⟩ := verdict
      cases outcome with
      | error reason => cases added
      | ok valid =>
          cases added
          rfl

end Stored

theorem facts_of_valid {ambient : Ambient} {db : LevelDb} {caches : Caches}
    (valid : (validateBlockForStorage env ambient db caches block).1 = .ok ()) :
    0 < block.number ∧ block.hash ≠ [] := by
  unfold validateBlockForStorage at valid
  cases checked : checkEnvelope env block with
  | error reason =>
      rw [checked] at valid
      cases valid
  | ok passed =>
      constructor
      · exact checkEnvelope_positive checked
      · intro empty
        unfold checkEnvelope at checked
        rw [empty] at checked
        split at checked
        · cases checked
        · cases checked

/-- A block of parsed records that the store admits is found in its text if the
braces of its records are balanced and every record is longer than what the scan keeps
before it, and only then where no record closes a brace that it did not open. Where it
is found there, the lookups find it once it is added. -/
theorem admitted_block_found {ambient : Ambient} {db : LevelDb} {caches : Caches}
    (valid : (validateBlockForStorage env ambient db caches block).1 = .ok ())
    (parsed : ∀ record ∈ block.records, ∃ content, record = parseRecordJson env content)
    (printed : ∀ record ∈ block.records, AmountsPlain env record)
    (header : ∀ field ∈ blockFields block, isPlain field.2 = true) (long : Text.IsLong block.number) :
    (RecordsBalanced env block ∧ RecordsFit env 2 block.records → FoundInText env block) ∧
    (NoEarlyClose env block → FoundInText env block →
      RecordsBalanced env block ∧ RecordsFit env 2 block.records) ∧
    (FoundInText env block → ∀ (later : Ambient) (node next : Node),
      addBlock env later node block = (.ok (), next) → node.db.get (.block block.hash) = [] →
        SameBlock (getBlockByHash env next.db block.hash) block ∧
          (TakesSlot env (writeStored env node.db block) block →
            SameBlock (getBlock env next.db block.number) block)) := by
  obtain ⟨positive, hashed⟩ := facts_of_valid valid
  have quotes : ∀ record ∈ block.records, QuoteFreeRecord env record := by
    intro record member
    obtain ⟨content, same⟩ := parsed record member
    rw [same]
    exact quoteFree_parsed (same ▸ printed record member)
  have enclosed (balanced : RecordsBalanced env block) : BlockEnclosed env block :=
    ⟨header, ⟨positive, long⟩, hashed,
      fun record member => ⟨quotes record member, balanced record member⟩⟩
  refine ⟨?_, ?_, ?_⟩
  · intro both
    exact (enclosed both.1).foundInText_iff.mpr both.2
  · intro early found
    obtain ⟨left, depth, closed⟩ := braceDepth_records early
    cases left with
    | zero =>
        have balanced : RecordsBalanced env block := closed.mp rfl
        exact ⟨balanced, (enclosed balanced).foundInText_iff.mp found⟩
    | succ left =>
        obtain ⟨other, read, -⟩ := found
        rw [parseBlockJson_of_open header depth] at read
        cases read
  · intro found later node next added fresh
    rw [addBlock_wrote added fresh]
    exact found.stored positive hashed

namespace Sample

/-- The genesis block, on a node that just started. -/
theorem genesis_found :
    FoundInText Sample.env genesis ∧
      ∀ (later : Ambient) (node next : Node),
        addBlock Sample.env later node genesis = (.ok (), next) →
          node.db.get (.block genesis.hash) = [] →
            SameBlock (getBlockByHash Sample.env next.db genesis.hash) genesis := by
  have parsed : ∀ record ∈ genesis.records,
      record = parseRecordJson Sample.env (recordJSON Sample.env record) := by decide +kernel
  obtain ⟨found, -, stored⟩ := @admitted_block_found Sample.env genesis sampleAmbient ∅ .empty
    (by decide +kernel) (fun record member => ⟨_, parsed record member⟩) (by decide +kernel)
    (by decide +kernel) (by decide)
  have reads : FoundInText Sample.env genesis := found ⟨by decide +kernel, by decide +kernel⟩
  constructor
  · exact reads
  · intro later node next added fresh
    exact (stored reads later node next added fresh).1

/-- The issue record of the genesis block with an opening brace in its value. -/
def braceIssue : Record :=
  { Sample.record .issueCurrency "1" 0 1 sender sender ""
      (hexText 64 0x3192bd59bfab062a649968d4e6c1fac080b25f792ca6ff3769938cba54b900c4)
      0x6bc97ec18253e2b2819dec9d67d9fff4b62350ec1a67d93369f381f70f58633240dc2c127beb1929183221f7865922b8883ecf51796c647b461e00fb920a9226 with
    value := ['\x7b'] }

def braceGenesis : Block :=
  Sample.block 100 "1" (-1) []
    (hexText 64 0xeba29e9cfa3d3305ea2c4798907f8ed28f8c9cacd7549434bc987aebfb78dbec)
    (hexText 64 0xdb5a4115b1bae4cc9eee46f9977d441e9bceb40d9dd976c6533155d847a0d386)
    0x78256cfbb5a37a7c732832e919c8a0c7abe6406c5f5c3e020bd07103bba037f05eb01866ac456115598b56abff3707d287439f59e35e1f361799a8ca1feb322b
    [joinRecord, braceIssue]

local instance braceSigned_lawfulBEq : LawfulBEq (Text × Text × Text) := inferInstance

/-- The digests and signatures of that block, which is the configured genesis block. -/
def braceEnv : Env :=
  { Sample.env with
    sha256 := fun content =>
      ([(recordContent braceIssue "1", braceIssue.hash),
        (joinRecord.hash ++ braceIssue.hash, braceGenesis.recordsMerkleRoot),
        (blockContent braceGenesis, braceGenesis.hash)].lookup content).getD (Sample.env.sha256 content)
    verifyMessageCompressed := fun message signature publicKey =>
      if (message, signature, publicKey) ∈
          [(braceIssue.hash, braceIssue.signature, braceIssue.senderPublicKey),
            (braceGenesis.hash, braceGenesis.signature, braceGenesis.creatorKey)] then 1
      else Sample.env.verifyMessageCompressed message signature publicKey
    config := { Sample.env.config with genesisHash := braceGenesis.hash } }

/-- The store admits the block, and its text shows no block. -/
theorem braceGenesis_not_found :
    (validateBlockForStorage braceEnv sampleAmbient ∅ .empty braceGenesis).1 = .ok () ∧
      (∀ record ∈ braceGenesis.records,
        ∃ content, record = parseRecordJson braceEnv content) ∧
      parseBlockJson braceEnv (blockJSON braceEnv braceGenesis) = [] ∧
      ¬ FoundInText braceEnv braceGenesis := by
  have parsed : ∀ record ∈ braceGenesis.records,
      record = parseRecordJson braceEnv (recordJSON braceEnv record) := by decide +kernel
  have unread : parseBlockJson braceEnv (blockJSON braceEnv braceGenesis) = [] := by
    decide +kernel
  refine ⟨by decide +kernel, fun record member => ⟨_, parsed record member⟩, unread, ?_⟩
  intro found
  obtain ⟨other, read, -⟩ := found
  rw [unread] at read
  cases read

end Sample

end Safire
