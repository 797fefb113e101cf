/-
What a record hash and a block hash fix.

Both preimages are fields in a row without separators, cut at the first NUL. Two
preimages that are read alike have the same fields exactly when the fields have
the same lengths and the unread ends agree. A Merkle root fixes the record hashes
below it where their number is known.
-/

import Safire.StoredChain

namespace Safire

open Text ChainValidator

variable {env : Env}

/-! ### Fields in a row -/

/-- The part of a string that a `char *` argument hides from the callee. -/
def unread (content : Text) : Text :=
  content.dropWhile (· ≠ '\x00')

theorem cString_append_unread (content : Text) : cString content ++ unread content = content :=
  List.takeWhile_append_dropWhile

theorem cString_of_plain {content : Text} (plain : '\x00' ∉ content) :
    cString content = content := by
  refine List.takeWhile_eq_self_iff.mpr fun byte member => ?_
  rw [decide_eq_true_eq]
  rintro rfl
  exact plain member

/-- Fields whose concatenations are read alike. -/
theorem fields_eq_iff {left right : List Text}
    (read : cString left.flatten = cString right.flatten) :
    left = right ↔
      left.map List.length = right.map List.length ∧ unread left.flatten = unread right.flatten := by
  constructor
  · rintro rfl
    exact ⟨rfl, rfl⟩
  · rintro ⟨lengths, ends⟩
    refine List.eq_iff_flatten_eq.mpr ⟨?_, lengths⟩
    rw [← cString_append_unread left.flatten, read, ends, cString_append_unread]

/-! ### Records -/

def nonceText (nonce : Int) : Text :=
  if 0 < nonce then ofLong nonce else []

/-- The fields that `getRecordHash` concatenates. -/
def recordHashFields (env : Env) (record : Record) : List Text :=
  [record.network, record.time, ofLong record.transactionType.code, nonceText record.nonce,
    env.doubleText record.amount, env.doubleText record.fee, record.senderPublicKey,
    record.recipientPublicKey, record.name, record.value]

/-- The string that `getRecordHash` hands to the digest. -/
def recordPreimage (env : Env) (record : Record) : Text :=
  cString (recordHashFields env record).flatten

theorem getRecordHash_eq (env : Env) (record : Record) :
    getRecordHash env record = env.sha256 (recordPreimage env record) := by
  simp only [getRecordHash, hashText, recordPreimage, recordHashFields, nonceText, List.flatten_cons,
    List.flatten_nil, List.append_assoc, List.append_nil]

structure RecordsAgree (left right : Record) : Prop where
  network : left.network = right.network
  time : left.time = right.time
  transactionType : left.transactionType = right.transactionType
  nonce : left.nonce = right.nonce
  amount : left.amount = right.amount
  fee : left.fee = right.fee
  senderPublicKey : left.senderPublicKey = right.senderPublicKey
  recipientPublicKey : left.recipientPublicKey = right.recipientPublicKey
  name : left.name = right.name
  value : left.value = right.value

theorem code_injective : Function.Injective TransactionType.code := by
  intro left right same
  cases left <;> cases right <;> first | rfl | exact absurd same (by decide)

theorem nonceText_injective {left right : Int} (leftBound : 0 ≤ left) (rightBound : 0 ≤ right)
    (same : nonceText left = nonceText right) : left = right := by
  unfold nonceText at same
  split at same
  · split at same
    · exact ofLong_injective same
    · exact absurd same (ofLong_ne_nil left)
  · split at same
    · exact absurd same.symm (ofLong_ne_nil right)
    · omega

theorem recordHashFields_eq_iff (doubles : Function.Injective env.doubleText) {left right : Record}
    (leftNonce : 0 ≤ left.nonce) (rightNonce : 0 ≤ right.nonce) :
    recordHashFields env left = recordHashFields env right ↔ RecordsAgree left right := by
  constructor
  · intro same
    simp only [recordHashFields, List.cons.injEq, and_true] at same
    obtain ⟨network, time, kind, nonce, amount, fee, sender, recipient, name, value⟩ := same
    exact ⟨network, time, code_injective (ofLong_injective kind),
      nonceText_injective leftNonce rightNonce nonce, doubles amount, doubles fee, sender,
      recipient, name, value⟩
  · intro agree
    rw [recordHashFields, recordHashFields, agree.network, agree.time, agree.transactionType, agree.nonce,
      agree.amount, agree.fee, agree.senderPublicKey, agree.recipientPublicKey, agree.name,
      agree.value]

/-- Two records with the same hashed string agree on every field, if and only if
their printed fields have the same lengths and their unread ends agree. -/
theorem record_preimage_binds_iff (env : Env) (doubles : Function.Injective env.doubleText)
    (left right : Record) (leftNonce : 0 ≤ left.nonce) (rightNonce : 0 ≤ right.nonce)
    (same : recordPreimage env left = recordPreimage env right) :
    RecordsAgree left right ↔
      (recordHashFields env left).map List.length = (recordHashFields env right).map List.length ∧
        unread (recordHashFields env left).flatten = unread (recordHashFields env right).flatten := by
  rw [← recordHashFields_eq_iff doubles leftNonce rightNonce, fields_eq_iff same]

namespace Sample

/-- The spend with its nonce moved in front of the amount. -/
def respelledSpend : Record :=
  { spend with nonce := 0, amount := 21 / 2 }

theorem respelled_same :
    recordPreimage Sample.env spend = recordPreimage Sample.env respelledSpend ∧
      recordSizeError Sample.env spend = "" ∧ recordSizeError Sample.env respelledSpend = "" := by
  decide +kernel

/-- A signed transfer of one half is also one of ten and a half. -/
theorem respelled_record_differs :
    Function.Injective Sample.env.doubleText ∧
      recordSizeError Sample.env spend = "" ∧ recordSizeError Sample.env respelledSpend = "" ∧
      spend.senderPublicKey ≠ [] ∧ respelledSpend.senderPublicKey ≠ [] ∧
      0 ≤ spend.nonce ∧ 0 ≤ respelledSpend.nonce ∧
      recordPreimage Sample.env spend = recordPreimage Sample.env respelledSpend ∧
      ¬ RecordsAgree spend respelledSpend := by
  obtain ⟨same, small, smallToo⟩ := respelled_same
  refine ⟨doubleText_injective, small, smallToo, by decide, by decide, by decide, by decide,
    same, fun agree => ?_⟩
  exact absurd agree.nonce (by decide)

theorem respelled_record_binds_iff :
    recordPreimage Sample.env spend = recordPreimage Sample.env respelledSpend ∧
      (RecordsAgree spend respelledSpend ↔
        (recordHashFields Sample.env spend).map List.length =
            (recordHashFields Sample.env respelledSpend).map List.length ∧
          unread (recordHashFields Sample.env spend).flatten =
            unread (recordHashFields Sample.env respelledSpend).flatten) := by
  exact ⟨respelled_same.1, record_preimage_binds_iff Sample.env doubleText_injective spend
    respelledSpend (by decide) (by decide) respelled_same.1⟩

end Sample

/-! ### Merkle roots -/

/-- The texts that one round of the Merkle loop hashes. -/
def levelTexts : List Text → List Text
  | [] => []
  | [left] => [left ++ left]
  | left :: right :: rest => (left ++ right) :: levelTexts rest

theorem merkleLevel_eq (env : Env) (level : List Text) :
    merkleLevel env level = (levelTexts level).map (hashText env) := by
  induction level using levelTexts.induct with
  | case1 => rfl
  | case2 left => rfl
  | case3 left right rest ih => rw [merkleLevel, levelTexts, List.map_cons, ih]

theorem length_levelTexts (level : List Text) :
    (levelTexts level).length = (level.length + 1) / 2 := by
  induction level using levelTexts.induct with
  | case1 => rfl
  | case2 left => simp [levelTexts]
  | case3 left right rest ih =>
      rw [levelTexts, List.length_cons, ih, List.length_cons, List.length_cons]
      omega

/-- The texts that all rounds hash. -/
def merkleTexts (env : Env) : Nat → List Text → List Text
  | 0, _ => []
  | rounds + 1, level =>
      if 1 < level.length then
        (levelTexts level).map cString ++ merkleTexts env rounds (merkleLevel env level)
      else []

/-- What the code relies on for the texts it hashes: their digests differ, have 64
characters and contain no NUL. -/
structure Digests (env : Env) (texts : List Text) : Prop where
  apart : ∀ left ∈ texts, ∀ right ∈ texts, env.sha256 left = env.sha256 right → left = right
  width : ∀ text ∈ texts, (env.sha256 text).length = 64
  plain : ∀ text ∈ texts, '\x00' ∉ env.sha256 text

theorem Digests.mono {texts fewer : List Text} (digests : Digests env texts)
    (inside : fewer ⊆ texts) : Digests env fewer :=
  ⟨fun left leftMember right rightMember =>
      digests.apart left (inside leftMember) right (inside rightMember),
    fun text member => digests.width text (inside member),
    fun text member => digests.plain text (inside member)⟩

theorem Digests.mono_append {left right fewerLeft fewerRight : List Text}
    (digests : Digests env (left ++ right)) (insideLeft : fewerLeft ⊆ left)
    (insideRight : fewerRight ⊆ right) : Digests env (fewerLeft ++ fewerRight) := by
  refine digests.mono (List.append_subset.mpr ⟨?_, ?_⟩)
  · exact fun text member => List.mem_append_left _ (insideLeft member)
  · exact fun text member => List.mem_append_right _ (insideRight member)

/-- Entries of a level: digests of some texts. -/
structure DigestLevel (level : List Text) : Prop where
  width : ∀ entry ∈ level, entry.length = 64
  plain : ∀ entry ∈ level, '\x00' ∉ entry

theorem DigestLevel.tail {first : Text} {level : List Text}
    (digests : DigestLevel (first :: level)) : DigestLevel level :=
  ⟨fun entry member => digests.width entry (List.mem_cons_of_mem _ member),
    fun entry member => digests.plain entry (List.mem_cons_of_mem _ member)⟩

/-- The pairs of a level are read whole. -/
theorem cString_levelTexts {level : List Text} (plain : ∀ entry ∈ level, '\x00' ∉ entry) :
    (levelTexts level).map cString = levelTexts level := by
  induction level using levelTexts.induct with
  | case1 => rfl
  | case2 left =>
      have leftPlain := plain left (by simp)
      rw [levelTexts, List.map_singleton, cString_of_plain (by simp [leftPlain])]
  | case3 left right rest ih =>
      have leftPlain := plain left (by simp)
      have rightPlain := plain right (by simp)
      rw [levelTexts, List.map_cons, cString_of_plain (by simp [leftPlain, rightPlain]),
        ih fun entry member => plain entry (by simp [member])]

/-- A level is fixed by its size and its pairs. -/
theorem levelTexts_injective {left right : List Text} (sizes : left.length = right.length)
    (leftDigests : DigestLevel left) (rightDigests : DigestLevel right)
    (same : levelTexts left = levelTexts right) : left = right := by
  induction left using levelTexts.induct generalizing right with
  | case1 => exact (List.length_eq_zero_iff.mp sizes.symm).symm
  | case2 first =>
      obtain ⟨other, rfl⟩ := List.length_eq_one_iff.mp sizes.symm
      have widths := (leftDigests.width first (by simp)).trans
        (rightDigests.width other (by simp)).symm
      rw [levelTexts, levelTexts, List.cons.injEq] at same
      rw [(List.append_inj same.1 widths).1]
  | case3 first second rest ih =>
      match right, sizes with
      | firstOther :: secondOther :: restOther, sizes =>
          have widths := (leftDigests.width first (by simp)).trans
            (rightDigests.width firstOther (by simp)).symm
          rw [levelTexts, levelTexts, List.cons.injEq] at same
          obtain ⟨firstSame, secondSame⟩ := List.append_inj same.1 widths
          rw [firstSame, secondSame, ih (by simpa using sizes) leftDigests.tail.tail
            rightDigests.tail.tail same.2]

theorem digestLevel_merkleLevel {texts level : List Text} (digests : Digests env texts)
    (hashed : (levelTexts level).map cString ⊆ texts) : DigestLevel (merkleLevel env level) := by
  rw [merkleLevel_eq]
  constructor
  · intro entry member
    obtain ⟨text, listed, rfl⟩ := List.mem_map.mp member
    exact digests.width _ (hashed (List.mem_map_of_mem listed))
  · intro entry member
    obtain ⟨text, listed, rfl⟩ := List.mem_map.mp member
    exact digests.plain _ (hashed (List.mem_map_of_mem listed))

/-- Two levels of one size with the same pairs hashed to the same digests. -/
theorem merkleLevel_injective {texts left right : List Text} (digests : Digests env texts)
    (leftHashed : (levelTexts left).map cString ⊆ texts)
    (rightHashed : (levelTexts right).map cString ⊆ texts) (sizes : left.length = right.length)
    (leftDigests : DigestLevel left) (rightDigests : DigestLevel right)
    (same : merkleLevel env left = merkleLevel env right) : left = right := by
  refine levelTexts_injective sizes leftDigests rightDigests ?_
  rw [← cString_levelTexts leftDigests.plain, ← cString_levelTexts rightDigests.plain]
  rw [merkleLevel_eq, merkleLevel_eq] at same
  have hashed : ((levelTexts left).map cString).map env.sha256 =
      ((levelTexts right).map cString).map env.sha256 := by
    rw [List.map_map, List.map_map]
    exact same
  have lengths : ((levelTexts left).map cString).length =
      ((levelTexts right).map cString).length := by
    simpa using congrArg List.length hashed
  refine List.ext_getElem lengths fun index leftBound rightBound => ?_
  refine digests.apart _ (leftHashed (List.getElem_mem leftBound)) _
    (rightHashed (List.getElem_mem rightBound)) ?_
  have entries := List.getElem_of_eq hashed (by rwa [List.length_map])
  simpa only [List.getElem_map] using entries

/-- A root fixes the level below it, whose size is known. -/
theorem merkleRounds_injective {texts : List Text} (digests : Digests env texts) (rounds : Nat) :
    ∀ {left right : List Text}, merkleTexts env rounds left ⊆ texts →
      merkleTexts env rounds right ⊆ texts → left.length = right.length →
      left.length ≤ rounds → DigestLevel left → DigestLevel right →
      (merkleRounds env rounds left).headD [] = (merkleRounds env rounds right).headD [] →
      left = right := by
  induction rounds with
  | zero =>
      intro left right _ _ sizes bound _ _ _
      rw [List.length_eq_zero_iff.mp (Nat.le_zero.mp bound)] at sizes ⊢
      exact (List.length_eq_zero_iff.mp sizes.symm).symm
  | succ rounds ih =>
      intro left right leftTexts rightTexts sizes bound leftDigests rightDigests same
      rw [merkleTexts] at leftTexts rightTexts
      rw [merkleRounds, merkleRounds, ← sizes] at same
      by_cases several : 1 < left.length
      · rw [if_pos several] at leftTexts same
        rw [if_pos several] at same
        rw [← sizes, if_pos several] at rightTexts
        obtain ⟨leftHere, leftLater⟩ := List.append_subset.mp leftTexts
        obtain ⟨rightHere, rightLater⟩ := List.append_subset.mp rightTexts
        have shrunk : ∀ level : List Text, (merkleLevel env level).length = (level.length + 1) / 2 := by
          intro level
          rw [merkleLevel_eq, List.length_map, length_levelTexts]
        refine merkleLevel_injective digests leftHere rightHere sizes leftDigests rightDigests ?_
        refine ih leftLater rightLater ?_ ?_ (digestLevel_merkleLevel digests leftHere)
          (digestLevel_merkleLevel digests rightHere) same
        · rw [shrunk, shrunk, sizes]
        · rw [shrunk]
          omega
      · rw [if_neg several, if_neg several] at same
        match left, right, sizes with
        | [], [], _ => rfl
        | [first], [other], _ =>
            rw [List.headD_cons, List.headD_cons] at same
            rw [same]
        | first :: second :: rest, _, _ => exact absurd several (by simp)

/-! ### Blocks -/

/-- The fields that `getBlockHash` concatenates. -/
def blockHashFields (env : Env) (block : Block) : List Text :=
  block.network :: ofLong block.number :: block.time :: block.previousBlockHash ::
    block.creatorKey :: block.recordsMerkleRoot ::
    if block.recordsMerkleRoot.length = 0 then block.records.map (recordHashOrComputed env) else []

/-- The string that `getBlockHash` hands to the digest. -/
def blockPreimage (env : Env) (block : Block) : Text :=
  cString (blockHashFields env block).flatten

theorem getBlockHash_eq (env : Env) (block : Block) :
    getBlockHash env block = env.sha256 (blockPreimage env block) := by
  rw [getBlockHash, hashText, blockPreimage, blockHashFields]
  congr 2
  split
  · simp only [List.flatten_cons, List.append_assoc, List.flatMap_def]
  · simp only [List.flatten_cons, List.flatten_nil, List.append_assoc]

/-- The hash checks of the envelope and of the record loop. -/
structure HashesMatch (env : Env) (block : Block) : Prop where
  root : 0 < block.recordsMerkleRoot.length →
    getRecordsMerkleRoot env block.records = block.recordsMerkleRoot
  header : getBlockHash env block = block.hash
  records : ∀ record ∈ block.records, getRecordHash env record = record.hash

/-- The strings that these checks hash. -/
def hashedTexts (env : Env) (block : Block) : List Text :=
  blockPreimage env block :: block.records.map (recordPreimage env) ++
    merkleTexts env block.records.length (block.records.map Record.hash)

structure BlocksAgree (left right : Block) : Prop where
  network : left.network = right.network
  number : left.number = right.number
  time : left.time = right.time
  previousBlockHash : left.previousBlockHash = right.previousBlockHash
  creatorKey : left.creatorKey = right.creatorKey
  recordsMerkleRoot : left.recordsMerkleRoot = right.recordsMerkleRoot
  recordHashes : left.records.map Record.hash = right.records.map Record.hash

/-- The same number of records and of characters in each field, and the same
unread end. -/
structure SameShape (env : Env) (left right : Block) : Prop where
  lengths : (blockHashFields env left).map List.length = (blockHashFields env right).map List.length
  records : left.records.length = right.records.length
  ends : unread (blockHashFields env left).flatten = unread (blockHashFields env right).flatten

theorem HashesMatch.computed {block : Block} (matching : HashesMatch env block) :
    block.records.map (recordHashOrComputed env) = block.records.map Record.hash := by
  refine List.map_congr_left fun record member => ?_
  rw [recordHashOrComputed]
  split
  · exact matching.records record member
  · rfl

theorem HashesMatch.digestLevel {block : Block} (matching : HashesMatch env block)
    (digests : Digests env (hashedTexts env block)) :
    DigestLevel (block.records.map Record.hash) := by
  have listed : ∀ record ∈ block.records, recordPreimage env record ∈ hashedTexts env block :=
    fun record member => List.mem_append_left _ (List.mem_cons_of_mem _ (List.mem_map_of_mem member))
  constructor
  · intro entry member
    obtain ⟨record, inside, rfl⟩ := List.mem_map.mp member
    rw [← matching.records record inside, getRecordHash_eq]
    exact digests.width _ (listed record inside)
  · intro entry member
    obtain ⟨record, inside, rfl⟩ := List.mem_map.mp member
    rw [← matching.records record inside, getRecordHash_eq]
    exact digests.plain _ (listed record inside)

/-- A matching root is the one of the carried hashes. -/
theorem HashesMatch.merkleRoot {block : Block} (matching : HashesMatch env block)
    (rooted : 0 < block.recordsMerkleRoot.length) (present : block.records ≠ []) :
    (merkleRounds env block.records.length (block.records.map Record.hash)).headD [] =
      block.recordsMerkleRoot := by
  have root := matching.root rooted
  rw [getRecordsMerkleRoot, if_neg present] at root
  dsimp only at root
  rwa [matching.computed, List.length_map] at root

section Bind

variable {left right : Block} (leftMatch : HashesMatch env left) (rightMatch : HashesMatch env right)
variable (digests : Digests env (hashedTexts env left ++ hashedTexts env right))
include leftMatch rightMatch

theorem BlocksAgree.fields (agree : BlocksAgree left right) :
    blockHashFields env left = blockHashFields env right := by
  rw [blockHashFields, blockHashFields, leftMatch.computed, rightMatch.computed, agree.network,
    agree.number, agree.time, agree.previousBlockHash, agree.creatorKey, agree.recordsMerkleRoot,
    agree.recordHashes]

include digests

/-- Equal roots over equally many records stand over the same hashes. -/
theorem recordHashes_of_root (roots : left.recordsMerkleRoot = right.recordsMerkleRoot)
    (rooted : 0 < left.recordsMerkleRoot.length)
    (sizes : left.records.length = right.records.length) :
    left.records.map Record.hash = right.records.map Record.hash := by
  by_cases empty : left.records = []
  · have otherEmpty : right.records = [] := List.length_eq_zero_iff.mp (by rw [← sizes, empty]; rfl)
    rw [empty, otherEmpty]
  · have otherPresent : right.records ≠ [] := by
      intro none
      exact empty (List.length_eq_zero_iff.mp (by rw [sizes, none]; rfl))
    have leftRoot := leftMatch.merkleRoot rooted empty
    have rightRoot := rightMatch.merkleRoot (roots ▸ rooted) otherPresent
    rw [← sizes] at rightRoot
    refine merkleRounds_injective digests left.records.length ?_ ?_ (by simpa using sizes)
      (by simp) (leftMatch.digestLevel (digests.mono (List.subset_append_left _ _)))
      (rightMatch.digestLevel (digests.mono (List.subset_append_right _ _)))
      (leftRoot.trans (roots.trans rightRoot.symm))
    · exact fun text member => List.mem_append_left _ (List.mem_append_right _ member)
    · intro text member
      rw [sizes] at member
      exact List.mem_append_right _ (List.mem_append_right _ member)

theorem blocksAgree_of_fields (same : blockHashFields env left = blockHashFields env right)
    (sizes : left.records.length = right.records.length) : BlocksAgree left right := by
  simp only [blockHashFields, List.cons.injEq] at same
  obtain ⟨network, number, time, previousHash, creator, root, hashes⟩ := same
  refine ⟨network, ofLong_injective number, time, previousHash, creator, root, ?_⟩
  by_cases legacy : left.recordsMerkleRoot.length = 0
  · rwa [if_pos legacy, if_pos (root ▸ legacy), leftMatch.computed, rightMatch.computed] at hashes
  · exact recordHashes_of_root leftMatch rightMatch digests root (Nat.pos_of_ne_zero legacy) sizes

end Bind

/-- One hash, one block, where the shapes agree. -/
theorem blocksAgree_iff {left right : Block} (leftMatch : HashesMatch env left)
    (rightMatch : HashesMatch env right)
    (digests : Digests env (hashedTexts env left ++ hashedTexts env right))
    (same : left.hash = right.hash) : BlocksAgree left right ↔ SameShape env left right := by
  have read : blockPreimage env left = blockPreimage env right := by
    refine digests.apart _ (List.mem_append_left _ List.mem_cons_self) _
      (List.mem_append_right _ List.mem_cons_self) ?_
    rw [← getBlockHash_eq, ← getBlockHash_eq, leftMatch.header, rightMatch.header, same]
  constructor
  · intro agree
    have fields := agree.fields leftMatch rightMatch
    refine ⟨by rw [fields], ?_, by rw [fields]⟩
    simpa using congrArg List.length agree.recordHashes
  · intro shape
    exact blocksAgree_of_fields leftMatch rightMatch digests
      ((fields_eq_iff read).mpr ⟨shape.lengths, shape.ends⟩) shape.records

/-! ### Chains -/

def tipHash (chain : List Block) : Option Text :=
  chain.getLast?.map Block.hash

/-- The strings that are hashed to check two chains. -/
def chainTexts (env : Env) (chain : List Block) : List Text :=
  chain.flatMap (hashedTexts env)

theorem hashedTexts_subset {chain : List Block} {block : Block} (member : block ∈ chain) :
    hashedTexts env block ⊆ chainTexts env chain :=
  fun _ listed => List.mem_flatMap.mpr ⟨block, member, listed⟩

theorem chainTexts_subset_append (before after : List Block) :
    chainTexts env before ⊆ chainTexts env (before ++ after) := by
  rw [chainTexts, chainTexts, List.flatMap_append]
  exact List.subset_append_left _ _

theorem hashesMatch_of_connected {chain : List Block} {state : BranchState}
    (connected : connectChain env chain = .ok state) {block : Block} (member : block ∈ chain) :
    HashesMatch env block := by
  have checked := envelope_of_connected connected member
  unfold checkEnvelope at checked
  split_ifs at checked with _ _ _ rootWrong hashWrong _ _
  refine ⟨fun rooted => ?_, not_ne_iff.mp hashWrong, fun record listed => ?_⟩
  · by_contra differs
    exact rootWrong ⟨rooted, differs⟩
  · obtain ⟨_, _, _, accepted⟩ := entry_connected connected
      (mem_chainEntries.mpr ⟨member, listed⟩ : (block, record) ∈ chainEntries chain)
    exact accepted.hashed

/-- The parent hash of a tip is the hash of the chain below it. -/
theorem previousBlockHash_of_connected {before : List Block} {tip : Block} {state : BranchState}
    (connected : connectChain env (before ++ [tip]) = .ok state) :
    tip.previousBlockHash = (tipHash before).getD [] := by
  obtain ⟨below, start, stepped⟩ := connectChain_snoc_ok_iff.mp connected
  have link := (checkHeader_ok_iff.mp (connectBlock_ok_iff.mp stepped).1).2
  rw [tipHash]
  cases last : before.getLast? with
  | none =>
      rw [List.getLast?_eq_none_iff.mp last] at link
      exact (checkLink_genesis link).2.1
  | some parent => exact (checkLink_parent last link).2.2

/-- No hash of a connected chain is empty, so an empty parent hash has no parent. -/
theorem tipHash_of_getD {left right : List Block} {leftState rightState : BranchState}
    (leftConnected : connectChain env left = .ok leftState)
    (rightConnected : connectChain env right = .ok rightState)
    (same : (tipHash left).getD [] = (tipHash right).getD []) : tipHash left = tipHash right := by
  have present : ∀ {chain : List Block} {state : BranchState},
      connectChain env chain = .ok state → tipHash chain ≠ some [] := by
    intro chain state connected empty
    obtain ⟨tip, last, hash⟩ := Option.map_eq_some_iff.mp empty
    exact hashes_of_connected connected tip (List.mem_of_getLast? last) hash
  have leftPresent := present leftConnected
  have rightPresent := present rightConnected
  cases leftTip : tipHash left with
  | none =>
      cases rightTip : tipHash right with
      | none => rfl
      | some hash =>
          rw [leftTip, rightTip] at same
          exact absurd (by rw [rightTip, ← show [] = hash from same]) rightPresent
  | some hash =>
      cases rightTip : tipHash right with
      | none =>
          rw [leftTip, rightTip] at same
          exact absurd (by rw [leftTip, show hash = [] from same]) leftPresent
      | some other =>
          rw [leftTip, rightTip] at same
          exact congrArg some same

/-- Walking both chains down from one tip hash. -/
theorem chainsAgree_iff (left : List Block) : ∀ {right : List Block}
    {leftState rightState : BranchState}, connectChain env left = .ok leftState →
      connectChain env right = .ok rightState →
      Digests env (chainTexts env left ++ chainTexts env right) → tipHash left = tipHash right →
      (List.Forall₂ BlocksAgree left.reverse right.reverse ↔
        ∀ pair ∈ left.reverse.zip right.reverse, SameShape env pair.1 pair.2) := by
  induction left using List.reverseRecOn with
  | nil =>
      intro right leftState rightState _ _ _ same
      have empty : right = [] := by
        rw [tipHash, tipHash, List.getLast?_nil, Option.map_none] at same
        exact List.getLast?_eq_none_iff.mp (Option.map_eq_none_iff.mp same.symm)
      rw [empty]
      simp
  | append_singleton before tip ih =>
      intro right leftState rightState leftConnected rightConnected digests same
      induction right using List.reverseRecOn with
      | nil => simp [tipHash] at same
      | append_singleton beforeOther tipOther _ =>
          have hashes : tip.hash = tipOther.hash := by simpa [tipHash] using same
          obtain ⟨below, leftBelow⟩ := connectChain_prefix leftConnected
          obtain ⟨belowOther, rightBelow⟩ := connectChain_prefix rightConnected
          have tips := blocksAgree_iff (hashesMatch_of_connected leftConnected (by simp))
            (hashesMatch_of_connected rightConnected (by simp))
            (digests.mono_append (hashedTexts_subset (by simp)) (hashedTexts_subset (by simp)))
            hashes
          have lower : BlocksAgree tip tipOther →
              (List.Forall₂ BlocksAgree before.reverse beforeOther.reverse ↔
                ∀ pair ∈ before.reverse.zip beforeOther.reverse,
                  SameShape env pair.1 pair.2) := by
            intro agree
            refine ih leftBelow rightBelow (digests.mono_append (chainTexts_subset_append _ _)
              (chainTexts_subset_append _ _)) ?_
            refine tipHash_of_getD leftBelow rightBelow ?_
            rw [← previousBlockHash_of_connected leftConnected,
              ← previousBlockHash_of_connected rightConnected, agree.previousBlockHash]
          simp only [List.reverse_append, List.reverse_singleton, List.singleton_append,
            List.zip_cons_cons, List.forall₂_cons, List.forall_mem_cons]
          rw [← tips]
          exact and_congr_right lower

/-- Two blocks with one hash agree on everything that it covers, if and only if
they have the same shape; and two accepted chains with one tip hash agree block by
block, if and only if the blocks at the same distance from the tip do. -/
theorem block_hash_binds_iff (env : Env) :
    (∀ left right : Block, HashesMatch env left → HashesMatch env right →
      Digests env (hashedTexts env left ++ hashedTexts env right) → left.hash = right.hash →
      (BlocksAgree left right ↔ SameShape env left right)) ∧
    ∀ left right : List Block, Accepts env left → Accepts env right →
      Digests env (chainTexts env left ++ chainTexts env right) → tipHash left = tipHash right →
      (List.Forall₂ BlocksAgree left right ↔
        ∀ pair ∈ left.reverse.zip right.reverse, SameShape env pair.1 pair.2) := by
  refine ⟨fun left right leftMatch rightMatch digests same =>
    blocksAgree_iff leftMatch rightMatch digests same, ?_⟩
  intro left right leftAccepted rightAccepted digests same
  obtain ⟨-, leftState, leftConnected⟩ := accepts_iff.mp leftAccepted
  obtain ⟨-, rightState, rightConnected⟩ := accepts_iff.mp rightAccepted
  rw [← List.forall₂_reverse_iff]
  exact chainsAgree_iff left leftConnected rightConnected digests same

namespace Sample

theorem accepts_legacyBlock : Accepts Sample.env [genesis, legacyBlock] :=
  accepts_child 8 rfl

theorem hash_checks :
    HashesMatch Sample.env validSpend ∧ HashesMatch Sample.env legacyBlock ∧
      Digests Sample.env (chainTexts Sample.env [genesis, validSpend] ++
        chainTexts Sample.env [genesis, legacyBlock]) := by
  have spends : HashesMatch Sample.env validSpend :=
    ⟨fun _ => by decide +kernel, by decide +kernel, by decide +kernel⟩
  have legacy : HashesMatch Sample.env legacyBlock :=
    ⟨fun rooted => absurd rooted (by decide), by decide +kernel, spends.records⟩
  exact ⟨spends, legacy, by decide +kernel, by decide +kernel, by decide +kernel⟩

theorem hashesMatch_validSpend : HashesMatch Sample.env validSpend :=
  hash_checks.1

theorem hashesMatch_legacyBlock : HashesMatch Sample.env legacyBlock :=
  hash_checks.2.1

/-- The root over a single record is its hash: the block with the root and the block
without it have one preimage, and each is the tip of an accepted chain. -/
theorem rootless_block_differs :
    Function.Injective Sample.env.sha256 ∧
      HashesMatch Sample.env validSpend ∧ HashesMatch Sample.env legacyBlock ∧
      Accepts Sample.env [genesis, validSpend] ∧ Accepts Sample.env [genesis, legacyBlock] ∧
      validSpend.hash = legacyBlock.hash ∧ ¬ BlocksAgree validSpend legacyBlock := by
  refine ⟨sha256_injective, hashesMatch_validSpend, hashesMatch_legacyBlock, accepts_validSpend,
    accepts_legacyBlock, rfl, fun agree => ?_⟩
  exact absurd agree.recordsMerkleRoot (by decide)

theorem digests_of_samples :
    Digests Sample.env (chainTexts Sample.env [genesis, validSpend] ++
      chainTexts Sample.env [genesis, legacyBlock]) :=
  hash_checks.2.2

theorem rootless_block_binds_iff :
    (BlocksAgree validSpend legacyBlock ↔ SameShape Sample.env validSpend legacyBlock) ∧
      (List.Forall₂ BlocksAgree [genesis, validSpend] [genesis, legacyBlock] ↔
        ∀ pair ∈ [validSpend, genesis].zip [legacyBlock, genesis],
          SameShape Sample.env pair.1 pair.2) := by
  refine ⟨(block_hash_binds_iff Sample.env).1 validSpend legacyBlock hashesMatch_validSpend
    hashesMatch_legacyBlock (digests_of_samples.mono_append (hashedTexts_subset (by simp))
      (hashedTexts_subset (by simp))) rfl, ?_⟩
  exact (block_hash_binds_iff Sample.env).2 [genesis, validSpend] [genesis, legacyBlock]
    accepts_validSpend accepts_legacyBlock digests_of_samples rfl

end Sample

end Safire
