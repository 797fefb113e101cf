/-
What a Merkle root fixes without the number of records.

The last hash of an odd level is joined with itself, so lists that repeat a hash
can share a root. Lists of distinct hashes share one only if a hash in one of them
is itself the digest of two joined hashes, as the hashes of an upper level are.
-/

import Safire.HashBinding
import Safire.Library.PairTree

namespace Safire

open Text

variable {env : Env}

/-! ### The tree of joined hashes -/

/-- The hash of two hashes in a row. -/
def joinHashes (env : Env) (left right : Text) : Text :=
  hashText env (left ++ right)

theorem merkleLevel_eq_level (env : Env) (level : List Text) :
    merkleLevel env level = PairTree.level (joinHashes env) level := by
  induction level using merkleLevel.induct with
  | case1 => rfl
  | case2 left => rfl
  | case3 left right rest ih =>
      rw [merkleLevel, ih]
      rfl

theorem merkleRounds_eq_rounds (env : Env) (rounds : Nat) (level : List Text) :
    merkleRounds env rounds level = PairTree.rounds (joinHashes env) rounds level := by
  induction rounds generalizing level with
  | zero => rfl
  | succ rounds ih => rw [merkleRounds, PairTree.rounds, ih, merkleLevel_eq_level]

theorem levelTexts_eq_pairs (level : List Text) :
    levelTexts level = (PairTree.pairs level).map (fun pair => pair.1 ++ pair.2) := by
  induction level using levelTexts.induct with
  | case1 => rfl
  | case2 left => rfl
  | case3 left right rest ih =>
      rw [levelTexts, ih]
      rfl

/-- Two whole hashes whose joined text is hashed. -/
structure HashedPair (texts : List Text) (pair : Text × Text) : Prop where
  leftWidth : pair.1.length = 64
  rightWidth : pair.2.length = 64
  plain : '\x00' ∉ pair.1 ++ pair.2
  listed : pair.1 ++ pair.2 ∈ texts

theorem HashedPair.width {texts : List Text} {pair : Text × Text} (hashed : HashedPair texts pair) :
    (pair.1 ++ pair.2).length = 128 := by
  rw [List.length_append, hashed.leftWidth, hashed.rightWidth]

theorem HashedPair.joined {texts : List Text} {pair : Text × Text} (hashed : HashedPair texts pair) :
    joinHashes env pair.1 pair.2 = env.sha256 (pair.1 ++ pair.2) := by
  rw [joinHashes, hashText, cString_of_plain hashed.plain]

theorem joinHashes_injective {texts : List Text} (digests : Digests env texts) :
    PairTree.Injective (joinHashes env) (HashedPair texts) := by
  intro left right leftHashed rightHashed same
  rw [leftHashed.joined, rightHashed.joined] at same
  have equal := digests.apart _ leftHashed.listed _ rightHashed.listed same
  have widths := leftHashed.leftWidth.trans rightHashed.leftWidth.symm
  obtain ⟨first, second⟩ := List.append_inj equal widths
  exact Prod.ext first second

theorem hashedPair_of_level {texts level : List Text} (whole : DigestLevel level)
    (hashed : (levelTexts level).map cString ⊆ texts) :
    ∀ pair ∈ PairTree.pairs level, HashedPair texts pair := by
  intro pair member
  obtain ⟨left, right⟩ := PairTree.mem_of_mem_pairs member
  rw [cString_levelTexts whole.plain, levelTexts_eq_pairs] at hashed
  constructor
  · exact whole.width _ left
  · exact whole.width _ right
  · rw [List.mem_append]
    intro marked
    exact marked.elim (whole.plain _ left) (whole.plain _ right)
  · exact hashed (List.mem_map_of_mem member)

theorem covers_of_merkleTexts {texts : List Text} (digests : Digests env texts) {rounds : Nat}
    {level : List Text} (whole : DigestLevel level) (hashed : merkleTexts env rounds level ⊆ texts) :
    PairTree.Covers (joinHashes env) (HashedPair texts) rounds level := by
  induction rounds generalizing level with
  | zero => trivial
  | succ rounds ih =>
      intro several
      rw [merkleTexts, if_pos several] at hashed
      obtain ⟨here, later⟩ := List.append_subset.mp hashed
      rw [← merkleLevel_eq_level]
      exact ⟨hashedPair_of_level whole here, ih (digestLevel_merkleLevel digests here) later⟩

/-! ### Record lists -/

/-- Records whose hashes are whole digests, no two of them alike. -/
structure DistinctHashes (records : List Record) : Prop where
  present : records ≠ []
  width : ∀ record ∈ records, record.hash.length = 64
  plain : ∀ record ∈ records, '\x00' ∉ record.hash
  distinct : (records.map Record.hash).Nodup

theorem DistinctHashes.digestLevel {records : List Record} (hashes : DistinctHashes records) :
    DigestLevel (records.map Record.hash) := by
  constructor
  · intro entry member
    obtain ⟨record, inside, rfl⟩ := List.mem_map.mp member
    exact hashes.width record inside
  · intro entry member
    obtain ⟨record, inside, rfl⟩ := List.mem_map.mp member
    exact hashes.plain record inside

/-- Records with hashes are not hashed again below the root. -/
theorem getRecordsMerkleRoot_of_width {records : List Record} (present : records ≠ [])
    (width : ∀ record ∈ records, record.hash.length = 64) :
    getRecordsMerkleRoot env records =
      (merkleRounds env records.length (records.map Record.hash)).headD [] := by
  have carried : records.map (recordHashOrComputed env) = records.map Record.hash := by
    apply List.map_congr_left
    intro record member
    have long := width record member
    rw [recordHashOrComputed, if_neg]
    intro empty
    rw [empty, List.length_nil] at long
    omega
  rw [getRecordsMerkleRoot, if_neg present]
  dsimp only
  rw [carried, List.length_map]

/-- The texts that the root of a record list hashes. -/
def rootTexts (env : Env) (records : List Record) : List Text :=
  merkleTexts env records.length (records.map Record.hash)

/-- A list of hashes above another one holds digests of two joined hashes. -/
theorem joined_of_above {texts : List Text} {upper lower : List Record} (present : upper ≠ [])
    (above : PairTree.Above (joinHashes env) (HashedPair texts) (lower.map Record.hash)
      (upper.map Record.hash)) :
    ∃ record ∈ upper, ∃ text : Text, text.length = 128 ∧ record.hash = env.sha256 text := by
  obtain ⟨record, inside⟩ := List.exists_mem_of_ne_nil upper present
  obtain ⟨pair, hashed, same⟩ := above.joined record.hash (List.mem_map_of_mem inside)
  exact ⟨record, inside, pair.1 ++ pair.2, hashed.width, same.trans hashed.joined⟩

/-- Equal roots stand over the same hashes in the same order, or a record hash is
the digest of a text of 128 characters. -/
theorem merkle_root_binds_records (env : Env) (left right : List Record)
    (leftHashes : DistinctHashes left) (rightHashes : DistinctHashes right)
    (digests : Digests env (rootTexts env left ++ rootTexts env right))
    (same : getRecordsMerkleRoot env left = getRecordsMerkleRoot env right) :
    left.map Record.hash = right.map Record.hash ∨
      ∃ record ∈ left ++ right, ∃ text : Text, text.length = 128 ∧
        record.hash = env.sha256 text := by
  have leftCovers := covers_of_merkleTexts digests leftHashes.digestLevel
    (List.subset_append_left (rootTexts env left) (rootTexts env right))
  have rightCovers := covers_of_merkleTexts digests rightHashes.digestLevel
    (List.subset_append_right (rootTexts env left) (rootTexts env right))
  have leftPresent : left.map Record.hash ≠ [] := by simpa using leftHashes.present
  have rightPresent : right.map Record.hash ≠ [] := by simpa using rightHashes.present
  have leftEnough : (left.map Record.hash).length ≤ left.length := by simp
  have rightEnough : (right.map Record.hash).length ≤ right.length := by simp
  rw [getRecordsMerkleRoot_of_width leftHashes.present leftHashes.width,
    getRecordsMerkleRoot_of_width rightHashes.present rightHashes.width,
    merkleRounds_eq_rounds, merkleRounds_eq_rounds] at same
  -- Both ends of the rounds have one entry, which the root shows.
  obtain ⟨leftRoot, leftEnds, -⟩ := PairTree.rounds_above leftEnough leftPresent leftCovers
  obtain ⟨rightRoot, rightEnds, -⟩ := PairTree.rounds_above rightEnough rightPresent rightCovers
  have ends : PairTree.rounds (joinHashes env) left.length (left.map Record.hash) =
      PairTree.rounds (joinHashes env) right.length (right.map Record.hash) := by
    rw [leftEnds, rightEnds] at same ⊢
    rw [show leftRoot = rightRoot from same]
  cases PairTree.eq_or_above (joinHashes_injective digests) leftEnough rightEnough leftPresent
    rightPresent leftHashes.distinct rightHashes.distinct leftCovers rightCovers ends with
  | inl equal => exact .inl equal
  | inr above =>
      right
      cases above with
      | inl below =>
          obtain ⟨record, inside, joined⟩ := joined_of_above rightHashes.present below
          exact ⟨record, List.mem_append_right _ inside, joined⟩
      | inr higher =>
          obtain ⟨record, inside, joined⟩ := joined_of_above leftHashes.present higher
          exact ⟨record, List.mem_append_left _ inside, joined⟩

namespace Sample

def hashedRecord (hash : Text) : Record :=
  { Sample.spend with hash := hash }

def lowHash : Text :=
  List.replicate 64 '1'

def highHash : Text :=
  List.replicate 64 '2'

/-- The digest of the two hashes in a row. -/
def joinedHash : Text :=
  hexText 64 0xca9034371c79ec26ec0496b53420a1117d4f765800dfdce138138b139d591f13

/-- The digest of one letter. -/
def letterHash : Text :=
  hexText 64 0xca978112ca1bbdcafac231b39a23dc4da786eff8147c4e72b9807785afee48bb

/-- A text of 64 characters that is read as one letter. -/
def cutHash (filler : Char) : Text :=
  'a' :: '\x00' :: List.replicate 62 filler

def rootDigests : List (Text × Text) :=
  [(lowHash ++ highHash, joinedHash), (['a'], letterHash)]

def rootEnv : Env :=
  { Sample.env with
    sha256 := fun content => (rootDigests.lookup content).getD ('x' :: content) }

def cutRecords (first second : Char) : List Record :=
  [hashedRecord (cutHash first), hashedRecord (cutHash second)]

theorem root_checks :
    ((rootDigests.map Prod.snd).Nodup ∧
      ∀ entry ∈ rootDigests, entry.2.head? ≠ some 'x' ∧ entry.2.head? ≠ some 'a') ∧
    (getRecordsMerkleRoot rootEnv [hashedRecord lowHash, hashedRecord highHash] =
        getRecordsMerkleRoot rootEnv [hashedRecord joinedHash] ∧
      rootTexts rootEnv [hashedRecord lowHash, hashedRecord highHash] ++
          rootTexts rootEnv [hashedRecord joinedHash] = [lowHash ++ highHash] ∧
      rootEnv.sha256 (lowHash ++ highHash) = joinedHash ∧
      joinedHash.length = 64 ∧ '\x00' ∉ joinedHash) ∧
    ((∀ record ∈ [hashedRecord lowHash, hashedRecord highHash], record.hash.length = 64) ∧
      (∀ record ∈ [hashedRecord lowHash, hashedRecord highHash], '\x00' ∉ record.hash) ∧
      ([hashedRecord lowHash, hashedRecord highHash].map Record.hash).Nodup) ∧
    getRecordsMerkleRoot rootEnv (cutRecords '1' '2') =
      getRecordsMerkleRoot rootEnv (cutRecords '3' '4') ∧
    rootTexts rootEnv (cutRecords '1' '2') ++ rootTexts rootEnv (cutRecords '3' '4') =
      [['a'], ['a']] ∧
    rootEnv.sha256 ['a'] = letterHash ∧ letterHash.length = 64 ∧ '\x00' ∉ letterHash := by
  decide +kernel

theorem rootEnv_injective : Function.Injective rootEnv.sha256 := by
  obtain ⟨⟨values, marked⟩, -⟩ := root_checks
  have apart : ∀ entry ∈ rootDigests, ∀ content, entry.2 ≠ 'x' :: content := by
    intro entry member content same
    exact (marked entry member).1 (by rw [same]; rfl)
  exact KeyedList.lookup_getD_injective values apart (List.cons_injective)

/-- The hash of two records' hashes as the hash of one record. -/
theorem joined_hash_shares_root :
    getRecordsMerkleRoot rootEnv [hashedRecord lowHash, hashedRecord highHash] =
      getRecordsMerkleRoot rootEnv [hashedRecord joinedHash] ∧
    rootTexts rootEnv [hashedRecord lowHash, hashedRecord highHash] ++
        rootTexts rootEnv [hashedRecord joinedHash] = [lowHash ++ highHash] ∧
    rootEnv.sha256 (lowHash ++ highHash) = joinedHash ∧
    joinedHash.length = 64 ∧ '\x00' ∉ joinedHash :=
  root_checks.2.1

theorem distinct_rows :
    (∀ record ∈ [hashedRecord lowHash, hashedRecord highHash], record.hash.length = 64) ∧
    (∀ record ∈ [hashedRecord lowHash, hashedRecord highHash], '\x00' ∉ record.hash) ∧
    ([hashedRecord lowHash, hashedRecord highHash].map Record.hash).Nodup :=
  root_checks.2.2.1

theorem joined_hash_binds :
    [hashedRecord lowHash, hashedRecord highHash].map Record.hash =
        [hashedRecord joinedHash].map Record.hash ∨
      ∃ record ∈ [hashedRecord lowHash, hashedRecord highHash] ++ [hashedRecord joinedHash],
        ∃ text : Text, text.length = 128 ∧ record.hash = rootEnv.sha256 text := by
  obtain ⟨roots, texts, digest, width, plain⟩ := joined_hash_shares_root
  obtain ⟨widths, plains, distinct⟩ := distinct_rows
  apply merkle_root_binds_records rootEnv _ _
  · exact ⟨by simp, widths, plains, distinct⟩
  · exact ⟨by simp, by simpa [hashedRecord] using width, by simpa [hashedRecord] using plain, by simp⟩
  · rw [texts]
    constructor
    · intro left leftMember right rightMember _
      rw [List.mem_singleton.mp leftMember, List.mem_singleton.mp rightMember]
    · intro text member
      rw [List.mem_singleton.mp member, digest, width]
    · intro text member
      rwa [List.mem_singleton.mp member, digest]
  · exact roots

theorem cut_hashes_share_root :
    getRecordsMerkleRoot rootEnv (cutRecords '1' '2') =
      getRecordsMerkleRoot rootEnv (cutRecords '3' '4') ∧
    rootTexts rootEnv (cutRecords '1' '2') ++ rootTexts rootEnv (cutRecords '3' '4') =
      [['a'], ['a']] ∧
    rootEnv.sha256 ['a'] = letterHash ∧ letterHash.length = 64 ∧ '\x00' ∉ letterHash :=
  root_checks.2.2.2

theorem cutHash_width (filler : Char) : (cutHash filler).length = 64 := by
  simp [cutHash]

theorem cutHash_differs {left right : Char} (apart : left ≠ right) :
    cutHash left ≠ cutHash right := by
  intro same
  have second := congrArg (fun text => text.getD 2 'a') same
  exact apart second

/-- No digest starts with the letter of the cut hashes. -/
theorem cutHash_no_digest (filler : Char) (text : Text) :
    cutHash filler ≠ rootEnv.sha256 text := by
  intro same
  have starts : ∀ entry ∈ rootDigests, entry.2.head? ≠ some 'a' := fun entry member =>
    (root_checks.1.2 entry member).2
  have digest : rootEnv.sha256 text = (rootDigests.lookup text).getD ('x' :: text) := rfl
  have first : (cutHash filler).head? = some 'a' := rfl
  rw [same, digest] at first
  cases found : rootDigests.lookup text with
  | none =>
      rw [found] at first
      exact absurd first (by simp)
  | some value =>
      rw [found] at first
      exact starts _ (KeyedList.mem_of_lookup found) first

/-- Hashes that hold a NUL are not read whole, and two lists of them share a root. -/
theorem cut_hashes_not_bound :
    ¬ ∀ (env : Env) (left right : List Record), Function.Injective env.sha256 →
      Digests env (rootTexts env left ++ rootTexts env right) → left ≠ [] → right ≠ [] →
      (∀ record ∈ left ++ right, record.hash.length = 64) →
      (left.map Record.hash).Nodup → (right.map Record.hash).Nodup →
      getRecordsMerkleRoot env left = getRecordsMerkleRoot env right →
      left.map Record.hash = right.map Record.hash ∨
        ∃ record ∈ left ++ right, ∃ text : Text, text.length = 128 ∧
          record.hash = env.sha256 text := by
  intro claim
  obtain ⟨roots, texts, digest, width, plain⟩ := cut_hashes_share_root
  have hashed : Digests rootEnv [['a'], ['a']] := by
    constructor
    · intro left leftMember right rightMember _
      simp only [List.mem_cons, List.not_mem_nil, or_false, or_self] at leftMember rightMember
      rw [leftMember, rightMember]
    · intro text member
      simp only [List.mem_cons, List.not_mem_nil, or_false, or_self] at member
      rw [member, digest, width]
    · intro text member
      simp only [List.mem_cons, List.not_mem_nil, or_false, or_self] at member
      rwa [member, digest]
  have widths : ∀ record ∈ cutRecords '1' '2' ++ cutRecords '3' '4', record.hash.length = 64 := by
    simp [cutRecords, hashedRecord, cutHash_width]
  have leftDistinct : ((cutRecords '1' '2').map Record.hash).Nodup := by
    simp [cutRecords, hashedRecord, cutHash_differs]
  have rightDistinct : ((cutRecords '3' '4').map Record.hash).Nodup := by
    simp [cutRecords, hashedRecord, cutHash_differs]
  cases claim rootEnv (cutRecords '1' '2') (cutRecords '3' '4') rootEnv_injective
      (texts ▸ hashed) (List.cons_ne_nil _ _) (List.cons_ne_nil _ _) widths leftDistinct
      rightDistinct roots with
  | inl equal => exact cutHash_differs (by decide) (List.cons.inj equal).1
  | inr joined =>
      obtain ⟨record, member, text, -, same⟩ := joined
      simp only [cutRecords, List.cons_append, List.nil_append, List.mem_cons, List.not_mem_nil,
        or_false] at member
      obtain rfl | rfl | rfl | rfl := member
      all_goals exact cutHash_no_digest _ text same

end Sample

end Safire
