/-
The age of a pending heartbeat.

The builder stamps a heartbeat with the seconds of the network epoch, and the
mempool reads the stamp as a slot of fifteen seconds. A heartbeat is taken for
expired by its slot only where the seconds and the slot lie on one side of the
cutoff.
-/

import Safire.SubmittedRecords

namespace Safire

open Text Mempool

namespace BlockBuilder

/-! ### The builder -/

/-- `CSelector::getCurrentTimeBlock` at a second of the network epoch. -/
def getCurrentTimeBlock (epoch : Int) : Int :=
  epoch.tdiv 15

/-- The heartbeat of a creator, with the signature that `SignMessage` returns for its hash. -/
def heartbeatRecord (env : Env) (signMessage : Text → Text) (epoch : Int) (publicKey : Text) :
    Record :=
  let unsigned : Record :=
    { network := "main".toList
      time := ofLong epoch
      transactionType := .heartBeat
      nonce := 0
      amount := 0
      fee := 0
      senderPublicKey := publicKey
      recipientPublicKey := []
      hash := []
      signature := []
      name := []
      value := [] }
  let hash := getRecordHash env unsigned
  { unsigned with hash := hash, signature := signMessage hash }

def hasPendingHeartbeat (env : Env) (readBlock currentBlock : Int) (opened : Bool)
    (store : PendingStore) (publicKey : Text) : Bool × PendingStore :=
  let (records, after) := peekQueueRecords env readBlock opened store
  (records.any (fun record => decide (record.transactionType = .heartBeat) &&
    !isExpiredHeartbeatRecord record currentBlock &&
    decide (record.senderPublicKey = publicKey)), after)

/-- The mempool after the call. The slots are those of the calls that read the clock. -/
def queueHeartbeatIfDue (env : Env) (signMessage : Text → Text) (epoch readBlock currentBlock
    queueBlock : Int) (creatorModeEnabled joined heartbeatRenewalDue opened : Bool)
    (store : PendingStore) (publicKey : Text) : PendingStore :=
  if creatorModeEnabled = false then store
  else if joined = false ∨ heartbeatRenewalDue = false then store
  else
    let (pending, read) := hasPendingHeartbeat env readBlock currentBlock opened store publicKey
    if pending then read
    else
      (addToQueue env queueBlock opened read (heartbeatRecord env signMessage epoch publicKey)).2

/-- The records that are kept so far, the hashes seen, and whether one was dropped. -/
structure Prune where
  kept : List Record
  seen : TextSet
  changed : Bool

def pruneRound (env : Env) (currentBlock : Int) (db : LevelDb) (prune : Prune) (record : Record) :
    Prune :=
  if isExpiredHeartbeatRecord record currentBlock then { prune with changed := true }
  else if 0 < record.hash.length then
    if record.hash ∈ prune.seen then { prune with changed := true }
    else if recordExistsInAcceptedChain env db record.hash then
      { prune with seen := prune.seen.insert record.hash, changed := true }
    else { prune with kept := prune.kept ++ [record], seen := prune.seen.insert record.hash }
  else { prune with kept := prune.kept ++ [record] }

def pruneRecords (env : Env) (currentBlock : Int) (db : LevelDb) (records : List Record) : Prune :=
  records.foldl (pruneRound env currentBlock db) ⟨[], ∅, false⟩

end BlockBuilder

/-! ### The stamp -/

namespace Text

/-- A printed number in the range of a `long` does not overflow the reader. -/
theorem splitSign_ofLong (value : Int) :
    splitSign ((ofLong value).dropWhile isSpace) =
      (decide (value < 0), Nat.toDigits 10 value.natAbs) := by
  rw [ofLong_eq]
  by_cases negative : value < 0
  · rw [if_pos negative, List.singleton_append, List.dropWhile_cons_of_neg (by decide),
      decide_eq_true negative]
    rfl
  · obtain ⟨digit, rest, split, isDigit⟩ := exists_toDigits_cons value.natAbs
    rw [if_neg negative, List.nil_append, split,
      List.dropWhile_cons_of_neg (by simp [isSpace_of_isDigit isDigit]), decide_eq_false negative]
    unfold splitSign
    split
    · rename_i same
      rw [(List.cons.inj same).1] at isDigit
      cases isDigit
    · rename_i same
      rw [(List.cons.inj same).1] at isDigit
      cases isDigit
    · rfl

end Text

namespace Mempool

theorem outOfRange_ofLong {value : Int} (range : IsLong value) :
    outOfRange (ofLong value) = false := by
  have digits : (Nat.toDigits 10 value.natAbs).takeWhile Char.isDigit =
      Nat.toDigits 10 value.natAbs :=
    List.takeWhile_eq_self_iff.mpr (isDigit_toDigits value.natAbs)
  unfold outOfRange
  rw [splitSign_ofLong]
  dsimp only
  rw [digits, digitsValue_toDigits]
  apply decide_eq_false
  obtain ⟨lower, upper⟩ := range
  have bounds : longMin = -longMax - 1 := by decide
  by_cases negative : value < 0
  · rw [if_pos (decide_eq_true negative)]
    omega
  · rw [if_neg (by simpa using negative)]
    omega

/-- A heartbeat with a readable stamp expires when the stamp is below the cutoff. -/
theorem isExpired_of_stamp {record : Record} {stamp : Int} (range : IsLong stamp)
    (beats : record.transactionType = .heartBeat) (stamped : record.time = ofLong stamp)
    (clockBlock currentBlock : Int) :
    isExpiredHeartbeatRecord record clockBlock currentBlock =
      decide (stamp < (if currentBlock < 0 then clockBlock else currentBlock) -
        heartbeatValidBlocks) := by
  have nonempty : record.time.length ≠ 0 := by
    rw [stamped]
    exact fun zero => ofLong_ne_nil stamp (List.length_eq_zero_iff.mp zero)
  unfold isExpiredHeartbeatRecord
  rw [if_neg (not_not_intro beats), if_neg nonempty, stamped, outOfRange_ofLong range,
    if_neg Bool.false_ne_true, parseLongValue_ofLong range]

/-- A slot that is not below zero is the one that the clock would give. -/
theorem isExpired_at_slot {currentBlock : Int} (nonneg : 0 ≤ currentBlock) (record : Record)
    (clockBlock : Int) :
    isExpiredHeartbeatRecord record clockBlock currentBlock =
      isExpiredHeartbeatRecord record currentBlock := by
  have given : ¬ currentBlock < 0 := by omega
  have missing : (-1 : Int) < 0 := by decide
  unfold isExpiredHeartbeatRecord
  rw [if_neg given, if_pos missing]

end Mempool

namespace BlockBuilder

/-! ### What the callers make of the age -/

/-- A reason of `addToQueue` apart from the age: the size, the chain or a duplicate. -/
def refusedOtherwise (env : Env) (currentBlock : Int) (opened : Bool) (store : PendingStore)
    (record : Record) : Bool :=
  !isRecordSizeValid env record ||
    (opened && decide (0 < record.hash.length) &&
      recordExistsInAcceptedChain env store.db record.hash) ||
    decide (0 < record.hash.length) &&
      (opened && decide (hashKey record.hash ∈ store.db) ||
        legacyHolds env currentBlock store.queueDat record.hash)

/-- A reason of a reader of the mempool apart from the age: no key, the size or the chain. -/
def droppedOtherwise (env : Env) (db : LevelDb) (record : Record) : Bool :=
  record.senderPublicKey.isEmpty && record.recipientPublicKey.isEmpty ||
    !isRecordSizeValid env record ||
    decide (0 < record.hash.length) && recordExistsInAcceptedChain env db record.hash

/-- The mempool drops the record when it is older, and never for its age otherwise. -/
structure TreatedByAge (env : Env) (record : Record) (currentBlock : Int) (older : Prop) : Prop
    where
  expired : isExpiredHeartbeatRecord record currentBlock = true ↔ older
  atSlot : 0 ≤ currentBlock → ∀ clockBlock,
    (isExpiredHeartbeatRecord record clockBlock currentBlock = true ↔ older)
  refused : older → ∀ opened store, (addToQueue env currentBlock opened store record).2 = store
  queued : ¬ older → ∀ opened store, refusedOtherwise env currentBlock opened store record = false →
    (addToQueue env currentBlock opened store record).2 = queued env opened store record
  unread : older → ∀ opened store,
    record ∉ (peekQueueRecords env currentBlock opened store).1
  read : ¬ older → ∀ store, Stored env store.db record →
    droppedOtherwise env store.db record = false →
    record ∈ (readPending env currentBlock true store).1
  pruned : older → ∀ db records, record ∉ (pruneRecords env currentBlock db records).kept ∧
    (record ∈ records → (pruneRecords env currentBlock db records).changed = true)
  kept : ¬ older → ∀ db records, record ∈ records → droppedOtherwise env db record = false →
    (∀ other ∈ records, other.hash = record.hash → other = record) →
    record ∈ (pruneRecords env currentBlock db records).kept
  renewed : ¬ older → record.transactionType = .heartBeat → ∀ opened store,
    record ∈ (peekQueueRecords env currentBlock opened store).1 →
    ∀ signMessage epoch creatorModeEnabled joined heartbeatRenewalDue,
      let after := queueHeartbeatIfDue env signMessage epoch currentBlock currentBlock
        currentBlock creatorModeEnabled joined heartbeatRenewalDue opened store
        record.senderPublicKey
      after = store ∨ after = (peekQueueRecords env currentBlock opened store).2

section Callers

variable {env : Env} {record : Record} {currentBlock : Int}

theorem admits_eq (opened : Bool) (store : PendingStore) :
    admits env currentBlock opened store record =
      (!refusedOtherwise env currentBlock opened store record &&
        !isExpiredHeartbeatRecord record currentBlock) := by
  unfold admits refusedOtherwise
  cases isRecordSizeValid env record <;> cases isExpiredHeartbeatRecord record currentBlock <;>
    simp

theorem keeps_eq (db : LevelDb) :
    keeps env currentBlock db record =
      (!droppedOtherwise env db record && !isExpiredHeartbeatRecord record currentBlock) := by
  have keyed : (decide (0 < record.senderPublicKey.length) ||
      decide (0 < record.recipientPublicKey.length)) =
        !(record.senderPublicKey.isEmpty && record.recipientPublicKey.isEmpty) := by
    cases record.senderPublicKey <;> cases record.recipientPublicKey <;> rfl
  unfold keeps pendingRecordLooksUsable droppedOtherwise
  rw [keyed]
  cases isRecordSizeValid env record <;> cases isExpiredHeartbeatRecord record currentBlock <;>
    simp

theorem mem_kept_of_pruneRound {db : LevelDb} {prune : Prune} {other : Record}
    (member : record ∈ (pruneRound env currentBlock db prune other).kept) :
    record ∈ prune.kept ∨
      record = other ∧ isExpiredHeartbeatRecord record currentBlock = false := by
  unfold pruneRound at member
  split_ifs at member with expired
  · exact .inl member
  · exact .inl member
  · exact .inl member
  all_goals
    cases List.mem_append.mp member with
    | inl old => exact .inl old
    | inr last =>
        have same := List.mem_singleton.mp last
        rw [← same, Bool.not_eq_true] at expired
        exact .inr ⟨same, expired⟩

/-- What the loop keeps it has kept before, or has read unexpired. -/
theorem mem_kept_foldl_pruneRound {db : LevelDb} {records : List Record} {prune : Prune}
    (member : record ∈ (records.foldl (pruneRound env currentBlock db) prune).kept) :
    record ∈ prune.kept ∨
      record ∈ records ∧ isExpiredHeartbeatRecord record currentBlock = false := by
  induction records generalizing prune with
  | nil => exact .inl member
  | cons other rest ih =>
      rw [List.foldl_cons] at member
      cases ih member with
      | inr later => exact .inr ⟨List.mem_cons_of_mem _ later.1, later.2⟩
      | inl early =>
          cases mem_kept_of_pruneRound early with
          | inl old => exact .inl old
          | inr own => exact .inr ⟨own.1 ▸ List.mem_cons_self, own.2⟩

theorem changed_foldl_pruneRound {db : LevelDb} {records : List Record} {prune : Prune}
    (changed : prune.changed = true ∨
      record ∈ records ∧ isExpiredHeartbeatRecord record currentBlock = true) :
    (records.foldl (pruneRound env currentBlock db) prune).changed = true := by
  induction records generalizing prune with
  | nil => exact changed.resolve_right fun listed => List.not_mem_nil listed.1
  | cons other rest ih =>
      rw [List.foldl_cons]
      apply ih
      cases changed with
      | inl already =>
          left
          unfold pruneRound
          split_ifs <;> first | rfl | exact already
      | inr listed =>
          obtain ⟨member, expired⟩ := listed
          cases List.mem_cons.mp member with
          | inl same =>
              left
              rw [pruneRound, if_pos (same ▸ expired)]
          | inr later => exact .inr ⟨later, expired⟩

theorem subset_kept_pruneRound {db : LevelDb} {prune : Prune} {other : Record}
    (member : record ∈ prune.kept) :
    record ∈ (pruneRound env currentBlock db prune other).kept := by
  unfold pruneRound
  split_ifs <;> first | exact member | exact List.mem_append_left _ member

theorem kept_foldl_pruneRound {db : LevelDb} {records : List Record} {prune : Prune}
    (fresh : isExpiredHeartbeatRecord record currentBlock = false)
    (outside : droppedOtherwise env db record = false)
    (alone : ∀ other ∈ records, other.hash = record.hash → other = record)
    (kept : record ∈ prune.kept ∨ record ∈ records ∧ record.hash ∉ prune.seen) :
    record ∈ (records.foldl (pruneRound env currentBlock db) prune).kept := by
  induction records generalizing prune with
  | nil => exact kept.resolve_right fun listed => List.not_mem_nil listed.1
  | cons other rest ih =>
      rw [List.foldl_cons]
      apply ih fun later member => alone later (List.mem_cons_of_mem _ member)
      cases kept with
      | inl already => exact .inl (subset_kept_pruneRound already)
      | inr listed =>
          obtain ⟨member, unseen⟩ := listed
          by_cases same : other = record
          · left
            have absent : ¬ (0 < record.hash.length ∧
                recordExistsInAcceptedChain env db record.hash = true) := by
              intro accepted
              unfold droppedOtherwise at outside
              simp [accepted.1, accepted.2] at outside
            unfold pruneRound
            rw [same, if_neg (by rw [fresh]; exact Bool.false_ne_true)]
            by_cases hashed : 0 < record.hash.length
            · rw [if_pos hashed, if_neg unseen, if_neg fun accepted => absent ⟨hashed, accepted⟩]
              exact List.mem_append_right _ (List.mem_singleton_self _)
            · rw [if_neg hashed]
              exact List.mem_append_right _ (List.mem_singleton_self _)
          · have later := (List.mem_cons.mp member).resolve_left (Ne.symm same)
            have different : other.hash ≠ record.hash :=
              fun equal => same (alone other List.mem_cons_self equal)
            refine .inr ⟨later, ?_⟩
            unfold pruneRound
            split_ifs
            · exact unseen
            · exact unseen
            all_goals
              first
              | exact unseen
              | rw [Std.ExtTreeSet.mem_insert, Std.LawfulEqCmp.compare_eq_iff_eq]
                exact fun known => known.elim different unseen

/-- A record that expires by its age is treated by its age everywhere. -/
theorem treatedByAge_of_expired {older : Prop}
    (expired : isExpiredHeartbeatRecord record currentBlock = true ↔ older) :
    TreatedByAge env record currentBlock older where
  expired := expired
  refused := by
    intro old opened store
    rw [addToQueue_eq, admits_eq, expired.mpr old]
    simp
  queued := by
    intro young opened store accepted
    have fresh := Bool.eq_false_of_not_eq_true fun old => young (expired.mp old)
    rw [addToQueue_eq, admits_eq, fresh, accepted]
    simp
  unread := by
    intro old opened store member
    rw [peekQueueRecords_records] at member
    cases mem_readPending.mp (mem_of_dedupe member) with
    | inl stored =>
        have kept := stored.2.2
        rw [keeps_eq, expired.mpr old] at kept
        simp at kept
    | inr legacy =>
        have usable := (mem_legacyQueueRecords.mp legacy).2
        unfold pendingRecordLooksUsable at usable
        rw [expired.mpr old] at usable
        simp at usable
  read := by
    intro young store stored outside
    have fresh := Bool.eq_false_of_not_eq_true fun old => young (expired.mp old)
    apply mem_readPending.mpr
    left
    refine ⟨rfl, stored, ?_⟩
    rw [keeps_eq, fresh, outside]
    rfl
  pruned := by
    intro old db records
    constructor
    · intro member
      cases mem_kept_foldl_pruneRound member with
      | inl none => cases none
      | inr fresh =>
          rw [expired.mpr old] at fresh
          cases fresh.2
    · exact fun member => changed_foldl_pruneRound (.inr ⟨member, expired.mpr old⟩)
  kept := by
    intro young db records member outside alone
    have fresh := Bool.eq_false_of_not_eq_true fun old => young (expired.mp old)
    exact kept_foldl_pruneRound fresh outside alone
      (.inr ⟨member, Std.ExtTreeSet.not_mem_empty⟩)
  atSlot := by
    intro nonneg clockBlock
    rw [isExpired_at_slot nonneg]
    exact expired
  renewed := by
    intro young beats opened store peeked signMessage epoch enabled joined due
    have fresh := Bool.eq_false_of_not_eq_true fun old => young (expired.mp old)
    have pending : (hasPendingHeartbeat env currentBlock currentBlock opened store
        record.senderPublicKey).1 = true :=
      List.any_eq_true.mpr ⟨record, peeked, by simp [beats, fresh]⟩
    unfold queueHeartbeatIfDue
    dsimp only
    rw [if_pos pending]
    split_ifs with disabled idle
    · exact .inl rfl
    · exact .inl rfl
    · exact .inr rfl

end Callers

/-- A heartbeat of the builder is treated by its age in slots exactly when the
seconds of its stamp and their slot lie on one side of the cutoff. -/
theorem heartbeat_treatedByAge_iff (env : Env) (signMessage : Text → Text) (publicKey : Text)
    (epoch currentBlock : Int) (range : IsLong epoch) :
    TreatedByAge env (heartbeatRecord env signMessage epoch publicKey) currentBlock
        (getCurrentTimeBlock epoch < currentBlock - heartbeatValidBlocks) ↔
      currentBlock - heartbeatValidBlocks ≤ min epoch (getCurrentTimeBlock epoch) ∨
        max epoch (getCurrentTimeBlock epoch) < currentBlock - heartbeatValidBlocks := by
  have stamped : isExpiredHeartbeatRecord (heartbeatRecord env signMessage epoch publicKey)
      currentBlock = decide (epoch < currentBlock - heartbeatValidBlocks) :=
    isExpired_of_stamp range rfl rfl currentBlock (-1)
  constructor
  · intro treated
    have agree := treated.expired
    rw [stamped, decide_eq_true_iff] at agree
    rw [le_min_iff, max_lt_iff]
    omega
  · intro aside
    apply treatedByAge_of_expired
    rw [stamped, decide_eq_true_iff]
    rw [le_min_iff, max_lt_iff] at aside
    omega

end BlockBuilder

end Safire

namespace Safire.Sample

open BlockBuilder Mempool Text

/-- A heartbeat of the first minute is as fresh in seconds as in slots, and a month
later it is as old. -/
theorem early_heartbeat_treatedByAge :
    TreatedByAge env (heartbeatRecord env (fun _ => []) 60 sender) 100
      (getCurrentTimeBlock 60 < 100 - heartbeatValidBlocks) ∧
    TreatedByAge env (heartbeatRecord env (fun _ => []) 60 sender) 172800
      (getCurrentTimeBlock 60 < 172800 - heartbeatValidBlocks) :=
  ⟨(heartbeat_treatedByAge_iff env (fun _ => []) sender 60 100 (by decide)).mpr (.inl (by decide)),
    (heartbeat_treatedByAge_iff env (fun _ => []) sender 60 172800 (by decide)).mpr
      (.inr (by decide))⟩

/-- Two days later a heartbeat of the year 2020 is still pending. -/
theorem late_heartbeat_not_expired :
    ¬ TreatedByAge env (heartbeatRecord env (fun _ => []) 1600000000 sender)
      (getCurrentTimeBlock 1600172800)
      (getCurrentTimeBlock 1600000000 < getCurrentTimeBlock 1600172800 - heartbeatValidBlocks) := by
  intro treated
  have expired := treated.expired.mpr (by decide)
  have stamp : IsLong 1600000000 := by decide
  have stamped : isExpiredHeartbeatRecord (heartbeatRecord env (fun _ => []) 1600000000 sender)
      (getCurrentTimeBlock 1600172800) = _ :=
    isExpired_of_stamp stamp rfl rfl (getCurrentTimeBlock 1600172800) (-1)
  rw [stamped] at expired
  exact absurd expired (by decide)

end Safire.Sample
