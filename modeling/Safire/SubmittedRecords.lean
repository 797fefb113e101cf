/-
Records under a hash text that another submitter claims.

Submissions fill the mempool and, where the database cannot be opened, the queue
file. The index entry of a hash makes every later record under it a duplicate,
so the readers find a queued record exactly as long as nobody else takes its
hash text first.
-/

import Safire.Library.Runs
import Safire.MempoolReads

namespace Safire

open Text

namespace Mempool

variable {env : Env}

/-! ### Queueing -/

/-- Whether the call gets to write the record. -/
def admits (env : Env) (currentBlock : Int) (opened : Bool) (store : PendingStore)
    (record : Record) : Bool :=
  isRecordSizeValid env record && !isExpiredHeartbeatRecord record currentBlock &&
    !(opened && decide (0 < record.hash.length) &&
      recordExistsInAcceptedChain env store.db record.hash) &&
    !(decide (0 < record.hash.length) &&
      (opened && decide (hashKey record.hash ∈ store.db) ||
        legacyHolds env currentBlock store.queueDat record.hash))

/-- The store with the record, in the database or at the end of the file. -/
def queued (env : Env) (opened : Bool) (store : PendingStore) (record : Record) : PendingStore :=
  if opened then { store with db := writeQueued env store.db (nextSequence store.db) record }
  else { store with queueDat := store.queueDat ++ recordJSON env record }

theorem queued_opened (store : PendingStore) (record : Record) :
    queued env true store record =
      { store with db := writeQueued env store.db (nextSequence store.db) record } := rfl

theorem queued_unopened (store : PendingStore) (record : Record) :
    queued env false store record =
      { store with queueDat := store.queueDat ++ recordJSON env record } := rfl

theorem addToQueue_eq (currentBlock : Int) (opened : Bool) (store : PendingStore)
    (record : Record) :
    addToQueue env currentBlock opened store record =
      (if isRecordSizeValid env record then 1 else 0,
        if admits env currentBlock opened store record then queued env opened store record
        else store) := by
  unfold addToQueue admits queued
  by_cases sized : isRecordSizeValid env record = true
  · by_cases expired : isExpiredHeartbeatRecord record currentBlock = true
    · simp [sized, expired]
    · by_cases hashed : 0 < record.hash.length
      · cases opened with
        | true =>
            by_cases accepted : recordExistsInAcceptedChain env store.db record.hash = true
            · simp [sized, expired, accepted, hashed]
            · by_cases known : hashKey record.hash ∈ store.db
              · simp [sized, expired, accepted, hashed, known]
              · by_cases legacy : legacyHolds env currentBlock store.queueDat record.hash = true
                · simp [sized, expired, accepted, hashed, known, legacy]
                · simp [sized, expired, accepted, hashed, known, legacy]
        | false =>
            by_cases legacy : legacyHolds env currentBlock store.queueDat record.hash = true
            · simp [sized, expired, hashed, legacy]
            · simp [sized, expired, hashed, legacy]
      · cases opened <;> simp [sized, expired, hashed]
  · simp [sized]

theorem sameChain_addToQueue (currentBlock : Int) (opened : Bool) (store : PendingStore)
    (record : Record) :
    SameChain store.db (addToQueue env currentBlock opened store record).2.db := by
  rw [addToQueue_eq]
  dsimp only
  split
  · cases opened with
    | true => exact sameChain_writeQueued env store.db _ record
    | false => exact SameChain.refl store.db
  · exact SameChain.refl store.db

/-! ### Submissions -/

/-- A record that reaches a node over its API, or by a call of `addToQueue`. -/
inductive Submission where
  | api (currentBlock : Int) (opened : Bool) (recordJson : Text)
  | queue (currentBlock : Int) (opened : Bool) (record : Record)

namespace Submission

def apply (env : Env) (store : PendingStore) : Submission → PendingStore
  | .api currentBlock opened recordJson =>
      (submitRecord env currentBlock opened store recordJson).2
  | .queue currentBlock opened record => (addToQueue env currentBlock opened store record).2

def currentBlock : Submission → Int
  | .api currentBlock _ _ | .queue currentBlock _ _ => currentBlock

def opened : Submission → Bool
  | .api _ opened _ | .queue _ opened _ => opened

def record (env : Env) : Submission → Record
  | .api _ _ recordJson => parseRecordJson env recordJson
  | .queue _ _ record => record

/-- Whether the record of the submission is written. -/
def writes (env : Env) (store : PendingStore) (submission : Submission) : Bool :=
  admits env submission.currentBlock submission.opened store (submission.record env) &&
    match submission with
    | .api _ _ recordJson =>
        !((parseRecordJson env recordJson).senderPublicKey.isEmpty &&
          (parseRecordJson env recordJson).recipientPublicKey.isEmpty)
    | .queue _ _ _ => true

theorem apply_eq (store : PendingStore) (submission : Submission) :
    submission.apply env store =
      if submission.writes env store then
        queued env submission.opened store (submission.record env)
      else store := by
  cases submission with
  | queue currentBlock opened record =>
      simp only [apply, writes, addToQueue_eq, Submission.opened, Submission.record,
        Submission.currentBlock, Bool.and_true]
  | api currentBlock opened recordJson =>
      simp only [apply, submitRecord, writes, Submission.opened, Submission.record,
        Submission.currentBlock]
      by_cases unkeyed : (parseRecordJson env recordJson).senderPublicKey.isEmpty = true ∧
          (parseRecordJson env recordJson).recipientPublicKey.isEmpty = true
      · rw [if_pos unkeyed]
        simp [unkeyed]
      · rw [if_neg unkeyed, addToQueue_eq]
        rw [← Bool.and_eq_true, Bool.not_eq_true] at unkeyed
        simp [unkeyed]

end Submission

/-! ### The records under one hash text -/

/-- What the readers find in the text that is written for a record. -/
def written (env : Env) (opened : Bool) (store : PendingStore) (record : Record) : List Record :=
  if opened then [parseRecordJson env (recordJSON env record)]
  else (getLines (store.queueDat ++ recordJSON env record)).map (parseRecordJson env)

/-- If the submission is written, it does not take the hash text of `target` for
another record, and `target` itself reads back. -/
def LeavesHash (env : Env) (target : Record) (store : PendingStore) (submission : Submission) :
    Prop :=
  submission.writes env store = true →
    ((submission.record env).hash = target.hash → submission.record env = target) ∧
    (submission.record env = target →
      target ∈ written env submission.opened store (submission.record env)) ∧
    ∀ other ∈ written env submission.opened store (submission.record env),
      other.hash = target.hash → other = target

/-- A queue file without another record under the hash text. -/
def FileLeavesHash (env : Env) (target : Record) (queueDat : Text) : Prop :=
  ∀ line ∈ getLines queueDat,
    (parseRecordJson env line).hash = target.hash → parseRecordJson env line = target

/-- Every entry under the hash text of `target` is that of `target`. -/
structure Unshadowed (env : Env) (target : Record) (store : PendingStore) : Prop where
  stored : ∀ record, Stored env store.db record → record.hash = target.hash → record = target
  indexed : hashKey target.hash ∈ store.db → ∃ sequence json,
    store.db[recordKey sequence target.hash]? = some json ∧ parseRecordJson env json = target
  file : FileLeavesHash env target store.queueDat

theorem colon_notMem_paddedSequence (sequence : Int) : ':' ∉ paddedSequence sequence := by
  intro member
  rw [paddedSequence, List.leftpad, List.mem_append] at member
  cases member with
  | inl pad => exact absurd (List.eq_of_mem_replicate pad) (by decide)
  | inr digits =>
      cases mem_ofLong digits with
      | inl minus => exact absurd minus (by decide)
      | inr digit => exact absurd digit (by decide)

/-- The key of a record entry shows the sequence number and the hash. -/
theorem recordKey_inj {first second : Int} {left right : Text}
    (same : recordKey first left = recordKey second right) :
    paddedSequence first = paddedSequence second ∧
      (if 0 < left.length then left else "nohash".toList) =
        (if 0 < right.length then right else "nohash".toList) := by
  rw [recordKey, recordKey, List.append_assoc, List.append_assoc, List.append_assoc,
    List.append_assoc, List.append_cancel_left_eq] at same
  have padded := (Search.eq_of_separated (colon_notMem_paddedSequence first)
    (colon_notMem_paddedSequence second) ⟨[], (List.append_nil _).trans same⟩).1
  rw [padded] at same
  exact ⟨padded, (List.cons.inj (List.append_cancel_left same)).2⟩

theorem hash_of_recordKey {first second : Int} {left right : Text} (digest : right.length = 64)
    (same : recordKey first left = recordKey second right) : left = right := by
  have texts := (recordKey_inj same).2
  rw [if_pos (by omega : 0 < right.length)] at texts
  split at texts
  · exact texts
  · rw [← texts] at digest
    exact absurd digest (by decide)

/-- A submission that leaves the hash text keeps the entries under it. -/
theorem Unshadowed.apply {target : Record} {store : PendingStore} {submission : Submission}
    (digest : target.hash.length = 64) (unshadowed : Unshadowed env target store)
    (leaves : LeavesHash env target store submission) :
    Unshadowed env target (submission.apply env store) := by
  rw [Submission.apply_eq]
  by_cases writes : submission.writes env store = true
  · obtain ⟨named, readsBack, others⟩ := leaves writes
    rw [if_pos writes]
    unfold written at readsBack others
    cases opened : submission.opened with
    | true =>
        rw [queued_opened]
        rw [opened] at readsBack others
        simp only [if_true, List.mem_singleton, forall_eq] at readsBack others
        refine ⟨?_, ?_, unshadowed.file⟩
        · intro record found hash
          obtain ⟨key, json, isRecord, value, parsed⟩ := found
          rw [getElem?_writeQueued_record isRecord] at value
          split at value
          · rw [← parsed, ← Option.some.inj value] at hash ⊢
            exact others hash
          · exact unshadowed.stored record ⟨key, json, isRecord, value, parsed⟩ hash
        · intro indexed
          rw [Std.ExtTreeMap.mem_iff_isSome_getElem?, getElem?_writeQueued_hash] at indexed
          by_cases own : (submission.record env).hash = target.hash
          · have same := named own
            refine ⟨nextSequence store.db, recordJSON env (submission.record env), ?_, ?_⟩
            · rw [getElem?_writeQueued_record (recordPrefix_recordKey _ _), own, if_pos rfl]
            · exact (readsBack same).symm
          · rw [if_neg fun both => own both.2, ← Std.ExtTreeMap.mem_iff_isSome_getElem?] at indexed
            obtain ⟨sequence, json, value, parsed⟩ := unshadowed.indexed indexed
            refine ⟨sequence, json, ?_, parsed⟩
            rw [getElem?_writeQueued_record (recordPrefix_recordKey _ _),
              if_neg fun same => own (hash_of_recordKey digest same), value]
    | false =>
        rw [queued_unopened]
        rw [opened] at others
        refine ⟨unshadowed.stored, unshadowed.indexed, ?_⟩
        intro line listed hash
        exact others _ (List.mem_map.mpr ⟨line, listed, rfl⟩) hash
  · rw [if_neg writes]
    exact unshadowed

/-! ### Reading the record back -/

theorem mem_readPending {currentBlock : Int} {opened : Bool} {store : PendingStore}
    {record : Record} :
    record ∈ (readPending env currentBlock opened store).1 ↔
      (opened = true ∧ Stored env store.db record ∧
        keeps env currentBlock store.db record = true) ∨
      record ∈ legacyQueueRecords env currentBlock store.queueDat := by
  cases opened with
  | true =>
      simp only [readPending, if_true, List.mem_append, mem_databaseMempoolRecords, true_and]
  | false => simp [readPending]

theorem peekQueueRecords_records {currentBlock : Int} {opened : Bool} {store : PendingStore} :
    (peekQueueRecords env currentBlock opened store).1 =
      dedupePendingRecords (readPending env currentBlock opened store).1 := rfl

/-- Where nobody else has the hash text, the reader returns the record. -/
theorem Unshadowed.mem_peek {target : Record} {store : PendingStore} {currentBlock : Int}
    {opened : Bool} (unshadowed : Unshadowed env target store)
    (pending : target ∈ (readPending env currentBlock opened store).1) :
    target ∈ (peekQueueRecords env currentBlock opened store).1 := by
  apply mem_dedupe_of_alone pending
  intro other listed _ hash
  cases mem_readPending.mp listed with
  | inl found => exact unshadowed.stored other found.2.1 hash
  | inr found =>
      obtain ⟨⟨line, member, parsed⟩, -⟩ := mem_legacyQueueRecords.mp found
      rw [← parsed] at hash ⊢
      exact unshadowed.file line member hash

/-- A record that `addToQueue` takes is pending, in the database or in the file. -/
theorem Unshadowed.pending_after {target : Record} {store : PendingStore}
    {currentBlock later : Int} {opened : Bool} (unshadowed : Unshadowed env target store)
    (order : currentBlock ≤ later)
    (leaves : LeavesHash env target store (.queue currentBlock opened target))
    (usable : pendingRecordLooksUsable env later target = true)
    (unaccepted : recordExistsInAcceptedChain env store.db target.hash = false) :
    target ∈
      (readPending env later opened (addToQueue env currentBlock opened store target).2).1 := by
  have now := usable_mono order usable
  rw [addToQueue_eq, mem_readPending]
  dsimp only
  by_cases writes : admits env currentBlock opened store target = true
  · have readsBack := (leaves (by simpa [Submission.writes, Submission.currentBlock,
      Submission.opened, Submission.record] using writes)).2.1 rfl
    rw [if_pos writes]
    unfold written at readsBack
    cases opened with
    | true =>
        rw [queued_opened]
        simp only [Submission.opened, if_true, List.mem_singleton] at readsBack
        refine .inl ⟨rfl, ⟨_, _, recordPrefix_recordKey (nextSequence store.db) target.hash, ?_,
          readsBack.symm⟩, ?_⟩
        · rw [getElem?_writeQueued_record (recordPrefix_recordKey _ _), if_pos rfl]
          rfl
        · rw [← (sameChain_writeQueued env store.db _ _).keeps]
          simp [keeps, usable, unaccepted]
    | false =>
        simp only [Submission.opened, Bool.false_eq_true, if_false, Submission.record,
          List.mem_map] at readsBack
        exact .inr (mem_legacyQueueRecords.mpr ⟨readsBack, usable⟩)
  · rw [if_neg writes]
    unfold pendingRecordLooksUsable at now
    rw [Bool.and_eq_true, Bool.and_eq_true, Bool.not_eq_true'] at now
    have suppressed : (opened = true ∧ hashKey target.hash ∈ store.db) ∨
        legacyHolds env currentBlock store.queueDat target.hash = true := by
      have refused := Bool.eq_false_of_not_eq_true writes
      simp only [admits, now.1.2, now.2, unaccepted, Bool.and_false, Bool.not_false, Bool.and_true,
        Bool.true_and, Bool.not_eq_false', Bool.and_eq_true, Bool.or_eq_true,
        decide_eq_true_eq] at refused
      exact refused.2
    cases suppressed with
    | inl known =>
        obtain ⟨sequence, json, value, parsed⟩ := unshadowed.indexed known.2
        refine .inl ⟨known.1, ⟨_, json, recordPrefix_recordKey _ _, value, parsed⟩, ?_⟩
        simp [keeps, usable, unaccepted]
    | inr legacy =>
        obtain ⟨record, found, hash⟩ := List.any_eq_true.mp legacy
        obtain ⟨⟨line, member, parsed⟩, -⟩ := mem_legacyQueueRecords.mp found
        have same : parseRecordJson env line = target :=
          unshadowed.file line member (parsed ▸ of_decide_eq_true hash)
        exact .inr (mem_legacyQueueRecords.mpr ⟨⟨line, member, same⟩, usable⟩)

/-! ### Every run of submissions -/

def runSubmissions (env : Env) (start : PendingStore) (submissions : List Submission) :
    PendingStore :=
  submissions.foldl (Submission.apply env) start

theorem unshadowed_start {start : PendingStore} {target : Record}
    (empty : ∀ key ∈ start.db, ¬ "mempool:".toList <+: key)
    (file : FileLeavesHash env target start.queueDat) : Unshadowed env target start where
  stored := by
    intro record found _
    obtain ⟨key, json, isRecord, value, -⟩ := found
    have present : key ∈ start.db := by
      rw [Std.ExtTreeMap.mem_iff_isSome_getElem?, value]
      rfl
    exact absurd (mempool_of_record isRecord) (empty key present)
  indexed := by
    intro indexed
    exact absurd (mempool_of_hash (hashPrefix_hashKey _)) (empty _ indexed)
  file := file

/-- Where no submission takes the hash text of a genuine record for another one,
the readers return the record itself after it is queued. -/
theorem queued_record_peeked (env : Env) (start : PendingStore) (submissions : List Submission)
    (record : Record) (currentBlock later : Int) (opened : Bool)
    (empty : ∀ key ∈ start.db, ¬ "mempool:".toList <+: key)
    (file : FileLeavesHash env record start.queueDat)
    (genuine : record.hash = getRecordHash env record)
    (digest : (getRecordHash env record).length = 64)
    (leave : Runs.Meets (Submission.apply env) (LeavesHash env record) start
      (submissions ++ [.queue currentBlock opened record]))
    (order : currentBlock ≤ later)
    (usable : pendingRecordLooksUsable env later record = true)
    (unaccepted : recordExistsInAcceptedChain env (runSubmissions env start submissions).db
      record.hash = false) :
    let after := addToQueue env currentBlock opened (runSubmissions env start submissions) record
    after.1 = 1 ∧ record ∈ (peekQueueRecords env later opened after.2).1 := by
  rw [← genuine] at digest
  obtain ⟨before, last⟩ := Runs.meets_append_iff.mp leave
  have reached : Unshadowed env record (runSubmissions env start submissions) :=
    Runs.invariant (fun _ _ unshadowed leaves => unshadowed.apply digest leaves)
      (unshadowed_start empty file) before
  have pending := reached.pending_after order last.1 usable unaccepted
  have after : Unshadowed env record
      (addToQueue env currentBlock opened (runSubmissions env start submissions) record).2 :=
    reached.apply digest last.1
  have sized : isRecordSizeValid env record = true := by
    unfold pendingRecordLooksUsable at usable
    rw [Bool.and_eq_true, Bool.and_eq_true] at usable
    exact usable.1.2
  have returned : (addToQueue env currentBlock opened (runSubmissions env start submissions)
      record).1 = 1 := by
    rw [addToQueue_eq, if_pos sized]
  exact ⟨returned, after.mem_peek pending⟩

/-- The queueing of a record that reads back leaves its own hash text. -/
theorem leavesHash_self {store : PendingStore} {record : Record} (currentBlock : Int)
    (parsed : parseRecordJson env (recordJSON env record) = record) :
    LeavesHash env record store (.queue currentBlock true record) := by
  intro _
  have found : written env true store record = [record] := by
    rw [written, if_pos rfl, parsed]
  rw [Submission.opened, Submission.record, found]
  refine ⟨fun _ => rfl, fun _ => List.mem_singleton_self _, ?_⟩
  intro other member _
  exact List.mem_singleton.mp member

/-! ### A forged record -/

/-- After a forged record the genuine one under the same hash is a duplicate. -/
theorem not_mem_peek_of_forged {forged record : Record} {currentBlock later : Int}
    (admitted : admits env currentBlock true ⟨∅, []⟩ forged = true)
    (hashed : 0 < forged.hash.length) (same : record.hash = forged.hash)
    (parsed : parseRecordJson env (recordJSON env forged) = forged) (different : record ≠ forged) :
    record ∉ (peekQueueRecords env later true
      (addToQueue env currentBlock true (addToQueue env currentBlock true ⟨∅, []⟩ forged).2
        record).2).1 := by
  have first : (addToQueue env currentBlock true ⟨∅, []⟩ forged).2 =
      ⟨writeQueued env ∅ (nextSequence ∅) forged, []⟩ := by
    rw [addToQueue_eq, if_pos admitted, queued_opened]
  have indexed : hashKey record.hash ∈ writeQueued env ∅ (nextSequence ∅) forged := by
    rw [Std.ExtTreeMap.mem_iff_isSome_getElem?, getElem?_writeQueued_hash,
      if_pos ⟨hashed, same.symm⟩]
    rfl
  have refused : admits env currentBlock true ⟨writeQueued env ∅ (nextSequence ∅) forged, []⟩
      record = false := by
    rw [same] at indexed
    simp [admits, same, hashed, indexed]
  rw [first, addToQueue_eq, if_neg (Bool.eq_false_iff.mp refused), peekQueueRecords_records]
  intro member
  cases mem_readPending.mp (mem_of_dedupe member) with
  | inr legacy =>
      obtain ⟨⟨line, listed, -⟩, -⟩ := mem_legacyQueueRecords.mp legacy
      cases listed
  | inl found =>
      obtain ⟨-, ⟨key, json, isRecord, value, read⟩, -⟩ := found
      rw [getElem?_writeQueued_record isRecord] at value
      split at value
      · rw [← Option.some.inj value, parsed] at read
        exact different read.symm
      · simp at value

theorem recordExists_empty (env : Env) (hash : Text) :
    recordExistsInAcceptedChain env ∅ hash = false := by
  unfold recordExistsInAcceptedChain
  split
  · rfl
  · rfl

end Mempool

namespace Sample

open Mempool

/-- A record with the hash text of the spend and no signature. -/
def forgedSpend : Record :=
  { spend with signature := [] }

theorem spend_checks :
    (∀ record ∈ [spend, forgedSpend],
      parseRecordJson env (recordJSON env record) = record ∧ isRecordSizeValid env record = true) ∧
      spend.hash = getRecordHash env spend := by
  decide +kernel

theorem spend_read : parseRecordJson env (recordJSON env spend) = spend :=
  (spend_checks.1 spend (by simp)).1

theorem forgedSpend_read : parseRecordJson env (recordJSON env forgedSpend) = forgedSpend :=
  (spend_checks.1 forgedSpend (by simp)).1

theorem spend_hash : spend.hash = getRecordHash env spend :=
  spend_checks.2

theorem length_hexText (width value : Nat) : (hexText width value).length = width := by
  rw [hexText, List.foldl_flip_cons_eq_append]
  simp

theorem spend_digest : spend.hash.length = 64 := by
  change spendHash.length = 64
  unfold spendHash
  exact length_hexText 64 _

theorem spend_signature_length : spend.signature.length = 128 := by
  unfold spend record upperHexText
  rw [List.length_map, length_hexText]

theorem spend_sized : isRecordSizeValid env spend = true :=
  (spend_checks.1 spend (by simp)).2

theorem forgedSpend_sized : isRecordSizeValid env forgedSpend = true :=
  (spend_checks.1 forgedSpend (by simp)).2

theorem spend_usable (currentBlock : Int) :
    pendingRecordLooksUsable env currentBlock spend = true := by
  unfold pendingRecordLooksUsable
  rw [spend_sized]
  rfl

theorem forgedSpend_admitted (currentBlock : Int) :
    admits env currentBlock true ⟨∅, []⟩ forgedSpend = true := by
  unfold admits
  rw [forgedSpend_sized, recordExists_empty]
  simp [isExpiredHeartbeatRecord, forgedSpend, spend, record, legacyHolds, legacyQueueRecords,
    getLines]

/-- A spend that is queued twice. -/
theorem queued_record_peeked_spend :
    let after := addToQueue env 101 true
      (runSubmissions env ⟨∅, []⟩ [.queue 101 true spend]) spend
    after.1 = 1 ∧ spend ∈ (peekQueueRecords env 102 true after.2).1 := by
  have self (store : PendingStore) : LeavesHash env spend store (.queue 101 true spend) :=
    leavesHash_self 101 spend_read
  apply queued_record_peeked env ⟨∅, []⟩ [.queue 101 true spend] spend 101 102 true
  · intro key present
    simp at present
  · intro line listed
    cases listed
  · exact spend_hash
  · rw [← spend_hash]
    exact spend_digest
  · exact ⟨self _, self _, trivial⟩
  · decide
  · exact spend_usable 102
  · rw [runSubmissions, List.foldl_cons, List.foldl_nil, Submission.apply,
      ← (sameChain_addToQueue 101 true ⟨∅, []⟩ spend).recordExists]
    exact recordExists_empty env _

/-- The forged spend is submitted first. -/
theorem forgedSpend_shadows_spend :
    let store := runSubmissions env ⟨∅, []⟩ [.api 101 true (recordJSON env forgedSpend)]
    let after := addToQueue env 101 true store spend
    spend.hash = getRecordHash env spend ∧
      env.verifyMessageCompressed spend.hash spend.signature spend.senderPublicKey = 1 ∧
      pendingRecordLooksUsable env 101 spend = true ∧
      recordExistsInAcceptedChain env store.db spend.hash = false ∧
      after.1 = 1 ∧ spend ∉ (peekQueueRecords env 101 true after.2).1 := by
  have submitted : runSubmissions env ⟨∅, []⟩ [.api 101 true (recordJSON env forgedSpend)] =
      (addToQueue env 101 true ⟨∅, []⟩ forgedSpend).2 := by
    rw [runSubmissions, List.foldl_cons, List.foldl_nil, Submission.apply, submitRecord,
      forgedSpend_read]
    rfl
  have signed : env.verifyMessageCompressed spend.hash spend.signature spend.senderPublicKey = 1 := by
    have listed : spend ∈ [joinRecord, issueRecord, spend, duplicateNonce, secondJoin, heartBeat,
        carryFirst, carrySecond, strayCarry, firstReward, secondReward, lostSpend, ownHeartBeat] := by
      simp only [List.mem_cons, true_or, or_true]
    change (if (spend.hash, spend.signature, spend.senderPublicKey) ∈ signatures then (1 : Int)
      else 0) = 1
    exact if_pos (List.mem_append_left _ (List.mem_map.mpr ⟨spend, listed, rfl⟩))
  have outside : recordExistsInAcceptedChain env (addToQueue env 101 true ⟨∅, []⟩ forgedSpend).2.db
      spend.hash = false := by
    rw [← (sameChain_addToQueue 101 true ⟨∅, []⟩ forgedSpend).recordExists]
    exact recordExists_empty env _
  dsimp only
  rw [submitted]
  refine ⟨spend_hash, signed, spend_usable 101, outside, ?_, ?_⟩
  · rw [addToQueue_eq, spend_sized]
    rfl
  · have hashes : spend.hash = forgedSpend.hash := rfl
    have hashed : 0 < forgedSpend.hash.length := by
      rw [← hashes, spend_digest]
      decide
    apply not_mem_peek_of_forged (forgedSpend_admitted 101) hashed hashes forgedSpend_read
    intro same
    have signatures : spend.signature.length = forgedSpend.signature.length :=
      congrArg (fun record => record.signature.length) same
    rw [spend_signature_length] at signatures
    cases signatures

end Sample

end Safire
