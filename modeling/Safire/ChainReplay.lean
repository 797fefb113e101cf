/-
The walk of `build` as a replay of the records of a chain.

What `build` folds depends on the database through the chain that the database
shows: the carry-forward checks look at the chain below their checkpoint. So the
replay of a chain is the walk on every database that shows it, and the replay of
a longer chain continues that of its front.
-/

import Safire.StorageAgreement

namespace Safire.LedgerState

open ChainValidator Text

variable {env : Env} {db : LevelDb} {chain : List Block}

/-! ### Checkpoints along a chain -/

/-- The balances after the blocks of a chain up to a checkpoint. -/
def balancesAlong (chain : List Block) (checkpoint : Int) : TextMap Rat :=
  ((chain.takeWhile (fun block => !decide (checkpoint < block.number))).foldl
    (fun progress block => block.records.foldl (balanceRound block) progress) (∅, ∅)).1

/-- The carry-forward check on the balances along a chain. -/
def snapshotAlong (chain : List Block) (record : Record) : Bool :=
  let checkpoint := parseCarryForwardValueLong record.value "checkpoint"
  if checkpoint < 0 then false
  else
    decide (|(balancesAlong chain checkpoint).getD record.recipientPublicKey 0 - record.amount| <
      balanceTolerance)

/-- A block above the checkpoint changes nothing at it. -/
theorem balancesAlong_snoc {block : Block} {checkpoint : Int} (below : checkpoint < block.number) :
    balancesAlong (chain ++ [block]) checkpoint = balancesAlong chain checkpoint := by
  have same : (chain ++ [block]).takeWhile (fun block => !decide (checkpoint < block.number)) =
      chain.takeWhile (fun block => !decide (checkpoint < block.number)) := by
    rw [List.takeWhile_append]
    split
    · rename_i whole
      rw [List.takeWhile_cons_of_neg (by simpa using below), List.append_nil]
      exact ((List.takeWhile_prefix _).eq_of_length whole).symm
    · rfl
  rw [balancesAlong, same, balancesAlong]

theorem snapshotAlong_snoc {block : Block} {record : Record}
    (below : parseCarryForwardValueLong record.value "checkpoint" < block.number) :
    snapshotAlong (chain ++ [block]) record = snapshotAlong chain record := by
  rw [snapshotAlong, snapshotAlong, balancesAlong_snoc below]

/-- What a basic carry-forward record has. -/
structure BasicCarryForward (record : Record) (number : Int) : Prop where
  kind : record.transactionType = .carryForward
  sender : record.senderPublicKey ≠ []
  recipient : record.recipientPublicKey ≠ []
  below : parseCarryForwardValueLong record.value "checkpoint" < number

theorem basicCarryForward_of_check {record : Record} {number : Int}
    (basic : isBasicCarryForwardRecord record number = true) : BasicCarryForward record number := by
  unfold isBasicCarryForwardRecord at basic
  dsimp only at basic
  split_ifs at basic with kind keys outside
  rw [not_or, List.length_eq_zero_iff, List.length_eq_zero_iff] at keys
  rw [not_or, not_or, not_le] at outside
  exact ⟨not_not.mp kind, keys.1, keys.2, outside.2.2⟩

section Stored

variable (stored : StoredAs env db chain) (ascending : Ascending chain) (present : chain ≠ [])
include stored ascending present

theorem ends_of_ascending : 0 < getFirstBlockId db ∧ 0 < getLatestBlockId db := by
  rw [stored.first _ (List.head?_eq_some_head present),
    stored.latest _ (List.getLast?_eq_some_getLast present)]
  exact ⟨ascending.positive _ (List.head_mem present),
    ascending.positive _ (List.getLast_mem present)⟩

theorem balancesThroughBlock_eq (checkpoint : Int) :
    balancesThroughBlock env db checkpoint = balancesAlong chain checkpoint := by
  obtain ⟨first, latest⟩ := ends_of_ascending stored ascending present
  rw [balancesThroughBlock, balancesAlong]
  dsimp only
  by_cases below : checkpoint < getFirstBlockId db
  · obtain ⟨genesis, rest, rfl⟩ := List.exists_cons_of_ne_nil present
    rw [stored.first genesis rfl] at below
    rw [if_pos (by rw [stored.first genesis rfl]; exact .inr (.inr below)),
      List.takeWhile_cons_of_neg (by simpa using below)]
    rfl
  · rw [if_neg (by omega), stored.walk_eq ascending present]
    · intro tip last
      rw [stored.latest tip last]
      simp
    · intro before parent child after place isLast
      have early := stored.below_latest ascending place
      rw [decide_eq_true_eq] at isLast
      omega

theorem carryForwardSnapshotMatches_eq :
    carryForwardSnapshotMatches env db = snapshotAlong chain := by
  funext record
  rw [carryForwardSnapshotMatches, snapshotAlong,
    balancesThroughBlock_eq stored ascending present]

end Stored

/-! ### The replay -/

/-- The walk of `build` over a chain, with no wallet and no chain ends. -/
def chainProgress (chain : List Block) : Progress :=
  walkEntries (snapshotAlong chain) [] (.start 0 0) (chainEntries chain)

def Progress.withEnds (progress : Progress) (firstBlockId latestBlockId : Int) : Progress :=
  { progress with
    result := { progress.result with
      firstBlockId := firstBlockId
      latestBlockId := latestBlockId } }

section Walk

variable {snapshotMatches : Record → Bool} {wallet : Text} {first latest : Int}

theorem applyCarryForward_withEnds (progress : Progress) (record : Record) :
    applyCarryForward (progress.withEnds first latest) record =
      (applyCarryForward progress record).withEnds first latest := by
  unfold applyCarryForward Progress.withEnds
  dsimp only
  split <;> rfl

theorem applyJoin_withEnds (progress : Progress) (block : Block) (record : Record) :
    applyJoin wallet (progress.withEnds first latest) block record =
      (applyJoin wallet progress block record).withEnds first latest := by
  unfold applyJoin Progress.withEnds Progress.withMembers
  dsimp only
  split_ifs <;> rfl

theorem applyMembership_withEnds (progress : Progress) (block : Block) (record : Record) :
    applyMembership snapshotMatches wallet (progress.withEnds first latest) block record =
      (applyMembership snapshotMatches wallet progress block record).withEnds first latest := by
  unfold applyMembership
  split_ifs
  · exact applyJoin_withEnds progress block record
  · rfl
  · rfl
  · exact applyCarryForward_withEnds progress record
  · rfl

theorem applyRecord_withEnds (progress : Progress) (block : Block) (record : Record) :
    applyRecord snapshotMatches wallet (progress.withEnds first latest) block record =
      (applyRecord snapshotMatches wallet progress block record).withEnds first latest := by
  rw [applyRecord, applyMembership_withEnds, applyRecord]
  rfl

theorem recordRound_withEnds (block : Block) (progress : Progress) (record : Record) :
    recordRound snapshotMatches wallet block (progress.withEnds first latest) record =
      (recordRound snapshotMatches wallet block progress record).withEnds first latest := by
  have hashes : (progress.withEnds first latest).result.acceptedRecordHashes =
      progress.result.acceptedRecordHashes := rfl
  unfold recordRound
  rw [hashes]
  split
  · rfl
  · exact applyRecord_withEnds { progress with
      result := { progress.result with
        acceptedRecordHashes :=
          if 0 < record.hash.length then progress.result.acceptedRecordHashes.insert record.hash
          else progress.result.acceptedRecordHashes } } block record

/-- The chain ends are carried through the walk unread. -/
theorem walkEntries_withEnds (start : Progress) (entries : List Entry) :
    walkEntries snapshotMatches wallet (start.withEnds first latest) entries =
      (walkEntries snapshotMatches wallet start entries).withEnds first latest := by
  induction entries using List.reverseRecOn with
  | nil => rfl
  | append_singleton entries entry ih =>
      rw [walkEntries_snoc, ih, walkEntries_snoc, recordRound_withEnds]

/-- The walk reads the check of basic carry-forwards only. -/
theorem applyMembership_congr {others : Record → Bool} {progress : Progress} {block : Block}
    {record : Record} (same : isBasicCarryForwardRecord record block.number = true →
      snapshotMatches record = others record) :
    applyMembership snapshotMatches wallet progress block record =
      applyMembership others wallet progress block record := by
  have guard : (isBasicCarryForwardRecord record block.number && snapshotMatches record) =
      (isBasicCarryForwardRecord record block.number && others record) := by
    cases basic : isBasicCarryForwardRecord record block.number with
    | false => rfl
    | true => rw [same basic]
  unfold applyMembership
  rw [guard]

theorem recordRound_congr {others : Record → Bool} {progress : Progress} {block : Block}
    {record : Record} (same : isBasicCarryForwardRecord record block.number = true →
      snapshotMatches record = others record) :
    recordRound snapshotMatches wallet block progress record =
      recordRound others wallet block progress record := by
  unfold recordRound
  dsimp only [applyRecord]
  rw [applyMembership_congr same]

theorem walkEntries_congr {others : Record → Bool} {start : Progress} {entries : List Entry}
    (same : ∀ entry ∈ entries, isBasicCarryForwardRecord entry.2 entry.1.number = true →
      snapshotMatches entry.2 = others entry.2) :
    walkEntries snapshotMatches wallet start entries = walkEntries others wallet start entries := by
  induction entries using List.reverseRecOn with
  | nil => rfl
  | append_singleton entries entry ih =>
      rw [walkEntries_snoc, walkEntries_snoc, ih fun other member =>
        same other (List.mem_append_left _ member)]
      exact recordRound_congr (same entry (by simp))

end Walk

/-- The replay goes on where the replay of the front ended. -/
theorem chainProgress_snoc {block : Block} (above : ∀ other ∈ chain, other.number < block.number) :
    chainProgress (chain ++ [block]) =
      blockRound (snapshotAlong (chain ++ [block])) [] (chainProgress chain) block := by
  have early : ∀ entry ∈ chainEntries chain,
      isBasicCarryForwardRecord entry.2 entry.1.number = true →
        snapshotAlong (chain ++ [block]) entry.2 = snapshotAlong chain entry.2 := by
    intro entry member basic
    have inChain := above entry.1 (mem_chainEntries.mp member).1
    have below := (basicCarryForward_of_check basic).below
    exact snapshotAlong_snoc (by omega)
  rw [chainProgress, ← foldl_blockRound, List.foldl_append, chainProgress,
    ← walkEntries_congr early, ← foldl_blockRound]
  rfl

/-- `build` on a store that shows the chain finishes the replay of the chain. -/
theorem computeState_replay (stored : StoredAs env db chain) (ascending : Ascending chain)
    (present : chain ≠ []) {stop : Int} (covers : stop ≤ 0 ∨ ∀ block ∈ chain, block.number ≤ stop)
    (now : Int) :
    computeState env db now [] stop =
      { finish ((chainProgress chain).withEnds (getFirstBlockId db) (buildLatestBlockId db stop)) []
          now with
        latestBlock := chain.getLast?.getD .missing
        connectedBlockCount := chain.length } := by
  have replay : walkedProgress env db [] stop chain =
      (chainProgress chain).withEnds (getFirstBlockId db) (buildLatestBlockId db stop) := by
    rw [walkedProgress, carryForwardSnapshotMatches_eq stored ascending present, chainProgress,
      ← walkEntries_withEnds]
    rfl
  rw [computeState_of_visited (stored.visitedBlocks_all ascending present covers), replay]

/-! ### The member tables of a replay -/

section Members

variable {members : List MemberState} {key other name : Text}

theorem isMember_iff :
    isMember members key = true ↔ key ∈ members.map (fun member => member.publicKey) := by
  simp [isMember]

theorem isMember_append_new (number : Int) :
    isMember (members ++ [newMember key number]) other = true ↔
      isMember members other = true ∨ key = other := by
  rw [isMember_iff, isMember_iff, List.map_append, List.mem_append]
  simp only [List.map_cons, List.map_nil, List.mem_singleton, newMember, eq_comm]

theorem keys_setMemberName : (setMemberName name key members).map (fun member => member.publicKey) =
    members.map (fun member => member.publicKey) :=
  @KeyedList.map_key_updateFirst MemberState Text _ (fun member => member.publicKey)
    (fun member => { member with name := name }) key (fun _ => rfl) members

theorem isMember_setMemberName : isMember (setMemberName name key members) other =
    isMember members other := by
  rw [Bool.eq_iff_iff, isMember_iff, isMember_iff, keys_setMemberName]

theorem memberName_append_new (number : Int) :
    memberName (members ++ [newMember key number]) other = memberName members other := by
  unfold memberName
  rw [List.find?_append]
  cases members.find? (fun member => decide (member.publicKey = other)) with
  | some member => rfl
  | none =>
      rw [Option.none_or, List.find?_singleton]
      cases decide ((newMember key number).publicKey = other) with
      | false => rfl
      | true => rfl

theorem memberName_setMemberName (known : isMember members key = true) :
    memberName (setMemberName name key members) other =
      if key = other then name else memberName members other := by
  rw [isMember_eq members ∅, isBranchMember_iff] at known
  rw [memberName_eq _ ∅, setMemberName_view, memberName_rename known, ← memberName_eq]

end Members

/-- The keys of the members are distinct, and an owner has the name it owns. -/
structure NameTables (members : List MemberState) (nameOwners : TextMap Text) : Prop where
  distinct : (members.map (fun member => member.publicKey)).Nodup
  owners : ∀ name key, nameOwners[name]? = some key →
    name ≠ [] ∧ isMember members key = true ∧ normalizedPublicName (memberName members key) = name

section Tables

variable {members : List MemberState} {nameOwners : TextMap Text} {key name : Text}

/-- A claim that is granted. -/
structure Grants (members : List MemberState) (nameOwners : TextMap Text) (key name : Text) :
    Prop where
  valid : normalizedPublicName name ≠ []
  member : isMember members key = true
  free : ∀ holder, nameOwners[normalizedPublicName name]? = some holder → holder = key

theorem claimPublicName_of_grants (grants : Grants members nameOwners key name) :
    claimPublicName members nameOwners key name =
      (setMemberName name key members,
        (releaseName nameOwners (normalizedPublicName (memberName members key)) key).insert
          (normalizedPublicName name) key) := by
  have free : nameOwners[normalizedPublicName name]?.any (fun owner => owner ≠ key) = false := by
    cases held : nameOwners[normalizedPublicName name]? with
    | none => rfl
    | some holder => simp [grants.free holder held]
  unfold claimPublicName
  dsimp only
  rw [if_neg (by simpa using grants.valid), if_neg (by simp [grants.member]),
    if_neg (by rw [free]; decide)]

theorem claimPublicName_of_refused (refused : ¬ Grants members nameOwners key name) :
    claimPublicName members nameOwners key name = (members, nameOwners) := by
  unfold claimPublicName
  dsimp only
  split_ifs with empty unknown taken
  · rfl
  · rfl
  · rfl
  · refine absurd ⟨?_, ?_, ?_⟩ refused
    · simpa using empty
    · simpa using unknown
    · intro holder held
      rw [held] at taken
      simpa using taken

/-- The previous name of the claimant is no longer owned. -/
theorem getElem?_releaseName {previous owned holder : Text}
    (found : (releaseName nameOwners previous key)[owned]? = some holder) :
    nameOwners[owned]? = some holder ∧ (holder = key → previous = owned → previous = []) := by
  unfold releaseName at found
  split at found
  · rw [Std.ExtTreeMap.getElem?_erase] at found
    split at found
    · cases found
    · rename_i other
      exact ⟨found, fun _ same => absurd (Std.LawfulEqCmp.compare_eq_iff_eq.mpr same) other⟩
  · rename_i kept
    refine ⟨found, fun own same => ?_⟩
    by_contra present
    rw [own, ← same] at found
    exact kept ⟨List.length_pos_of_ne_nil present, found⟩

theorem NameTables.claim (tables : NameTables members nameOwners) (key name : Text) :
    NameTables (claimPublicName members nameOwners key name).1
      (claimPublicName members nameOwners key name).2 := by
  by_cases grants : Grants members nameOwners key name
  · rw [claimPublicName_of_grants grants]
    constructor
    · rw [keys_setMemberName]
      exact tables.distinct
    · intro owned holder found
      dsimp only at found ⊢
      rw [isMember_setMemberName, memberName_setMemberName grants.member]
      rw [Std.ExtTreeMap.getElem?_insert] at found
      split at found
      · rename_i same
        rw [Std.LawfulEqCmp.compare_eq_iff_eq] at same
        rw [← same, ← Option.some.inj found, if_pos rfl]
        exact ⟨grants.valid, grants.member, rfl⟩
      · obtain ⟨before, released⟩ := getElem?_releaseName found
        obtain ⟨present, known, named⟩ := tables.owners owned holder before
        refine ⟨present, known, ?_⟩
        by_cases own : key = holder
        · rw [← own] at named released
          exact absurd ((released rfl named).symm.trans named) (Ne.symm present)
        · rw [if_neg own]
          exact named
  · rw [claimPublicName_of_refused grants]
    exact tables

theorem NameTables.join (tables : NameTables members nameOwners)
    (stranger : isMember members key = false) (number : Int) :
    NameTables (members ++ [newMember key number]) nameOwners := by
  constructor
  · rw [List.map_append, List.nodup_append]
    refine ⟨tables.distinct, List.nodup_singleton _, ?_⟩
    intro held member new last same
    rw [List.map_singleton, List.mem_singleton] at last
    have known := isMember_iff.mpr (same ▸ member)
    rw [last] at known
    exact absurd known (by simp [newMember, stranger])
  · intro owned holder found
    obtain ⟨present, known, named⟩ := tables.owners owned holder found
    rw [isMember_append_new, memberName_append_new]
    exact ⟨present, .inl known, named⟩

end Tables

section Replay

variable {snapshotMatches : Record → Bool} {wallet : Text} {progress : Progress} {block : Block}
variable {record : Record}

def Progress.Tables (progress : Progress) : Prop :=
  NameTables progress.result.members progress.nameOwners

/-- The members and owners after a join. -/
def joinTables (progress : Progress) (block : Block) (record : Record) :
    List MemberState × TextMap Text :=
  let members := progress.result.members
  let extended := members ++ [newMember record.senderPublicKey block.number]
  if isMember members record.senderPublicKey then (members, progress.nameOwners)
  else if 0 < record.name.length then
    claimPublicName extended progress.nameOwners record.senderPublicKey record.name
  else (extended, progress.nameOwners)

/-- A join changes the two tables, and the flag of the wallet. -/
theorem applyJoin_eq : applyJoin wallet progress block record =
    { progress.withMembers (joinTables progress block record) with
      result := { (progress.withMembers (joinTables progress block record)).result with
        joined := if record.senderPublicKey = wallet then true else progress.result.joined } } := by
  unfold applyJoin joinTables Progress.withMembers
  dsimp only
  split_ifs <;> rfl

theorem Progress.Tables.joined (tables : progress.Tables) (block : Block) (record : Record) :
    NameTables (joinTables progress block record).1 (joinTables progress block record).2 := by
  unfold joinTables
  dsimp only
  split_ifs with known named
  · exact tables
  · exact (tables.join (by simpa using known) block.number).claim _ _
  · exact tables.join (by simpa using known) block.number

theorem Progress.Tables.membership (tables : progress.Tables) (record : Record) :
    (applyMembership snapshotMatches wallet progress block record).Tables := by
  unfold applyMembership
  split_ifs
  · rw [applyJoin_eq]
    exact tables.joined block record
  · exact tables.claim _ _
  · exact tables
  · unfold applyCarryForward
    dsimp only
    split_ifs <;> exact tables
  · exact tables

def Progress.withHashes (progress : Progress) (hashes : TextSet) : Progress :=
  { progress with result := { progress.result with acceptedRecordHashes := hashes } }

/-- A round skips a record or applies it, with its hash marked where it has one. -/
theorem recordRound_cases (progress : Progress) (record : Record) :
    recordRound snapshotMatches wallet block progress record = progress ∨
      ∃ hashes, recordRound snapshotMatches wallet block progress record =
        applyRecord snapshotMatches wallet (progress.withHashes hashes) block record := by
  unfold recordRound
  split
  · exact .inl rfl
  · exact .inr ⟨_, rfl⟩

theorem Progress.Tables.round (tables : progress.Tables) (record : Record) :
    (recordRound snapshotMatches wallet block progress record).Tables := by
  cases @recordRound_cases snapshotMatches wallet block progress record with
  | inl skipped => rwa [skipped]
  | inr applied =>
      obtain ⟨hashes, applied⟩ := applied
      have marked : (progress.withHashes hashes).Tables := tables
      rw [applied]
      exact marked.membership record

/-- A heartbeat of the map was sent by a record of the block that it names. -/
def Progress.HeartbeatsFrom (progress : Progress) (entries : List Entry) : Prop :=
  ∀ key number, progress.latestHeartbeatBlockByUser[key]? = some number → ∃ entry ∈ entries,
    entry.2.transactionType = .heartBeat ∧ entry.2.senderPublicKey = key ∧ entry.1.number = number

theorem heartbeats_applyMembership {key : Text} {number : Int} (found :
    (applyMembership snapshotMatches wallet progress block
      record).latestHeartbeatBlockByUser[key]? = some number) :
    progress.latestHeartbeatBlockByUser[key]? = some number ∨
      record.transactionType = .heartBeat ∧ record.senderPublicKey = key ∧ block.number = number := by
  unfold applyMembership at found
  split_ifs at found with joins renames beats
  · rw [applyJoin_eq] at found
    exact .inl found
  · exact .inl found
  · rw [applyHeartBeat, Std.ExtTreeMap.getElem?_insert] at found
    split at found
    case isTrue same =>
      exact .inr ⟨beats.1, Std.LawfulEqCmp.compare_eq_iff_eq.mp same, Option.some.inj found⟩
    · exact .inl found
  · unfold applyCarryForward at found
    dsimp only at found
    split_ifs at found <;> exact .inl found
  · exact .inl found

theorem heartbeats_recordRound {key : Text} {number : Int} (found :
    (recordRound snapshotMatches wallet block progress
      record).latestHeartbeatBlockByUser[key]? = some number) :
    progress.latestHeartbeatBlockByUser[key]? = some number ∨
      record.transactionType = .heartBeat ∧ record.senderPublicKey = key ∧ block.number = number := by
  cases @recordRound_cases snapshotMatches wallet block progress record with
  | inl skipped =>
      rw [skipped] at found
      exact .inl found
  | inr applied =>
      obtain ⟨hashes, applied⟩ := applied
      rw [applied] at found
      exact @heartbeats_applyMembership snapshotMatches wallet (progress.withHashes hashes) block
        record key number found

/-- The facts of a replay that hold whatever the records are. -/
theorem replay_invariants (start : Progress) (tables : start.Tables)
    (silent : start.HeartbeatsFrom []) (entries : List Entry) :
    (walkEntries snapshotMatches wallet start entries).Tables ∧
      (walkEntries snapshotMatches wallet start entries).HeartbeatsFrom entries := by
  induction entries using List.reverseRecOn with
  | nil => exact ⟨tables, silent⟩
  | append_singleton entries entry ih =>
      rw [walkEntries_snoc]
      refine ⟨ih.1.round entry.2, fun key number found => ?_⟩
      cases heartbeats_recordRound found with
      | inl before =>
          obtain ⟨other, listed, facts⟩ := ih.2 key number before
          exact ⟨other, List.mem_append_left _ listed, facts⟩
      | inr own => exact ⟨entry, by simp, own⟩

theorem start_invariants (firstBlockId latestBlockId : Int) :
    (Progress.start firstBlockId latestBlockId).Tables ∧
      (Progress.start firstBlockId latestBlockId).HeartbeatsFrom [] := by
  constructor
  · refine ⟨List.nodup_nil, fun name key found => ?_⟩
    rw [Progress.start, Std.ExtTreeMap.getElem?_empty] at found
    cases found
  · intro key number found
    rw [Progress.start, Std.ExtTreeMap.getElem?_empty] at found
    cases found

end Replay

/-! ### Active members -/

theorem finish_active (progress : Progress) (wallet : Text) (now : Int) :
    (finish progress wallet now).activeMemberKeys = (finishMembers progress now).activeMemberKeys ∧
      (finish progress wallet now).chainHasHeartbeatRecords =
        progress.result.chainHasHeartbeatRecords := by
  have beat : ∀ state : State, (finishHeartbeat state now).activeMemberKeys = state.activeMemberKeys ∧
      (finishHeartbeat state now).chainHasHeartbeatRecords = state.chainHasHeartbeatRecords := by
    intro state
    unfold finishHeartbeat
    dsimp only
    split_ifs <;> exact ⟨rfl, rfl⟩
  rw [finish, finishTotals]
  dsimp only
  split
  · exact beat (finishMembers progress now)
  · exact beat (finishMembers progress now)

/-- Whatever the store holds, nobody is listed twice among the active members, and who
is listed has sent a heartbeat in a visited block that is recent enough. -/
theorem active_members_beat (env : Env) (db : LevelDb) (wallet : Text) (stop : Int) {now : Int}
    (clock : heartbeatValidBlocks ≤ now)
    (beaten : (computeState env db now wallet stop).chainHasHeartbeatRecords = true) :
    (computeState env db now wallet stop).activeMemberKeys.Nodup ∧
      ∀ key ∈ (computeState env db now wallet stop).activeMemberKeys,
        ∃ block ∈ visitedBlocks env db stop, now - heartbeatValidBlocks ≤ block.number ∧
          ∃ record ∈ block.records, record.transactionType = .heartBeat ∧
            record.senderPublicKey = key := by
  obtain ⟨tables, silent⟩ := start_invariants (getFirstBlockId db) (buildLatestBlockId db stop)
  have invariants : (walkedProgress env db wallet stop (visitedBlocks env db stop)).Tables ∧
      (walkedProgress env db wallet stop (visitedBlocks env db stop)).HeartbeatsFrom
        (chainEntries (visitedBlocks env db stop)) := replay_invariants _ tables silent _
  rw [computeState_of_visited rfl] at beaten ⊢
  dsimp only at beaten ⊢
  generalize walkedProgress env db wallet stop (visitedBlocks env db stop) = progress
    at beaten invariants ⊢
  obtain ⟨listing, flag⟩ := finish_active progress wallet now
  rw [flag] at beaten
  rw [listing, finishMembers]
  dsimp only
  constructor
  · refine List.Nodup.sublist (List.Sublist.map _ List.filter_sublist) ?_
    rw [List.map_map]
    exact invariants.1.distinct
  · intro key listed
    obtain ⟨member, kept, rfl⟩ := List.mem_map.mp listed
    obtain ⟨inMembers, active⟩ := List.mem_filter.mp kept
    obtain ⟨before, -, rfl⟩ := List.mem_map.mp inMembers
    simp only [beaten, Bool.true_eq_false, false_or, decide_eq_true_eq, mergeHeartbeat] at active
    cases found : progress.latestHeartbeatBlockByUser[before.publicKey]? with
    | none =>
        rw [Std.ExtTreeMap.getD_eq_getD_getElem?, found, Option.getD_none] at active
        omega
    | some number =>
        rw [Std.ExtTreeMap.getD_eq_getD_getElem?, found, Option.getD_some] at active
        obtain ⟨entry, visited, kind, sender, rfl⟩ := invariants.2 _ number found
        obtain ⟨inChain, inBlock⟩ := mem_chainEntries.mp visited
        exact ⟨entry.1, inChain, active, entry.2, inBlock, kind, sender⟩

/-! ### One block more -/

/-- What `build` returns for a replay that has visited a chain. -/
def builtFrom (progress : Progress) (db : LevelDb) (stop now : Int) (chain : List Block) : State :=
  { finish (progress.withEnds (getFirstBlockId db) (buildLatestBlockId db stop)) [] now with
    latestBlock := chain.getLast?.getD .missing
    connectedBlockCount := chain.length }

/-- The state built after one more block is the state built before, carried on by the
round of that block alone. -/
theorem build_extends {block : Block} {longer : LevelDb} (stored : StoredAs env db chain)
    (extended : StoredAs env longer (chain ++ [block])) (ascending : Ascending (chain ++ [block]))
    (present : chain ≠ []) {stop : Int} (whole : stop ≤ 0) (now : Int) :
    computeState env db now [] stop = builtFrom (chainProgress chain) db stop now chain ∧
      computeState env longer now [] stop =
        builtFrom (blockRound (snapshotAlong (chain ++ [block])) [] (chainProgress chain) block) longer
          stop now (chain ++ [block]) := by
  have parts := List.pairwise_append.mp ascending.sorted
  have front : Ascending chain :=
    ⟨fun other member => ascending.positive other (List.mem_append_left _ member), parts.1⟩
  have above : ∀ other ∈ chain, other.number < block.number := fun other member =>
    parts.2.2 other member block (List.mem_singleton_self block)
  have grown : chain ++ [block] ≠ [] := List.append_ne_nil_of_right_ne_nil _ (List.cons_ne_nil _ _)
  constructor
  · exact computeState_replay stored front present (.inl whole) now
  · rw [computeState_replay extended ascending grown (.inl whole) now, chainProgress_snoc above]
    rfl

end Safire.LedgerState

namespace Safire.Sample

open LedgerState

/-- The genesis block and the user's first block, stored under the checkpointed head. -/
@[irreducible]
def membersStore : LevelDb :=
  canonicalStore Sample.env genesis [joinedBlock]

theorem storedAs_membersStore : StoredAs Sample.env membersStore [genesis, joinedBlock] := by
  unfold membersStore
  exact Sample.storedAs (List.mem_iff_getElem?.mpr ⟨7, rfl⟩) accepts_joinedBlock (by decide)

theorem joined_members_beat :
    (computeState Sample.env membersStore 5800 [] (-1)).activeMemberKeys.Nodup ∧
      ∀ key ∈ (computeState Sample.env membersStore 5800 [] (-1)).activeMemberKeys,
        ∃ block ∈ visitedBlocks Sample.env membersStore (-1),
          5800 - heartbeatValidBlocks ≤ block.number ∧
            ∃ record ∈ block.records, record.transactionType = .heartBeat ∧
              record.senderPublicKey = key := by
  have beaten : (computeState Sample.env membersStore 5800 [] (-1)).chainHasHeartbeatRecords =
      true := by
    rw [computeState_replay storedAs_membersStore (ascending_of_accepts accepts_joinedBlock)
      (List.cons_ne_nil _ _) (.inl (by decide)) 5800]
    exact (finish_active _ [] 5800).2.trans (by decide +kernel)
  exact active_members_beat Sample.env membersStore [] (-1) (by decide) beaten

theorem stray_build_extends :
    computeState Sample.env (canonicalStore Sample.env genesis []) 0 [] (-1) =
        builtFrom (chainProgress [genesis]) (canonicalStore Sample.env genesis []) (-1) 0 [genesis] ∧
      computeState Sample.env strayStore 0 [] (-1) =
        builtFrom (blockRound (snapshotAlong [genesis, strayBlock]) [] (chainProgress [genesis])
          strayBlock) strayStore (-1) 0 [genesis, strayBlock] :=
  build_extends storedAs_genesis storedAs_strayStore
    (ascending_of_accepts accepts_strayBlock) (List.cons_ne_nil _ _) (by decide) 0

end Safire.Sample
