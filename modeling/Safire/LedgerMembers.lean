/-
The members of the ledger are the members of the branch validator.

The ledger keeps the last heartbeats in a map beside the member list and merges
the two after the walk; the validator updates its members in place. The relation
below holds after every record of an accepted chain.
-/

import Safire.LedgerWalk
import Safire.CanonicalStore
import Safire.BranchMembers

namespace Safire.LedgerState

open ChainValidator KeyedList

variable {env : Env} {db : LevelDb} {chain : List Block}

/-- A member as the validator holds it, with its entry of the heartbeat map. -/
def withHeartbeat (heartbeats : TextMap Int) (member : MemberState) : BranchMember :=
  { member.toBranchMember with lastHeartbeatBlock := heartbeats.getD member.publicKey (-1) }

@[simp] theorem withHeartbeat_publicKey (heartbeats : TextMap Int) (member : MemberState) :
    (withHeartbeat heartbeats member).publicKey = member.publicKey :=
  rfl

structure MembersAgree (progress : Progress) (state : BranchState) : Prop where
  members : state.members =
    progress.result.members.map (withHeartbeat progress.latestHeartbeatBlockByUser)
  owners : state.nameOwners = progress.nameOwners
  flag : state.chainHasHeartbeatRecords = progress.result.chainHasHeartbeatRecords
  hashes : state.acceptedRecordHashes = progress.result.acceptedRecordHashes
  heartbeats : ∀ key, key ∈ progress.latestHeartbeatBlockByUser → key ∈ memberKeys state.members

theorem membersAgree_start (first latest : Int) :
    MembersAgree (.start first latest) .initial where
  members := rfl
  owners := rfl
  flag := rfl
  hashes := rfl
  heartbeats := by
    intro key member
    exact absurd member Std.ExtTreeMap.not_mem_empty

section Views

variable {members : List MemberState} {heartbeats : TextMap Int} {key : Text}

theorem isMember_eq (members : List MemberState) (heartbeats : TextMap Int) (key : Text) :
    isMember members key = isBranchMember (members.map (withHeartbeat heartbeats)) key := by
  rw [isMember, isBranchMember, List.any_map]
  rfl

theorem memberName_eq (members : List MemberState) (heartbeats : TextMap Int) (key : Text) :
    memberName members key =
      ChainValidator.memberName (members.map (withHeartbeat heartbeats)) key := by
  rw [memberName, ChainValidator.memberName, List.find?_map]
  have same : (fun member : BranchMember => decide (member.publicKey = key)) ∘
      withHeartbeat heartbeats = fun member : MemberState => decide (member.publicKey = key) := rfl
  rw [same]
  cases members.find? (fun member => decide (member.publicKey = key)) with
  | none => rfl
  | some member => rfl

theorem setMemberName_view (name : Text) :
    (setMemberName name key members).map (withHeartbeat heartbeats) =
      updateMember (fun member => { member with name := name }) key
        (members.map (withHeartbeat heartbeats)) := by
  rw [setMemberName, updateMember]
  exact (updateFirst_map (withHeartbeat_publicKey heartbeats) (fun _ => rfl) members).symm

theorem newMember_view (members : List MemberState) (number : Int) (absent : key ∉ heartbeats) :
    (members ++ [newMember key number]).map (withHeartbeat heartbeats) =
      members.map (withHeartbeat heartbeats) ++ [newBranchMember key number] := by
  rw [List.map_append, List.map_singleton]
  congr 2
  simp only [withHeartbeat, newMember, newBranchMember, BranchMember.mk.injEq, true_and]
  exact Std.ExtTreeMap.getD_eq_fallback absent

/-- Raising the map entry of a member raises the member and no other. -/
theorem insert_heartbeat_view (number : Int)
    (distinct : (memberKeys (members.map (withHeartbeat heartbeats))).Nodup) :
    members.map (withHeartbeat (heartbeats.insert key number)) =
      updateMember (fun member => { member with lastHeartbeatBlock := number }) key
        (members.map (withHeartbeat heartbeats)) := by
  rw [updateMember, updateFirst_eq_map distinct, List.map_map]
  refine List.map_congr_left ?_
  intro member _
  rw [Function.comp_apply]
  by_cases own : (withHeartbeat heartbeats member).publicKey = key
  · rw [if_pos own, ← own, withHeartbeat_publicKey, withHeartbeat, Std.ExtTreeMap.getD_insert_self]
    rfl
  · rw [if_neg own, withHeartbeat, Std.ExtTreeMap.getD_insert, if_neg (by simpa using Ne.symm own)]
    rfl

/-- A claim that the validator grants is granted by the ledger, with the same owners. -/
theorem claimPublicName_view {nameOwners owners : TextMap Text} {name normalized : Text}
    {renamed : List BranchMember}
    (valid : ∀ member ∈ members, member.name ≠ [] →
      ∃ normalized, normalizedName member.name = some normalized)
    (claimed : Claimed (members.map (withHeartbeat heartbeats)) nameOwners key name renamed owners
      normalized) :
    (claimPublicName members nameOwners key name).1.map (withHeartbeat heartbeats) = renamed ∧
      (claimPublicName members nameOwners key name).2 = owners := by
  have normal : normalizedPublicName name = normalized := by
    rw [normalizedPublicName, claimed.valid, Option.getD_some]
  have present : normalized.length ≠ 0 := by
    rw [Ne, List.length_eq_zero_iff]
    exact normalizedName_ne_nil claimed.valid
  have member : isMember members key = true := by
    rw [isMember_eq members heartbeats, isBranchMember_iff]
    exact claimed.member
  have free : nameOwners[normalized]?.any (fun owner => owner ≠ key) = false := by
    cases held : nameOwners[normalized]? with
    | none => rfl
    | some holder => simp [claimed.free holder held]
  -- The two normalisations differ on invalid names only, and no member has one.
  have previous : normalizedPublicName (memberName members key) =
      ChainValidator.normalizedPublicName (memberName members key) := by
    unfold memberName
    cases found : members.find? (fun member => decide (member.publicKey = key)) with
    | none => rfl
    | some member =>
        dsimp only
        by_cases unnamed : member.name = []
        · rw [unnamed]
          rfl
        · obtain ⟨old, oldValid⟩ := valid member (List.mem_of_find?_eq_some found) unnamed
          rw [normalizedPublicName_valid oldValid, normalizedPublicName, oldValid, Option.getD_some]
  unfold claimPublicName
  dsimp only
  rw [normal, if_neg present, if_neg (by simp [member]), if_neg (by rw [free]; simp)]
  refine ⟨?_, ?_⟩
  · rw [claimed.renamed_eq]
    exact setMemberName_view name
  · rw [claimed.owners_eq, previous, memberName_eq members heartbeats]

end Views

/-! ### One record -/

section Step

variable {snapshotMatches : Record → Bool} {wallet : Text}
variable {progress : Progress} {state : BranchState} {block : Block} {record : Record}

/-- The amounts do not touch the members. -/
theorem MembersAgree.amounts (agree : MembersAgree progress state) :
    MembersAgree (applyAmounts progress block record) state :=
  ⟨agree.members, agree.owners, agree.flag, agree.hashes, agree.heartbeats⟩

theorem MembersAgree.marked (agree : MembersAgree progress state) (record : Record) :
    MembersAgree (progress.markHash record) (acceptHash state record) where
  members := agree.members
  owners := agree.owners
  flag := agree.flag
  hashes := by rw [acceptHash, Progress.markHash, agree.hashes]
  heartbeats := agree.heartbeats

theorem applyMembership_other (notJoin : record.transactionType ≠ .joinNetwork)
    (notRename : record.transactionType ≠ .updateName)
    (notHeartBeat : record.transactionType ≠ .heartBeat)
    (notCarryForward : record.transactionType ≠ .carryForward) :
    applyMembership snapshotMatches wallet progress block record = progress := by
  simp [applyMembership, notJoin, notRename, notHeartBeat, isBasicCarryForwardRecord,
    notCarryForward]

theorem applyMembership_carryForward (kind : record.transactionType = .carryForward) :
    applyMembership snapshotMatches wallet progress block record =
      if isBasicCarryForwardRecord record block.number && snapshotMatches record then
        applyCarryForward progress record
      else progress := by
  simp [applyMembership, kind]

theorem MembersAgree.carryForward (agree : MembersAgree progress state)
    (kind : record.transactionType = .carryForward) :
    MembersAgree (applyMembership snapshotMatches wallet progress block record) state := by
  rw [applyMembership_carryForward kind]
  split
  · unfold applyCarryForward
    dsimp only
    split
    · exact ⟨agree.members, agree.owners, agree.flag, agree.hashes, agree.heartbeats⟩
    · exact agree
  · exact agree

/-- The effect of a join on the member tables; the wallet's own flag aside. -/
theorem MembersAgree.of_join (kind : record.transactionType = .joinNetwork) (signed : record.senderPublicKey ≠ [])
    {members : List BranchMember} {owners : TextMap Text} {admitted : Progress}
    (admits : admitted = progress.withMembers
      (if 0 < record.name.length then
        claimPublicName (progress.result.members ++ [newMember record.senderPublicKey block.number])
          progress.nameOwners record.senderPublicKey record.name
      else (progress.result.members ++ [newMember record.senderPublicKey block.number],
        progress.nameOwners)))
    (stranger : isMember progress.result.members record.senderPublicKey = false)
    (after : MembersAgree admitted { state with members := members, nameOwners := owners }) :
    MembersAgree (applyMembership snapshotMatches wallet progress block record)
      { state with members := members, nameOwners := owners } := by
  have effect : applyMembership snapshotMatches wallet progress block record =
      if record.senderPublicKey = wallet then
        { admitted with result := { admitted.result with joined := true } }
      else admitted := by
    rw [applyMembership, if_pos ⟨kind, List.length_pos_of_ne_nil signed⟩, applyJoin, admits]
    dsimp only
    rw [stranger, if_neg Bool.false_ne_true]
  rw [effect]
  split
  · exact ⟨after.members, after.owners, after.flag, after.hashes, after.heartbeats⟩
  · exact after

/-- Adding a stranger: its key has no heartbeat yet. -/
theorem MembersAgree.newMember_view (agree : MembersAgree progress state)
    (stranger : isBranchMember state.members record.senderPublicKey = false) :
    (progress.result.members ++ [newMember record.senderPublicKey block.number]).map
        (withHeartbeat progress.latestHeartbeatBlockByUser) =
      joinedMembers block state record := by
  have absent : record.senderPublicKey ∉ progress.latestHeartbeatBlockByUser := by
    intro present
    have member := isBranchMember_iff.mpr (agree.heartbeats _ present)
    rw [stranger] at member
    cases member
  rw [LedgerState.newMember_view _ _ absent, ← agree.members, joinedMembers, stranger,
    if_neg Bool.false_ne_true]

theorem MembersAgree.valid_names {done : List Entry} (agree : MembersAgree progress state)
    (wellFormed : MembersWellFormed done state) :
    ∀ member ∈ progress.result.members, member.name ≠ [] →
      ∃ normalized, normalizedName member.name = some normalized := by
  intro member found named
  refine wellFormed.valid (withHeartbeat progress.latestHeartbeatBlockByUser member) ?_ named
  rw [agree.members]
  exact List.mem_map_of_mem found

theorem MembersAgree.applied {isGenesis : Bool} {next : BranchState} {done : List Entry}
    (agree : MembersAgree progress state) (wellFormed : MembersWellFormed done state)
    (signed : recordRequiresSenderSignature record = true → record.senderPublicKey ≠ [])
    (fresh : record.transactionType = .joinNetwork →
      isBranchMember state.members record.senderPublicKey = false)
    (known : record.transactionType = .heartBeat →
      isBranchMember state.members record.senderPublicKey = true)
    (applied : Applied block isGenesis state record next) :
    MembersAgree (applyMembership snapshotMatches wallet progress block record) next := by
  cases applied with
  | issue kind | transfer kind | vote kind =>
      rw [applyMembership_other (by simp [kind]) (by simp [kind]) (by simp [kind]) (by simp [kind])]
      exact ⟨agree.members, agree.owners, agree.flag, agree.hashes, agree.heartbeats⟩
  | join kind _ unnamed =>
      have stranger := fresh kind
      refine .of_join kind (signed (by simp [recordRequiresSenderSignature, kind])) rfl
        (by rw [isMember_eq _ progress.latestHeartbeatBlockByUser, ← agree.members, stranger]) ?_
      rw [unnamed, if_neg (by simp)]
      exact ⟨(agree.newMember_view stranger).symm, agree.owners, agree.flag, agree.hashes,
        fun key present => mem_joinedMembers.mpr (.inl (agree.heartbeats key present))⟩
  | joinNamed kind _ named renamed owners claimed =>
      have stranger := fresh kind
      obtain ⟨normalized, granted⟩ := claimBranchName_some claimed
      rw [← agree.newMember_view stranger, agree.owners] at granted
      have valid : ∀ member ∈ progress.result.members ++
          [newMember record.senderPublicKey block.number], member.name ≠ [] →
          ∃ normalized, normalizedName member.name = some normalized := by
        intro member found
        rcases List.mem_append.mp found with old | new
        · exact agree.valid_names wellFormed member old
        · rw [List.mem_singleton.mp new]
          exact fun present => absurd rfl present
      obtain ⟨members, ownersSame⟩ := claimPublicName_view valid granted
      refine .of_join kind (signed (by simp [recordRequiresSenderSignature, kind])) rfl
        (by rw [isMember_eq _ progress.latestHeartbeatBlockByUser, ← agree.members, stranger]) ?_
      rw [if_pos (List.length_pos_of_ne_nil named)]
      refine ⟨members.symm, ownersSame.symm, agree.flag, agree.hashes, ?_⟩
      intro key present
      change key ∈ memberKeys renamed
      rw [granted.keys, agree.newMember_view stranger]
      exact mem_joinedMembers.mpr (.inl (agree.heartbeats key present))
  | rename kind member named renamed owners claimed =>
      obtain ⟨normalized, granted⟩ := claimBranchName_some claimed
      rw [agree.members, agree.owners] at granted
      obtain ⟨members, ownersSame⟩ := claimPublicName_view (agree.valid_names wellFormed) granted
      have sender := signed (by simp [recordRequiresSenderSignature, kind])
      rw [applyMembership, if_neg (by simp [kind]),
        if_pos ⟨kind, List.length_pos_of_ne_nil sender, List.length_pos_of_ne_nil named⟩]
      refine ⟨members.symm, ownersSame.symm, agree.flag, agree.hashes, ?_⟩
      intro key present
      change key ∈ memberKeys renamed
      rw [granted.keys, ← agree.members]
      exact agree.heartbeats key present
  | heartBeat kind member =>
      have sender := signed (by simp [recordRequiresSenderSignature, kind])
      rw [applyMembership, if_neg (by simp [kind]), if_neg (by simp [kind]),
        if_pos ⟨kind, List.length_pos_of_ne_nil sender⟩]
      refine ⟨?_, agree.owners, rfl, agree.hashes, ?_⟩
      · rw [applyHeartBeat, insert_heartbeat_view _ (agree.members ▸ wellFormed.distinct),
          ← agree.members]
      · intro key present
        change key ∈ memberKeys (updateMember _ _ state.members)
        rw [memberKeys_heartbeat]
        rcases Std.ExtTreeMap.mem_insert.mp present with own | old
        · rw [← Std.LawfulEqCmp.compare_eq_iff_eq.mp own]
          exact isBranchMember_iff.mp member
        · exact agree.heartbeats key old
  | strayHeartBeat kind _ stranger =>
      rw [known kind] at stranger
      cases stranger
  | carryForward kind =>
      have kept : MembersAgree (applyMembership snapshotMatches wallet progress block record) state :=
        agree.carryForward kind
      exact ⟨kept.members, kept.owners, kept.flag, kept.hashes, kept.heartbeats⟩
  | carryForwardAgain kind => exact agree.carryForward kind

end Step

/-! ### The whole chain -/

theorem join_fresh {block : Block} {isGenesis : Bool} {state next : BranchState} {record : Record}
    (applied : Applied block isGenesis state record next)
    (kind : record.transactionType = .joinNetwork) (later : isGenesis = false) :
    isBranchMember state.members record.senderPublicKey = false := by
  cases applied with
  | join _ fresh => exact fresh later
  | joinNamed _ fresh => exact fresh later
  | issue other | transfer other | vote other | rename other | heartBeat other
  | strayHeartBeat other | carryForward other | carryForwardAgain other =>
      rw [kind] at other
      cases other

theorem heartbeat_known {block : Block} {isGenesis : Bool} {state next : BranchState}
    {record : Record} (applied : Applied block isGenesis state record next)
    (kind : record.transactionType = .heartBeat) (later : isGenesis = false) :
    isBranchMember state.members record.senderPublicKey = true := by
  cases applied with
  | heartBeat _ member => exact member
  | strayHeartBeat _ atGenesis =>
      rw [later] at atGenesis
      cases atGenesis
  | issue other | transfer other | vote other | rename other | join other | joinNamed other
  | carryForward other | carryForwardAgain other =>
      rw [kind] at other
      cases other

/-- In a builder-shaped chain a joining key is new, and only members send heartbeats. -/
theorem membersAgree_step (shaped : BuilderShaped chain) (snapshotMatches : Record → Bool)
    (wallet : Text) (first latest : Int) :
    PreservedByRecords env chain (fun done state => MembersWellFormed done state ∧
      MembersAgree (walkEntries snapshotMatches wallet (.start first latest) done) state) := by
  rintro before block after earlier record later state seen next place split ⟨wellFormed, agree⟩
    connected
  refine ⟨membersWellFormed_step chain before block after earlier record later state seen next place
    split wellFormed connected, ?_⟩
  obtain ⟨-, hashed, unseen, signed, applied⟩ := connected_of_ok connected
  rw [walkEntries_snoc, recordRound_of_new _ _ hashed (agree.hashes ▸ unseen), applyRecord]
  refine MembersAgree.amounts ?_
  have marked : MembersWellFormed (history before block earlier) (acceptHash state record) :=
    ⟨wellFormed.distinct, wellFormed.joined, wellFormed.valid, wellFormed.owners⟩
  refine (agree.marked record).applied marked (fun needed => (signed needed).1) ?_ ?_ applied
  · intro kind
    cases before with
    | cons => exact join_fresh applied kind rfl
    | nil =>
        have shape : BuilderGenesis block := shaped block (by rw [place]; rfl)
        by_contra joinedBefore
        rw [Bool.not_eq_false] at joinedBefore
        obtain ⟨entry, found, joins, -⟩ := marked.joined _ (isBranchMember_iff.mp joinedBefore)
        obtain ⟨other, inEarlier, rfl⟩ : ∃ other ∈ earlier, entry = (block, other) := by
          simpa [history, chainEntries, eq_comm] using found
        exact shape.joins_once split kind other inEarlier joins
  · intro kind
    cases before with
    | cons => exact heartbeat_known applied kind rfl
    | nil =>
        have shape : BuilderGenesis block := shaped block (by rw [place]; rfl)
        have inBlock : record ∈ block.records := by
          rw [split]
          simp
        rcases shape.kinds inBlock with joins | issues
        · rw [kind] at joins
          cases joins
        · rw [kind] at issues
          cases issues

theorem membersAgree_of_connected (shaped : BuilderShaped chain) {before after : List Block}
    (place : chain = before ++ after) {state : BranchState}
    (connected : connectChain env before = .ok state) (snapshotMatches : Record → Bool)
    (wallet : Text) (first latest : Int) :
    MembersAgree (walkEntries snapshotMatches wallet (.start first latest) (chainEntries before))
      state :=
  (holds_after_blocks ⟨membersWellFormed_initial, membersAgree_start first latest⟩
    (membersAgree_step shaped snapshotMatches wallet first latest)
    (fun _ _ _ held =>
      ⟨⟨held.1.distinct, held.1.joined, held.1.valid, held.1.owners⟩,
        ⟨held.2.members, held.2.owners, held.2.flag, held.2.hashes, held.2.heartbeats⟩⟩)
    place connected).2

theorem memberNames_iff {members : List MemberState}
    (distinct : (members.map (fun member => member.publicKey)).Nodup) {key name : Text} :
    (memberNames members)[key]? = some name ↔
      name ≠ [] ∧ ∃ member ∈ members, member.publicKey = key ∧ member.name = name := by
  induction members using List.reverseRecOn with
  | nil => simp [memberNames]
  | append_singleton members last ih =>
      rw [List.map_append, List.map_singleton] at distinct
      have fresh : ∀ member ∈ members, member.publicKey ≠ last.publicKey := by
        intro member found same
        exact List.disjoint_of_nodup_append distinct
          (List.mem_map_of_mem (f := fun member => member.publicKey) found) (by simp [same])
      have old := ih (List.Nodup.of_append_left distinct)
      rw [memberNames, List.foldl_append, List.foldl_cons, List.foldl_nil]
      change (if 0 < last.name.length then
        (memberNames members).insert last.publicKey last.name else memberNames members)[key]? = _ ↔ _
      by_cases named : 0 < last.name.length
      · rw [if_pos named, Std.ExtTreeMap.getElem?_insert]
        by_cases own : last.publicKey = key
        · subst own
          rw [if_pos Std.ReflCmp.compare_self, Option.some.injEq]
          constructor
          · rintro rfl
            exact ⟨List.ne_nil_of_length_pos named, last, by simp, rfl, rfl⟩
          · rintro ⟨-, member, found, same, rfl⟩
            rcases List.mem_append.mp found with early | new
            · exact absurd same (fresh member early)
            · rw [List.mem_singleton.mp new]
        · rw [if_neg (by simpa using own), old]
          simp [own]
      · have unnamed : last.name = [] := by simpa using named
        rw [if_neg named, old]
        simp only [List.mem_append, List.mem_singleton]
        constructor
        · rintro ⟨present, member, found, same, named⟩
          exact ⟨present, member, .inl found, same, named⟩
        · rintro ⟨present, member, early | rfl, same, rfl⟩
          · exact ⟨present, member, early, same, rfl⟩
          · exact absurd unnamed present

theorem finish_members (progress : Progress) (wallet : Text) (now : Int) :
    (finish progress wallet now).members = (finishMembers progress now).members ∧
      (finish progress wallet now).names = memberNames (finishMembers progress now).members ∧
      (finish progress wallet now).chainHasHeartbeatRecords =
        progress.result.chainHasHeartbeatRecords := by
  have heartbeat : ∀ state : State, (finishHeartbeat state now).members = state.members ∧
      (finishHeartbeat state now).names = state.names ∧
      (finishHeartbeat state now).chainHasHeartbeatRecords = state.chainHasHeartbeatRecords := by
    intro state
    unfold finishHeartbeat
    dsimp only
    split_ifs <;> exact ⟨rfl, rfl, rfl⟩
  have totals : ∀ state : State, (finishTotals state wallet).members = state.members ∧
      (finishTotals state wallet).names = state.names ∧
      (finishTotals state wallet).chainHasHeartbeatRecords = state.chainHasHeartbeatRecords := by
    intro state
    unfold finishTotals
    dsimp only
    split_ifs <;> exact ⟨rfl, rfl, rfl⟩
  obtain ⟨members, names, flag⟩ := totals (finishHeartbeat (finishMembers progress now) now)
  obtain ⟨members', names', flag'⟩ := heartbeat (finishMembers progress now)
  exact ⟨members.trans members', names.trans names', flag.trans flag'⟩

/-- After the walk the ledger shows the members of the branch, their names and the flag. -/
theorem MembersAgree.finished {progress : Progress} {state : BranchState}
    (agree : MembersAgree progress state) (distinct : (memberKeys state.members).Nodup)
    (wallet : Text) (now : Int) :
    (finish progress wallet now).members.map MemberState.toBranchMember = state.members ∧
      (finish progress wallet now).chainHasHeartbeatRecords = state.chainHasHeartbeatRecords ∧
      ∀ key name, (finish progress wallet now).names[key]? = some name ↔
        name ≠ [] ∧ ∃ member ∈ state.members, member.publicKey = key ∧ member.name = name := by
  obtain ⟨members, names, flag⟩ := finish_members progress wallet now
  have view : (finishMembers progress now).members.map MemberState.toBranchMember =
      state.members := by
    rw [agree.members, finishMembers, List.map_map]
    rfl
  rw [members, names, flag]
  refine ⟨view, agree.flag.symm, ?_⟩
  intro key name
  have keys : ((finishMembers progress now).members.map (fun member => member.publicKey)).Nodup := by
    rw [← view, memberKeys, List.map_map] at distinct
    exact distinct
  rw [memberNames_iff keys, ← view]
  simp only [List.mem_map, exists_exists_and_eq_and]

theorem build_members_eq_branch_members (accepted : Accepts env chain)
    (shaped : BuilderShaped chain) (stored : StoredAs env db chain) (queries : List Query)
    (now : Int) (wallet : Text) :
    ∃ state, connectChain env chain = .ok state ∧
      (build env db (cacheAfter env db queries) now wallet (-1)).1.members.map
        MemberState.toBranchMember = state.members ∧
      (build env db (cacheAfter env db queries) now wallet (-1)).1.chainHasHeartbeatRecords =
        state.chainHasHeartbeatRecords ∧
      ∀ key name,
        (build env db (cacheAfter env db queries) now wallet (-1)).1.names[key]? = some name ↔
          name ≠ [] ∧ ∃ member ∈ state.members, member.publicKey = key ∧ member.name = name := by
  obtain ⟨-, state, connected⟩ := accepts_iff.mp accepted
  have agree : MembersAgree (walkedProgress env db wallet (-1) chain) state :=
    membersAgree_of_connected shaped (List.append_nil chain).symm connected _ wallet _ _
  rw [build_of_stored stored accepted,
    computeState_of_stored stored accepted now wallet (.inl (by omega))]
  exact ⟨state, connected,
    agree.finished (membersWellFormed_of_connected connected).distinct wallet now⟩

theorem accepts_joinedBlock : Accepts Sample.env [Sample.genesis, Sample.joinedBlock] :=
  Sample.accepts_child 3 rfl

theorem sample_builderGenesis : BuilderGenesis Sample.genesis :=
  ⟨Sample.joinRecord, Sample.issueRecord, List.Perm.refl _, rfl, rfl, rfl⟩

theorem sample_builderShaped (rest : List Block) : BuilderShaped (Sample.genesis :: rest) := by
  intro genesis head
  rw [← Option.some.inj head]
  exact sample_builderGenesis

theorem build_members_of_joinedBlock :
    ∃ state, connectChain Sample.env [Sample.genesis, Sample.joinedBlock] = .ok state ∧
      (build Sample.env (canonicalStore Sample.env Sample.genesis [Sample.joinedBlock]) ∅ 0 []
        (-1)).1.members.map MemberState.toBranchMember = state.members := by
  obtain ⟨state, connected, members, -⟩ := build_members_eq_branch_members accepts_joinedBlock
    (sample_builderShaped _)
    (Sample.storedAs (List.mem_iff_getElem?.mpr ⟨7, rfl⟩) accepts_joinedBlock (by decide)) [] 0 []
  rw [cacheAfter_nil] at members
  exact ⟨state, connected, members⟩

end Safire.LedgerState
