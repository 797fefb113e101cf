/-
Members and public names along an accepted branch.

The keys of the member list are distinct, each was joined by a record of its
own, and the owner map holds exactly the normalised names of the members.
-/

import Safire.BranchStep

namespace Safire.ChainValidator

open KeyedList

variable {env : Env}

def memberKeys (members : List BranchMember) : List Text :=
  members.map BranchMember.publicKey

theorem isBranchMember_iff {members : List BranchMember} {key : Text} :
    isBranchMember members key = true ↔ key ∈ memberKeys members := by
  simp [isBranchMember, memberKeys]

theorem memberName_of_mem {members : List BranchMember} (distinct : (memberKeys members).Nodup)
    {member : BranchMember} (found : member ∈ members) :
    memberName members member.publicKey = member.name := by
  induction members with
  | nil => cases found
  | cons head rest ih =>
      obtain ⟨fresh, later⟩ := List.nodup_cons.mp distinct
      rcases List.mem_cons.mp found with rfl | inRest
      · simp [memberName]
      · have other : head.publicKey ≠ member.publicKey :=
          fun same => fresh (same ▸ List.mem_map_of_mem inRest)
        have tail := ih later inRest
        unfold memberName at tail ⊢
        rw [List.find?_cons_of_neg (by simpa using other), tail]

/-! ### Names -/

theorem normalizedName_ne_nil {name normalized : Text}
    (valid : normalizedName name = some normalized) : normalized ≠ [] := by
  unfold normalizedName at valid
  split at valid
  · cases valid
  · rename_i bounds
    rw [not_or] at bounds
    rintro rfl
    have short : name.length = 0 := by
      cases name with
      | nil => rfl
      | cons byte rest =>
          rw [List.mapM_cons] at valid
          cases first : normalizedNameByte byte with
          | none => simp [first] at valid
          | some lower =>
              cases tail : rest.mapM normalizedNameByte with
              | none => simp [first, tail] at valid
              | some others => simp [first, tail] at valid
    omega

theorem normalizedName_nil : normalizedName [] = none :=
  rfl

/-- What a granted claim says about the name and does to the two tables. -/
structure Claimed (members : List BranchMember) (nameOwners : TextMap Text) (key name : Text)
    (renamed : List BranchMember) (owners : TextMap Text) (normalized : Text) : Prop where
  valid : normalizedName name = some normalized
  member : key ∈ memberKeys members
  free : ∀ holder, nameOwners[normalized]? = some holder → holder = key
  renamed_eq : renamed = updateMember (fun member => { member with name := name }) key members
  owners_eq : owners = (releaseName nameOwners
    (normalizedPublicName (memberName members key)) key).insert normalized key

theorem memberKeys_heartbeat (members : List BranchMember) (key : Text) (number : Int) :
    memberKeys (updateMember (fun member => { member with lastHeartbeatBlock := number }) key
      members) = memberKeys members := by
  refine map_key_updateFirst ?_ members
  intro member
  rfl

theorem Claimed.keys {members renamed : List BranchMember} {nameOwners owners : TextMap Text}
    {key name normalized : Text}
    (claimed : Claimed members nameOwners key name renamed owners normalized) :
    memberKeys renamed = memberKeys members := by
  rw [claimed.renamed_eq]
  refine map_key_updateFirst ?_ members
  intro member
  rfl

theorem normalizedPublicName_valid {name normalized : Text}
    (valid : normalizedName name = some normalized) : normalizedPublicName name = normalized := by
  unfold normalizedPublicName
  rw [if_neg, valid, Option.getD_some]
  intro empty
  rw [List.length_eq_zero_iff.mp empty, normalizedName_nil] at valid
  cases valid

/-- A normalised name that is neither empty nor the marker comes from a valid name. -/
theorem normalizedName_of_normal {name : Text} (present : normalizedPublicName name ≠ [])
    (notInvalid : normalizedPublicName name ≠ invalidName) :
    normalizedName name = some (normalizedPublicName name) := by
  unfold normalizedPublicName at present notInvalid ⊢
  split at present
  · exact absurd rfl present
  · rename_i nonempty
    rw [if_neg nonempty] at notInvalid ⊢
    cases valid : normalizedName name with
    | none =>
        rw [valid] at notInvalid
        exact absurd rfl notInvalid
    | some normalized => rfl

theorem claimBranchName_some {members renamed : List BranchMember}
    {nameOwners owners : TextMap Text} {key name : Text}
    (claimed : claimBranchName members nameOwners key name = some (renamed, owners)) :
    ∃ normalized, Claimed members nameOwners key name renamed owners normalized := by
  unfold claimBranchName at claimed
  dsimp only at claimed
  split at claimed
  · cases claimed
  · rename_i normal
    rw [not_or, List.length_eq_zero_iff] at normal
    have valid := normalizedName_of_normal normal.1 normal.2
    split at claimed
    · cases claimed
    · rename_i member
      split at claimed
      · cases claimed
      · rename_i free
        cases claimed
        refine ⟨normalizedPublicName name, valid, isBranchMember_iff.mp (by simpa using member), ?_,
          rfl, rfl⟩
        intro holder held
        unfold branchNameTakenByAnother at free
        dsimp only at free
        rw [if_neg (by simpa using normal.1), if_neg normal.2, held] at free
        simpa using free

/-- A member's claim on a name that no other key holds is granted. -/
theorem claimBranchName_granted {members : List BranchMember} {nameOwners : TextMap Text}
    {key name : Text} (member : isBranchMember members key = true) (named : name ≠ [])
    (free : branchNameTakenByAnother nameOwners name key = false) :
    ∃ renamed owners, claimBranchName members nameOwners key name = some (renamed, owners) := by
  have normal : ¬((normalizedPublicName name).length = 0 ∨
      normalizedPublicName name = invalidName) := by
    rintro (empty | invalid)
    · unfold normalizedPublicName at empty
      rw [if_neg (by simpa using named)] at empty
      cases valid : normalizedName name with
      | none =>
          rw [valid] at empty
          cases empty
      | some normalized =>
          rw [valid] at empty
          exact normalizedName_ne_nil valid (List.length_eq_zero_iff.mp empty)
    · unfold branchNameTakenByAnother at free
      dsimp only at free
      rw [invalid, if_neg (by decide), if_pos rfl] at free
      cases free
  unfold claimBranchName
  dsimp only
  rw [if_neg normal, if_neg (by simp [member]), if_neg (by simp [free])]
  exact ⟨_, _, rfl⟩

/-- A refused claim of a member with a name is one on a taken name. -/
theorem claimBranchName_free {members renamed : List BranchMember}
    {nameOwners owners : TextMap Text} {key name : Text}
    (claimed : claimBranchName members nameOwners key name = some (renamed, owners)) :
    branchNameTakenByAnother nameOwners name key = false := by
  unfold claimBranchName at claimed
  dsimp only at claimed
  split_ifs at claimed with _ _ taken
  simpa using taken

theorem connectJoin_ok_iff {block : Block} {state : BranchState} {record : Record} :
    (∃ next, connectJoin block false state record = .ok next) ↔
      isBranchMember state.members record.senderPublicKey = false ∧
        (record.name ≠ [] →
          branchNameTakenByAnother state.nameOwners record.name record.senderPublicKey = false) := by
  unfold connectJoin
  cases known : isBranchMember state.members record.senderPublicKey with
  | true => simp
  | false =>
      by_cases named : record.name = []
      · simp [named]
      · cases taken : branchNameTakenByAnother state.nameOwners record.name
            record.senderPublicKey with
        | true => simp [List.length_pos_of_ne_nil named, named]
        | false =>
            have joined : isBranchMember
                (state.members ++ [newBranchMember record.senderPublicKey block.number])
                record.senderPublicKey = true := by
              rw [isBranchMember_iff]
              simp [memberKeys, newBranchMember]
            obtain ⟨renamed, owners, granted⟩ := claimBranchName_granted joined named taken
            simp [named, granted]

theorem connectUpdateName_ok_iff {state : BranchState} {record : Record} :
    (∃ next, connectUpdateName state record = .ok next) ↔
      isBranchMember state.members record.senderPublicKey = true ∧ record.name ≠ [] ∧
        branchNameTakenByAnother state.nameOwners record.name record.senderPublicKey = false := by
  unfold connectUpdateName
  cases known : isBranchMember state.members record.senderPublicKey with
  | false => simp
  | true =>
      by_cases named : record.name = []
      · simp [named]
      · cases claimed : claimBranchName state.members state.nameOwners record.senderPublicKey
            record.name with
        | none =>
            have taken : branchNameTakenByAnother state.nameOwners record.name
                record.senderPublicKey = true := by
              by_contra free
              rw [Bool.not_eq_true] at free
              obtain ⟨renamed, owners, granted⟩ := claimBranchName_granted known named free
              rw [claimed] at granted
              cases granted
            simp [named, taken]
        | some granted => simp [named, claimBranchName_free claimed]

/-! ### The invariant -/

theorem mem_joinedMembers {block : Block} {state : BranchState} {record : Record} {key : Text} :
    key ∈ memberKeys (joinedMembers block state record) ↔
      key ∈ memberKeys state.members ∨ record.senderPublicKey = key := by
  unfold joinedMembers
  cases known : isBranchMember state.members record.senderPublicKey with
  | true =>
      rw [if_pos rfl]
      refine (or_iff_left_of_imp ?_).symm
      rintro rfl
      exact isBranchMember_iff.mp known
  | false =>
      rw [if_neg Bool.false_ne_true]
      simp [memberKeys, newBranchMember, eq_comm]

structure MembersWellFormed (done : List Entry) (state : BranchState) : Prop where
  distinct : (memberKeys state.members).Nodup
  joined : ∀ key ∈ memberKeys state.members, ∃ entry ∈ done,
    entry.2.transactionType = .joinNetwork ∧ entry.2.senderPublicKey = key
  valid : ∀ member ∈ state.members, member.name ≠ [] →
    ∃ normalized, normalizedName member.name = some normalized
  owners : ∀ name key, state.nameOwners[name]? = some key ↔
    ∃ member ∈ state.members, member.publicKey = key ∧ normalizedName member.name = some name

theorem membersWellFormed_initial : MembersWellFormed [] .initial where
  distinct := List.nodup_nil
  joined := by simp [BranchState.initial, memberKeys]
  valid := by simp [BranchState.initial]
  owners := by simp [BranchState.initial]

namespace MembersWellFormed

variable {done : List Entry} {state next : BranchState}

/-- A record that leaves both tables alone. -/
theorem unchanged (held : MembersWellFormed done state) (entry : Entry)
    (members : next.members = state.members) (owners : next.nameOwners = state.nameOwners) :
    MembersWellFormed (done ++ [entry]) next where
  distinct := by rw [members]; exact held.distinct
  joined := by
    intro key member
    rw [members] at member
    obtain ⟨old, found, joined⟩ := held.joined key member
    exact ⟨old, List.mem_append_left _ found, joined⟩
  valid := by rw [members]; exact held.valid
  owners := by rw [members, owners]; exact held.owners

/-- A new member, or none where the sender has joined before. -/
theorem joining (held : MembersWellFormed done state) {block : Block} {record : Record}
    (kind : record.transactionType = .joinNetwork)
    (members : next.members = joinedMembers block state record)
    (owners : next.nameOwners = state.nameOwners) :
    MembersWellFormed (done ++ [(block, record)]) next := by
  unfold joinedMembers at members
  cases known : isBranchMember state.members record.senderPublicKey with
  | true =>
      rw [known] at members
      exact held.unchanged _ members owners
  | false =>
      rw [known] at members
      have fresh : record.senderPublicKey ∉ memberKeys state.members := by
        rw [← isBranchMember_iff, known]
        exact Bool.false_ne_true
      have keys : memberKeys next.members = memberKeys state.members ++ [record.senderPublicKey] := by
        rw [members]
        simp [memberKeys, newBranchMember]
      refine ⟨?_, ?_, ?_, ?_⟩
      · rw [keys]
        exact held.distinct.append (List.nodup_singleton _) (by simpa using fresh)
      · intro key member
        rw [keys] at member
        rcases List.mem_append.mp member with old | new
        · obtain ⟨entry, found, joined⟩ := held.joined key old
          exact ⟨entry, List.mem_append_left _ found, joined⟩
        · exact ⟨(block, record), by simp, kind, (List.mem_singleton.mp new).symm⟩
      · intro member found named
        rw [members] at found
        rcases List.mem_append.mp found with old | new
        · exact held.valid member old named
        · rw [List.mem_singleton.mp new] at named
          exact absurd rfl named
      · intro name key
        rw [owners, held.owners name key, members]
        simp [newBranchMember, normalizedName_nil]

theorem heartbeat (held : MembersWellFormed done state) (entry : Entry) {key : Text} {number : Int}
    (members : next.members =
      updateMember (fun member => { member with lastHeartbeatBlock := number }) key state.members)
    (owners : next.nameOwners = state.nameOwners) :
    MembersWellFormed (done ++ [entry]) next := by
  have keys : memberKeys next.members = memberKeys state.members := by
    rw [members, memberKeys_heartbeat]
  rw [updateMember, updateFirst_eq_map held.distinct] at members
  have names : ∀ member : BranchMember, (if member.publicKey = key then
      { member with lastHeartbeatBlock := number } else member).name = member.name := by
    intro member
    split <;> rfl
  have publicKeys : ∀ member : BranchMember, (if member.publicKey = key then
      { member with lastHeartbeatBlock := number } else member).publicKey = member.publicKey := by
    intro member
    split <;> rfl
  refine ⟨keys ▸ held.distinct, ?_, ?_, ?_⟩
  · intro other member
    rw [keys] at member
    obtain ⟨old, found, joined⟩ := held.joined other member
    exact ⟨old, List.mem_append_left _ found, joined⟩
  · intro member found named
    rw [members] at found
    obtain ⟨old, inOld, rfl⟩ := List.mem_map.mp found
    rw [names] at named ⊢
    exact held.valid old inOld named
  · intro name other
    rw [owners, held.owners name other, members]
    simp only [List.mem_map, exists_exists_and_eq_and, names, publicKeys]

/-- The only entry of a key in the owner map is its current name. -/
theorem owned_name (held : MembersWellFormed done state) {name key : Text}
    (owned : state.nameOwners[name]? = some key) :
    normalizedPublicName (memberName state.members key) = name := by
  obtain ⟨member, found, rfl, valid⟩ := (held.owners name key).mp owned
  rw [memberName_of_mem held.distinct found]
  exact normalizedPublicName_valid valid

/-- Releasing the current name drops every entry of the key and no other. -/
theorem released_iff (held : MembersWellFormed done state) {key name holder : Text} :
    (releaseName state.nameOwners (normalizedPublicName (memberName state.members key)) key)[name]? =
        some holder ↔
      state.nameOwners[name]? = some holder ∧ holder ≠ key := by
  generalize previous : normalizedPublicName (memberName state.members key) = previousName
  have current : ∀ other, state.nameOwners[other]? = some key → other = previousName :=
    fun other owned => previous ▸ (held.owned_name owned).symm
  unfold releaseName
  split
  · rename_i owned
    rw [Std.ExtTreeMap.getElem?_erase]
    by_cases same : previousName = name
    · subst same
      rw [if_pos Std.ReflCmp.compare_self, owned.2]
      simp only [reduceCtorEq, Option.some.injEq, false_iff, not_and, not_not]
      exact Eq.symm
    · rw [if_neg (by simpa using same)]
      constructor
      · intro found
        refine ⟨found, ?_⟩
        rintro rfl
        exact same (current name found).symm
      · exact And.left
  · rename_i unowned
    constructor
    · intro found
      refine ⟨found, ?_⟩
      rintro rfl
      obtain ⟨_, _, _, valid⟩ := (held.owners name holder).mp found
      have same := current name found
      subst same
      exact unowned ⟨List.length_pos_of_ne_nil (normalizedName_ne_nil valid), found⟩
    · exact And.left

/-- A granted claim moves the entry of the claimant and no other. -/
theorem claiming (held : MembersWellFormed done state) {key name normalized : Text}
    (claimed : Claimed state.members state.nameOwners key name next.members next.nameOwners
      normalized) : MembersWellFormed done next := by
  have renamed := claimed.renamed_eq
  rw [updateMember, updateFirst_eq_map held.distinct] at renamed
  have publicKeys : ∀ member : BranchMember, (if member.publicKey = key then
      { member with name := name } else member).publicKey = member.publicKey := by
    intro member
    split <;> rfl
  have keys := claimed.keys
  refine ⟨keys ▸ held.distinct, keys ▸ held.joined, ?_, ?_⟩
  · intro member found named
    rw [renamed] at found
    obtain ⟨old, inOld, rfl⟩ := List.mem_map.mp found
    by_cases own : old.publicKey = key
    · rw [if_pos own]
      exact ⟨normalized, claimed.valid⟩
    · rw [if_neg own] at named ⊢
      exact held.valid old inOld named
  · intro other holder
    rw [claimed.owners_eq, renamed, Std.ExtTreeMap.getElem?_insert]
    simp only [List.mem_map, exists_exists_and_eq_and, publicKeys]
    by_cases same : normalized = other
    · subst same
      rw [if_pos Std.ReflCmp.compare_self, Option.some.injEq]
      constructor
      · rintro rfl
        obtain ⟨own, found, isOwn⟩ := List.mem_map.mp claimed.member
        exact ⟨own, found, isOwn, by rw [if_pos isOwn]; exact claimed.valid⟩
      · rintro ⟨old, found, rfl, valid⟩
        by_contra notOwn
        rw [if_neg (Ne.symm notOwn)] at valid
        exact notOwn (claimed.free _ ((held.owners _ _).mpr ⟨old, found, rfl, valid⟩)).symm
    · rw [if_neg (by simpa using same), held.released_iff, held.owners]
      constructor
      · rintro ⟨⟨old, found, rfl, valid⟩, notOwn⟩
        exact ⟨old, found, rfl, by rw [if_neg notOwn]; exact valid⟩
      · rintro ⟨old, found, rfl, valid⟩
        have notOwn : old.publicKey ≠ key := by
          intro own
          rw [if_pos own, claimed.valid] at valid
          exact same (Option.some.inj valid)
        rw [if_neg notOwn] at valid
        exact ⟨⟨old, found, rfl, valid⟩, notOwn⟩

end MembersWellFormed

theorem membersWellFormed_step (chain : List Block) :
    PreservedByRecords env chain MembersWellFormed := by
  intro before block after earlier record later state seen next _ _ held connected
  generalize history before block earlier = done at held ⊢
  have marked : MembersWellFormed done (acceptHash state record) :=
    ⟨held.distinct, held.joined, held.valid, held.owners⟩
  cases (connected_of_ok connected).applied with
  | join kind fresh unnamed => exact marked.joining kind rfl rfl
  | joinNamed kind fresh named renamed owners claimed =>
      obtain ⟨normalized, granted⟩ := claimBranchName_some claimed
      have admitted : MembersWellFormed (done ++ [(block, record)])
          { acceptHash state record with
            members := joinedMembers block (acceptHash state record) record } :=
        marked.joining kind rfl rfl
      exact admitted.claiming granted
  | rename kind member named renamed owners claimed =>
      obtain ⟨normalized, granted⟩ := claimBranchName_some claimed
      exact (marked.unchanged (block, record) rfl rfl).claiming granted
  | heartBeat kind member => exact marked.heartbeat _ rfl rfl
  | issue | transfer | vote | strayHeartBeat | carryForward | carryForwardAgain =>
      exact marked.unchanged _ rfl rfl

theorem membersWellFormed_of_connected {chain : List Block} {state : BranchState}
    (connected : connectChain env chain = .ok state) :
    MembersWellFormed (chainEntries chain) state :=
  holds_after_blocks membersWellFormed_initial (membersWellFormed_step chain)
    (fun _ _ _ held => ⟨held.distinct, held.joined, held.valid, held.owners⟩)
    (List.append_nil chain).symm connected

/-! ### The name of a member is the last one it took -/

def isNaming (record : Record) : Bool :=
  decide (record.transactionType = .joinNetwork ∧ record.name ≠ []) ||
    decide (record.transactionType = .updateName)

/-- The name in the last naming record of a key. -/
def lastName (key : Text) (entries : List Entry) : Text :=
  entries.foldl
    (fun name entry =>
      if entry.2.senderPublicKey = key ∧ isNaming entry.2 = true then entry.2.name else name) []

theorem lastName_snoc (key : Text) (entries : List Entry) (entry : Entry) :
    lastName key (entries ++ [entry]) =
      if entry.2.senderPublicKey = key ∧ isNaming entry.2 = true then entry.2.name
      else lastName key entries := by
  rw [lastName, List.foldl_append]
  rfl

theorem memberName_cons (member : BranchMember) (rest : List BranchMember) (key : Text) :
    memberName (member :: rest) key =
      if member.publicKey = key then member.name else memberName rest key := by
  unfold memberName
  by_cases own : member.publicKey = key
  · rw [if_pos own, List.find?_cons_of_pos (by simpa using own)]
  · rw [if_neg own, List.find?_cons_of_neg (by simpa using own)]

theorem memberName_rename {members : List BranchMember} {key name : Text}
    (known : key ∈ memberKeys members) (other : Text) :
    memberName (updateMember (fun member => { member with name := name }) key members) other =
      if key = other then name else memberName members other := by
  rw [updateMember]
  induction members with
  | nil => cases known
  | cons member rest ih =>
      rw [updateFirst]
      by_cases own : member.publicKey = key
      · rw [if_pos own, memberName_cons, memberName_cons, own]
        split <;> rfl
      · rw [if_neg own, memberName_cons, memberName_cons]
        have later : key ∈ memberKeys rest :=
          (List.mem_cons.mp known).resolve_left (fun same => own same.symm)
        rw [ih later]
        by_cases same : member.publicKey = other
        · rw [if_pos same, if_pos same, if_neg (fun equal => own (same.trans equal.symm))]
        · rw [if_neg same, if_neg same]

theorem memberName_heartbeat (members : List BranchMember) (key other : Text) (number : Int) :
    memberName (updateMember (fun member => { member with lastHeartbeatBlock := number }) key
      members) other = memberName members other := by
  rw [updateMember]
  induction members with
  | nil => rfl
  | cons member rest ih =>
      rw [updateFirst]
      split
      · rw [memberName_cons, memberName_cons]
      · rw [memberName_cons, memberName_cons, ih]

theorem memberName_joined (block : Block) (state : BranchState) (record : Record) (key : Text) :
    memberName (joinedMembers block state record) key = memberName state.members key := by
  unfold joinedMembers
  split
  · rfl
  · unfold memberName
    rw [List.find?_append]
    cases state.members.find? (fun member => decide (member.publicKey = key)) with
    | some member => rfl
    | none =>
        rw [Option.none_or, List.find?_singleton]
        cases decide ((newBranchMember record.senderPublicKey block.number).publicKey = key) with
        | false => rfl
        | true => rfl

def NamesRecorded (done : List Entry) (state : BranchState) : Prop :=
  ∀ key, memberName state.members key = lastName key done

theorem namesRecorded_initial : NamesRecorded [] .initial := by
  intro key
  rfl

private theorem namesRecorded_quiet {done : List Entry} {state next : BranchState} {entry : Entry}
    (held : NamesRecorded done state) (notNaming : isNaming entry.2 = false)
    (same : ∀ key, memberName next.members key = memberName state.members key) :
    NamesRecorded (done ++ [entry]) next := by
  intro key
  rw [same, held key, lastName_snoc, if_neg (by simp [notNaming])]

private theorem namesRecorded_claim {done : List Entry} {state next : BranchState}
    {block : Block} {record : Record} {members : List BranchMember} {normalized : Text}
    (held : NamesRecorded done state) (naming : isNaming record = true)
    (same : ∀ key, memberName members key = memberName state.members key)
    (claimed : Claimed members state.nameOwners record.senderPublicKey record.name next.members
      next.nameOwners normalized) : NamesRecorded (done ++ [(block, record)]) next := by
  intro key
  rw [claimed.renamed_eq, memberName_rename claimed.member, lastName_snoc, same, held key]
  simp only [naming, and_true]

theorem namesRecorded_step (chain : List Block) : PreservedByRecords env chain NamesRecorded := by
  intro before block after earlier record later state seen next _ _ held connected
  generalize history before block earlier = done at held ⊢
  have marked : NamesRecorded done (acceptHash state record) := held
  cases (connected_of_ok connected).applied with
  | join kind fresh unnamed =>
      exact namesRecorded_quiet marked (by simp [isNaming, kind, unnamed]) (memberName_joined block _ _)
  | joinNamed kind fresh named renamed owners claimed =>
      obtain ⟨normalized, granted⟩ := claimBranchName_some claimed
      exact namesRecorded_claim marked (by simp [isNaming, kind, named])
        (memberName_joined block _ _) granted
  | rename kind member named renamed owners claimed =>
      obtain ⟨normalized, granted⟩ := claimBranchName_some claimed
      exact namesRecorded_claim marked (by simp [isNaming, kind]) (fun _ => rfl) granted
  | heartBeat kind member =>
      exact namesRecorded_quiet marked (by simp [isNaming, kind])
        (fun key => memberName_heartbeat _ _ key _)
  | issue kind | transfer kind | vote kind | strayHeartBeat kind | carryForward kind
  | carryForwardAgain kind =>
      exact namesRecorded_quiet marked (by simp [isNaming, kind]) (fun _ => rfl)

theorem namesRecorded_of_connected {chain : List Block} {state : BranchState}
    (connected : connectChain env chain = .ok state) : NamesRecorded (chainEntries chain) state :=
  holds_after_blocks namesRecorded_initial (namesRecorded_step chain) (fun _ _ _ held => held)
    (List.append_nil chain).symm connected

/-- Who holds a normalised name, read off the history. -/
theorem owned_iff_lastName {done : List Entry} {state : BranchState}
    (wellFormed : MembersWellFormed done state) (recorded : NamesRecorded done state)
    {name key : Text} :
    state.nameOwners[name]? = some key ↔ normalizedName (lastName key done) = some name := by
  rw [wellFormed.owners, ← recorded key]
  constructor
  · rintro ⟨member, found, rfl, valid⟩
    rw [memberName_of_mem wellFormed.distinct found]
    exact valid
  · intro valid
    unfold memberName at valid
    cases found : state.members.find? (fun member => decide (member.publicKey = key)) with
    | none =>
        rw [found, normalizedName_nil] at valid
        cases valid
    | some member =>
        rw [found] at valid
        have own := List.find?_some found
        exact ⟨member, List.mem_of_find?_eq_some found, by simpa using own, valid⟩

end Safire.ChainValidator
