/-
Public names along a branch.

The validator keeps a name twice: in the member list, as its owner wrote it, and
in the owner map, normalised. The two stay inverse after every record, so a claim
on a valid name is granted exactly where no other member holds it.
-/

import Safire.BranchMembers

namespace Safire.ChainValidator

variable {env : Env}

/-! ### Valid names -/

/-- Three to thirty-two letters, digits, hyphens or underscores. -/
structure ValidName (name : Text) : Prop where
  bounds : 3 ≤ name.length ∧ name.length ≤ 32
  bytes : ∀ byte ∈ name, isAlnum byte = true ∨ byte = '-' ∨ byte = '_'

theorem normalizedNameByte_some_iff {byte : Char} :
    (∃ lower, normalizedNameByte byte = some lower) ↔
      isAlnum byte = true ∨ byte = '-' ∨ byte = '_' := by
  unfold normalizedNameByte
  by_cases letter : isAlnum byte = true
  · simp [letter]
  · by_cases mark : byte = '-' ∨ byte = '_'
    · simp [letter, mark]
    · simp [letter, mark]

theorem mapM_normalizedNameByte_some_iff {name : Text} :
    (∃ normalized, name.mapM normalizedNameByte = some normalized) ↔
      ∀ byte ∈ name, isAlnum byte = true ∨ byte = '-' ∨ byte = '_' := by
  induction name with
  | nil => simp
  | cons byte rest ih =>
      rw [List.forall_mem_cons, ← normalizedNameByte_some_iff, ← ih, List.mapM_cons]
      constructor
      · intro normal
        cases first : normalizedNameByte byte with
        | none => simp [first] at normal
        | some lower =>
            cases later : rest.mapM normalizedNameByte with
            | none => simp [first, later] at normal
            | some others => exact ⟨⟨lower, rfl⟩, ⟨others, rfl⟩⟩
      · intro both
        cases both with
        | intro first later =>
            cases first with
            | intro lower first =>
                cases later with
                | intro others later => exact ⟨lower :: others, by simp [first, later]⟩

/-- The loop over the bytes succeeds on the valid names and on no other. -/
theorem validName_iff {name : Text} :
    ValidName name ↔ ∃ normalized, normalizedName name = some normalized := by
  unfold normalizedName
  by_cases outside : name.length < 3 ∨ 32 < name.length
  · rw [if_pos outside]
    constructor
    · intro valid
      have bounds := valid.bounds
      omega
    · intro normal
      cases normal with
      | intro normalized impossible => cases impossible
  · rw [if_neg outside, mapM_normalizedNameByte_some_iff]
    constructor
    · exact ValidName.bytes
    · intro bytes
      exact ⟨by omega, bytes⟩

theorem ValidName.normalized {name : Text} (valid : ValidName name) :
    normalizedName name = some (normalizedPublicName name) := by
  cases validName_iff.mp valid with
  | intro normalized found => rw [found, normalizedPublicName_valid found]

theorem ValidName.ne_nil {name : Text} (valid : ValidName name) : name ≠ [] := by
  intro empty
  have bounds := valid.bounds
  rw [empty] at bounds
  exact absurd bounds.1 (by simp)

theorem ValidName.normal_ne_nil {name : Text} (valid : ValidName name) :
    normalizedPublicName name ≠ [] :=
  normalizedName_ne_nil valid.normalized

theorem toLower_ne_marker {byte : Char} (letter : isAlnum byte = true) : toLower byte ≠ '#' := by
  unfold toLower
  split
  · rename_i upper
    intro marked
    have low : 65 ≤ byte.toNat := upper.1
    have high : byte.toNat ≤ 90 := upper.2
    have code := congrArg Char.toNat marked
    rw [Char.toNat_ofNat, if_pos (by unfold Nat.isValidChar; omega)] at code
    have marker : '#'.toNat = 35 := rfl
    omega
  · intro marked
    rw [marked] at letter
    exact absurd letter (by decide)

/-- The mark of an invalid name is no byte of a normalised one. -/
theorem marker_notMem_normalized {name : Text} : ∀ {normalized : Text},
    name.mapM normalizedNameByte = some normalized → '#' ∉ normalized := by
  induction name with
  | nil =>
      intro normalized found
      rw [← Option.some.inj found]
      exact List.not_mem_nil
  | cons byte rest ih =>
      intro normalized found
      rw [List.mapM_cons] at found
      cases first : normalizedNameByte byte with
      | none => simp [first] at found
      | some lower =>
          cases later : rest.mapM normalizedNameByte with
          | none => simp [first, later] at found
          | some others =>
              have whole : lower :: others = normalized := by simpa [first, later] using found
              rw [← whole, List.mem_cons, not_or]
              refine ⟨fun marked => ?_, ih later⟩
              unfold normalizedNameByte at first
              split at first
              · rename_i letter
                exact toLower_ne_marker letter ((Option.some.inj first).trans marked.symm)
              · split at first
                · rename_i mark
                  rw [Option.some.inj first, ← marked] at mark
                  exact absurd mark (by decide)
                · cases first

theorem ValidName.normal_ne_invalid {name : Text} (valid : ValidName name) :
    normalizedPublicName name ≠ invalidName := by
  intro marked
  have found := valid.normalized
  unfold normalizedName at found
  split at found
  · cases found
  · apply marker_notMem_normalized found
    rw [marked]
    exact List.mem_cons_self

/-! ### The two tables -/

/-- The member list and the owner map, seen from outside: distinct valid names, an
owner for each of them and for nothing else, and claims granted on free names. -/
structure NamesUnique (state : BranchState) : Prop where
  distinct : state.members.Pairwise (fun left right => left.name ≠ [] → right.name ≠ [] →
    normalizedPublicName left.name ≠ normalizedPublicName right.name)
  valid : ∀ member ∈ state.members, member.name ≠ [] → ValidName member.name
  inverse : ∀ name key, state.nameOwners[name]? = some key ↔
    ∃ member ∈ state.members, member.publicKey = key ∧ member.name ≠ [] ∧
      normalizedPublicName member.name = name
  claimable : ∀ key ∈ memberKeys state.members, ∀ name, ValidName name →
    ((claimBranchName state.members state.nameOwners key name).isSome = true ↔
      ∀ member ∈ state.members, member.publicKey ≠ key →
        normalizedPublicName member.name ≠ normalizedPublicName name)

section Tables

variable {done : List Entry} {state : BranchState} (held : MembersWellFormed done state)
include held

theorem MembersWellFormed.validName {member : BranchMember} (found : member ∈ state.members)
    (named : member.name ≠ []) : ValidName member.name :=
  validName_iff.mpr (held.valid member found named)

theorem MembersWellFormed.owner_iff {name key : Text} :
    state.nameOwners[name]? = some key ↔
      ∃ member ∈ state.members, member.publicKey = key ∧ member.name ≠ [] ∧
        normalizedPublicName member.name = name := by
  rw [held.owners]
  constructor
  · intro owned
    obtain ⟨member, found, own, valid⟩ := owned
    have named : ValidName member.name := validName_iff.mpr ⟨name, valid⟩
    exact ⟨member, found, own, named.ne_nil, normalizedPublicName_valid valid⟩
  · intro owned
    obtain ⟨member, found, own, named, normal⟩ := owned
    have valid := (held.validName found named).normalized
    rw [normal] at valid
    exact ⟨member, found, own, valid⟩

/-- Two named members with one normalised name would be one owner. -/
theorem MembersWellFormed.distinct_names :
    state.members.Pairwise (fun left right => left.name ≠ [] → right.name ≠ [] →
      normalizedPublicName left.name ≠ normalizedPublicName right.name) := by
  have keys : state.members.Pairwise (fun left right => left.publicKey ≠ right.publicKey) :=
    List.pairwise_map.mp held.distinct
  apply keys.imp_of_mem
  intro left right leftMember rightMember different leftNamed rightNamed same
  apply different
  have leftOwner := held.owner_iff.mpr ⟨left, leftMember, rfl, leftNamed, same⟩
  have rightOwner := held.owner_iff.mpr ⟨right, rightMember, rfl, rightNamed, rfl⟩
  exact Option.some.inj (leftOwner.symm.trans rightOwner)

/-- A claim of a member on a valid name fails on the names of the others alone. -/
theorem MembersWellFormed.claimed_iff {key name : Text} (member : key ∈ memberKeys state.members)
    (valid : ValidName name) :
    (claimBranchName state.members state.nameOwners key name).isSome = true ↔
      ∀ other ∈ state.members, other.publicKey ≠ key →
        normalizedPublicName other.name ≠ normalizedPublicName name := by
  constructor
  · intro granted other found different same
    obtain ⟨⟨renamed, owners⟩, claimed⟩ := Option.isSome_iff_exists.mp granted
    obtain ⟨normalized, facts⟩ := claimBranchName_some claimed
    have normal : normalizedPublicName name = normalized := normalizedPublicName_valid facts.valid
    have named : other.name ≠ [] := by
      intro empty
      rw [empty] at same
      exact valid.normal_ne_nil same.symm
    apply different
    apply facts.free
    exact held.owner_iff.mpr ⟨other, found, rfl, named, same.trans normal⟩
  · intro free
    have untaken : branchNameTakenByAnother state.nameOwners name key = false := by
      unfold branchNameTakenByAnother
      dsimp only
      rw [if_neg (by rw [List.length_eq_zero_iff]; exact valid.normal_ne_nil),
        if_neg valid.normal_ne_invalid]
      cases owner : state.nameOwners[normalizedPublicName name]? with
      | none => rfl
      | some holder =>
          obtain ⟨other, found, own, -, same⟩ := held.owner_iff.mp owner
          by_cases different : holder = key
          · simp [different]
          · rw [← own] at different
            exact absurd same (free other found different)
    obtain ⟨renamed, owners, claimed⟩ :=
      claimBranchName_granted (isBranchMember_iff.mpr member) valid.ne_nil untaken
    rw [claimed]
    rfl

theorem MembersWellFormed.namesUnique : NamesUnique state where
  distinct := held.distinct_names
  valid := by
    intro member found named
    exact held.validName found named
  inverse := by
    intro name key
    exact held.owner_iff
  claimable := by
    intro key member name valid
    exact held.claimed_iff member valid

end Tables

/-- After every record of an accepted chain the names are unique and valid, the
owner map is the inverse of the member list, and a name can be claimed exactly
where no other member holds it. -/
theorem public_names_unique {chain before after : List Block} {block : Block}
    {records later : List Record} (accepted : Accepts env chain)
    (place : chain = before ++ block :: after) (split : block.records = records ++ later) :
    ∃ state, stateAfterRecords env before block records = .ok state ∧ NamesUnique state := by
  obtain ⟨state, reached⟩ := stateAfterRecords_reached accepted place split
  have held : MembersWellFormed (history before block records) state :=
    holds_after_record membersWellFormed_initial (membersWellFormed_step chain)
      (fun _ _ _ held => ⟨held.distinct, held.joined, held.valid, held.owners⟩) place split reached
  exact ⟨state, reached, held.namesUnique⟩

theorem public_names_unique_after_spend :
    ∃ state, stateAfterRecords Sample.env [Sample.genesis] Sample.validSpend [Sample.spend] =
        .ok state ∧ NamesUnique state :=
  @public_names_unique Sample.env [Sample.genesis, Sample.validSpend] [Sample.genesis] []
    Sample.validSpend [Sample.spend] [] Sample.accepts_validSpend rfl rfl

end Safire.ChainValidator
