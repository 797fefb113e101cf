/-
What one accepted record does to the branch state.

`Applied` has one constructor for each way through the type rules, with the
guards that were passed and the state that results. Every invariant of the
branch is a case analysis on it; no later proof unfolds the rules again.
-/

import Safire.BranchHistory

namespace Safire.ChainValidator

open Loop

variable {env : Env}

def joinedMembers (block : Block) (state : BranchState) (record : Record) : List BranchMember :=
  if isBranchMember state.members record.senderPublicKey then state.members
  else state.members ++ [newBranchMember record.senderPublicKey block.number]

inductive Applied (block : Block) (isGenesis : Bool) (state : BranchState) (record : Record) :
    BranchState → Prop
  | issue (kind : record.transactionType = .issueCurrency)
      (lower : 0 ≤ record.amount) (upper : record.amount ≤ 1)
      (fromCreator : record.senderPublicKey = block.creatorKey)
      (toCreator : record.recipientPublicKey = block.creatorKey) :
      Applied block isGenesis state record
        { state with balances := credit state.balances record.recipientPublicKey record.amount }
  | transfer (kind : record.transactionType = .transferCurrency)
      (positive : 0 < record.amount) (feeLower : 0 ≤ record.fee)
      (sequenced : 0 < block.recordsMerkleRoot.length →
        record.nonce = state.nonce record.senderPublicKey + 1)
      (funded : transferDebit record ≤ state.balance record.senderPublicKey + balanceTolerance) :
      Applied block isGenesis state record
        { state with
          balances := applyTransfer block record state.balances
          nonces :=
            if 0 < block.recordsMerkleRoot.length then
              state.nonces.insert record.senderPublicKey record.nonce
            else state.nonces }
  | vote (kind : record.transactionType = .vote) (feeLower : 0 ≤ record.fee)
      (funded : record.fee ≤ state.balance record.senderPublicKey + balanceTolerance) :
      Applied block isGenesis state record
        { state with balances := applyVote block record state.balances }
  | join (kind : record.transactionType = .joinNetwork)
      (fresh : isGenesis = false → isBranchMember state.members record.senderPublicKey = false)
      (unnamed : record.name = []) :
      Applied block isGenesis state record
        { state with members := joinedMembers block state record }
  | joinNamed (kind : record.transactionType = .joinNetwork)
      (fresh : isGenesis = false → isBranchMember state.members record.senderPublicKey = false)
      (named : record.name ≠ []) (renamed : List BranchMember) (owners : TextMap Text)
      (claimed : claimBranchName (joinedMembers block state record) state.nameOwners
        record.senderPublicKey record.name = some (renamed, owners)) :
      Applied block isGenesis state record
        { state with members := renamed, nameOwners := owners }
  | rename (kind : record.transactionType = .updateName)
      (member : isBranchMember state.members record.senderPublicKey = true)
      (named : record.name ≠ []) (renamed : List BranchMember) (owners : TextMap Text)
      (claimed : claimBranchName state.members state.nameOwners record.senderPublicKey
        record.name = some (renamed, owners)) :
      Applied block isGenesis state record
        { state with members := renamed, nameOwners := owners }
  | heartBeat (kind : record.transactionType = .heartBeat)
      (member : isBranchMember state.members record.senderPublicKey = true) :
      Applied block isGenesis state record
        { state with
          members := updateMember (fun member => { member with lastHeartbeatBlock := block.number })
            record.senderPublicKey state.members
          chainHasHeartbeatRecords := true }
  | strayHeartBeat (kind : record.transactionType = .heartBeat) (atGenesis : isGenesis = true)
      (stranger : isBranchMember state.members record.senderPublicKey = false) :
      Applied block isGenesis state record state
  | carryForward (kind : record.transactionType = .carryForward)
      (wellFormed : 0 ≤ record.amount ∧
        0 ≤ parseCarryForwardValueLong record.value "checkpoint" ∧
        0 ≤ parseCarryForwardValueLong record.value "period" ∧
        parseCarryForwardValueLong record.value "checkpoint" < block.number)
      (keyed : carryForwardKey record ≠ [])
      (opens : carryForwardKey record ∉ state.acceptedCarryForwardKeys) :
      Applied block isGenesis state record
        { state with
          acceptedCarryForwardKeys :=
            state.acceptedCarryForwardKeys.insert (carryForwardKey record)
          balances := credit state.balances record.senderPublicKey carryForwardReward }
  | carryForwardAgain (kind : record.transactionType = .carryForward)
      (wellFormed : 0 ≤ record.amount ∧
        0 ≤ parseCarryForwardValueLong record.value "checkpoint" ∧
        0 ≤ parseCarryForwardValueLong record.value "period" ∧
        parseCarryForwardValueLong record.value "checkpoint" < block.number)
      (idle : carryForwardKey record = [] ∨
        carryForwardKey record ∈ state.acceptedCarryForwardKeys) :
      Applied block isGenesis state record state

private theorem connectIssue_ok {block : Block} {isGenesis : Bool} {state next : BranchState}
    {record : Record} (kind : record.transactionType = .issueCurrency)
    (connected : connectIssue block state record = .ok next) :
    Applied block isGenesis state record next := by
  unfold connectIssue at connected
  split at connected
  · cases connected
  · rename_i bounds
    split at connected
    · cases connected
    · rename_i keys
      cases connected
      rw [not_or, not_lt, not_lt] at bounds
      rw [not_or, not_ne_iff, not_ne_iff] at keys
      exact .issue kind bounds.1 bounds.2 keys.1 keys.2

private theorem connectTransfer_ok {block : Block} {isGenesis : Bool} {state next : BranchState}
    {record : Record} (kind : record.transactionType = .transferCurrency)
    (connected : connectTransfer block state record = .ok next) :
    Applied block isGenesis state record next := by
  unfold connectTransfer at connected
  split at connected
  · cases connected
  · rename_i bounds
    split at connected
    · cases connected
    · rename_i sequenced
      split at connected
      · cases connected
      · rename_i funded
        cases connected
        rw [not_or, not_le, not_lt] at bounds
        refine .transfer kind bounds.1 bounds.2 ?_ (not_lt.mp funded)
        intro rooted
        by_contra wrong
        exact sequenced ⟨rooted, wrong⟩

private theorem connectVote_ok {block : Block} {isGenesis : Bool} {state next : BranchState}
    {record : Record} (kind : record.transactionType = .vote)
    (connected : connectVote block state record = .ok next) :
    Applied block isGenesis state record next := by
  unfold connectVote at connected
  split at connected
  · cases connected
  · rename_i bounds
    cases connected
    rw [not_or, not_lt, not_lt] at bounds
    exact .vote kind bounds.1 bounds.2

private theorem connectJoin_ok {block : Block} {isGenesis : Bool} {state next : BranchState}
    {record : Record} (kind : record.transactionType = .joinNetwork)
    (connected : connectJoin block isGenesis state record = .ok next) :
    Applied block isGenesis state record next := by
  unfold connectJoin at connected
  split at connected
  · cases connected
  · rename_i notAgain
    have fresh : isGenesis = false →
        isBranchMember state.members record.senderPublicKey = false := by
      intro later
      by_contra joined
      exact notAgain ⟨later, by simpa using joined⟩
    split at connected
    · cases connected
    · dsimp only at connected
      split at connected
      · rename_i unnamed
        cases connected
        exact .join kind fresh (List.length_eq_zero_iff.mp unnamed)
      · rename_i named
        split at connected
        · cases connected
        · rename_i renamed owners claimed
          cases connected
          exact .joinNamed kind fresh (fun empty => named (by rw [empty]; rfl)) renamed owners claimed

private theorem connectUpdateName_ok {block : Block} {isGenesis : Bool} {state next : BranchState}
    {record : Record} (kind : record.transactionType = .updateName)
    (connected : connectUpdateName state record = .ok next) :
    Applied block isGenesis state record next := by
  unfold connectUpdateName at connected
  split at connected
  · cases connected
  · rename_i member
    split at connected
    · cases connected
    · rename_i named
      split at connected
      · cases connected
      · rename_i renamed owners claimed
        cases connected
        exact .rename kind (by simpa using member) (fun empty => named (by rw [empty]; rfl))
          renamed owners claimed

private theorem connectHeartBeat_ok {block : Block} {isGenesis : Bool} {state next : BranchState}
    {record : Record} (kind : record.transactionType = .heartBeat)
    (connected : connectHeartBeat block isGenesis state record = .ok next) :
    Applied block isGenesis state record next := by
  unfold connectHeartBeat at connected
  split at connected
  · rename_i member
    cases connected
    exact .heartBeat kind member
  · rename_i stranger
    split at connected
    · rename_i atGenesis
      cases connected
      exact .strayHeartBeat kind atGenesis (by simpa using stranger)
    · cases connected

private theorem connectCarryForward_ok {block : Block} {isGenesis : Bool}
    {state next : BranchState} {record : Record} (kind : record.transactionType = .carryForward)
    (connected : connectCarryForward block state record = .ok next) :
    Applied block isGenesis state record next := by
  unfold connectCarryForward at connected
  dsimp only at connected
  split at connected
  · cases connected
  · rename_i bounds
    simp only [not_or, not_lt, not_le] at bounds
    split at connected
    · rename_i opens
      cases connected
      exact .carryForward kind bounds (List.ne_nil_of_length_pos opens.1) opens.2
    · rename_i idle
      cases connected
      refine .carryForwardAgain kind bounds ?_
      by_contra neither
      rw [not_or] at neither
      exact idle ⟨List.length_pos_of_ne_nil neither.1, neither.2⟩

theorem connectTyped_ok {block : Block} {isGenesis : Bool} {state next : BranchState}
    {record : Record} (connected : connectTyped block isGenesis state record = .ok next) :
    Applied block isGenesis state record next := by
  unfold connectTyped at connected
  cases kind : record.transactionType with
  | issueCurrency => rw [kind] at connected; exact connectIssue_ok kind connected
  | transferCurrency => rw [kind] at connected; exact connectTransfer_ok kind connected
  | vote => rw [kind] at connected; exact connectVote_ok kind connected
  | joinNetwork => rw [kind] at connected; exact connectJoin_ok kind connected
  | updateName => rw [kind] at connected; exact connectUpdateName_ok kind connected
  | heartBeat => rw [kind] at connected; exact connectHeartBeat_ok kind connected
  | carryForward => rw [kind] at connected; exact connectCarryForward_ok kind connected
  | periodSummary => rw [kind] at connected; cases connected

/-! ### The checks before the type rule -/

theorem checkRecordHash_ok_iff {seen : TextSet} {inParent : Bool} {record : Record} :
    checkRecordHash env seen inParent record = .ok () ↔
      isRecordSizeValid env record = true ∧ record.hash ≠ [] ∧
        getRecordHash env record = record.hash ∧ record.hash ∉ seen ∧ inParent = false := by
  unfold checkRecordHash
  cases isRecordSizeValid env record with
  | false => simp
  | true =>
      by_cases hashed : record.hash.length = 0 ∨ getRecordHash env record ≠ record.hash
      · rw [if_neg (by simp), if_pos hashed]
        rcases hashed with empty | wrong
        · simp [List.length_eq_zero_iff.mp empty]
        · simp [wrong]
      · rw [if_neg (by simp), if_neg hashed]
        rw [not_or, not_ne_iff, List.length_eq_zero_iff] at hashed
        by_cases again : record.hash ∈ seen
        · simp [again]
        · cases inParent <;> simp [again, hashed]

theorem checkRecordSignature_ok {record : Record}
    (checked : checkRecordSignature env record = .ok ())
    (required : recordRequiresSenderSignature record = true) :
    record.senderPublicKey ≠ [] ∧
      env.verifyMessageCompressed record.hash record.signature record.senderPublicKey = 1 := by
  unfold checkRecordSignature at checked
  rw [if_neg (by simp [required])] at checked
  split at checked
  · cases checked
  · rename_i present
    split at checked
    · cases checked
    · rename_i verified
      rw [not_or, not_ne_iff] at verified
      exact ⟨fun empty => present (by rw [empty]; rfl), verified.2⟩

/-- Mark the hash of a record as accepted; the type rules run after this. -/
def acceptHash (state : BranchState) (record : Record) : BranchState :=
  { state with acceptedRecordHashes := state.acceptedRecordHashes.insert record.hash }

theorem connectRecord_ok_iff {block : Block} {isGenesis : Bool} {state next : BranchState}
    {seen : TextSet} {record : Record} :
    connectRecord env block isGenesis state seen record = .ok next ↔
      checkRecordHash env seen (state.acceptedRecordHashes.contains record.hash) record = .ok () ∧
        checkRecordSignature env record = .ok () ∧
        connectTyped block isGenesis (acceptHash state record) record = .ok next := by
  simp only [connectRecord, bind_ok_iff, acceptHash]
  constructor
  · rintro ⟨_, hashed, _, signed, typed⟩
    exact ⟨hashed, signed, typed⟩
  · rintro ⟨hashed, signed, typed⟩
    exact ⟨(), hashed, (), signed, typed⟩

/-- An accepted record carries its own hash, which is new in the chain, and a
signature by its sender where one is required; its effect is `Applied`. -/
structure Connected (env : Env) (block : Block) (isGenesis : Bool) (state : BranchState)
    (record : Record) (next : BranchState) : Prop where
  hashed : getRecordHash env record = record.hash
  hashPresent : record.hash ≠ []
  unseen : record.hash ∉ state.acceptedRecordHashes
  signed : recordRequiresSenderSignature record = true → record.senderPublicKey ≠ [] ∧
    env.verifyMessageCompressed record.hash record.signature record.senderPublicKey = 1
  applied : Applied block isGenesis (acceptHash state record) record next

theorem connected_of_ok {block : Block} {isGenesis : Bool} {state next : BranchState}
    {seen : TextSet} {record : Record}
    (connected : connectRecord env block isGenesis state seen record = .ok next) :
    Connected env block isGenesis state record next := by
  obtain ⟨hashed, signed, typed⟩ := connectRecord_ok_iff.mp connected
  obtain ⟨-, present, own, -, unseen⟩ := checkRecordHash_ok_iff.mp hashed
  exact
    { hashed := own
      hashPresent := present
      unseen := by
        rw [← Std.ExtTreeSet.contains_iff_mem, unseen]
        exact Bool.false_ne_true
      signed := checkRecordSignature_ok signed
      applied := connectTyped_ok typed }

/-- Every record of a connected chain was connected in some state. -/
theorem entry_connected {chain : List Block} {state : BranchState}
    (connected : connectChain env chain = .ok state) {entry : Entry}
    (member : entry ∈ chainEntries chain) :
    ∃ isGenesis earlier next, Connected env entry.1 isGenesis earlier entry.2 next := by
  have preserved : PreservedByRecords env chain (fun done _ => ∀ entry ∈ done,
      ∃ isGenesis earlier next, Connected env entry.1 isGenesis earlier entry.2 next) := by
    intro before block after earlier record later reached seen next _ _ held stepped other listed
    rcases List.mem_append.mp listed with old | new
    · exact held other old
    · rw [List.mem_singleton.mp new]
      exact ⟨_, _, _, connected_of_ok stepped⟩
  exact holds_after_blocks (fun _ none => absurd none List.not_mem_nil) preserved
    (fun _ _ _ held => held) (List.append_nil chain).symm connected entry member

end Safire.ChainValidator
