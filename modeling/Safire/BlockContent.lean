/-
What an admitted block says about itself: the checks that read nothing but the
block, and the presence of its parent.
-/

import Safire.Admission

namespace Safire

open Text ChainValidator Loop

variable {env : Env} {db after : LevelDb}

/-! ### Checks on the content of a block -/

/-- The checks that read nothing but the block. A genesis block meets the state
rules on an empty state. -/
structure ContentValid (env : Env) (block : Block) : Prop where
  added : checkAddedBlock env block = .ok ()
  envelope : checkEnvelope env block = .ok ()
  genesis : block.previousBlockId ≤ 0 →
    env.config.genesisMatches block.number block.hash = true ∧
      ∃ values, storeRecords env (enforcedRules true (unassignedState values)) block = .ok ()
  records : 0 < block.previousBlockId → storeRecords env contentRules block = .ok ()

/-- The block is a genesis block or names a stored parent. -/
def ParentStored (env : Env) (db : LevelDb) (block : Block) : Prop :=
  block.previousBlockId ≤ 0 ∨ ∃ parent, storageParent env db block = .ok parent

theorem checkRecordHash_content {seen : TextSet} {inParent : Bool} {record : Record}
    (checked : checkRecordHash env seen inParent record = .ok ()) :
    checkRecordHash env seen false record = .ok () := by
  obtain ⟨size, present, same, fresh, -⟩ := checkRecordHash_ok_iff.mp checked
  exact checkRecordHash_ok_iff.mpr ⟨size, present, same, fresh, rfl⟩

/-- A record that passes under some rules passes without a chain. -/
theorem storeTyped_content {rules : StorageRules} {block : Block} {temporary next : Temporary}
    (other : Temporary) {record : Record} (hashes : other.blockRecordHashes = temporary.blockRecordHashes)
    (passed : storeTyped rules block temporary record = .ok next) :
    ∃ next', storeTyped contentRules block other record = .ok next' ∧
      next'.blockRecordHashes = next.blockRecordHashes := by
  unfold storeTyped at *
  cases kind : record.transactionType with
  | joinNetwork =>
      rw [kind] at passed
      simp only [storeJoin] at passed
      split_ifs at passed
      cases passed
      exact ⟨other, by simp [storeJoin, contentRules], hashes⟩
  | issueCurrency =>
      rw [kind] at passed
      simp only [storeIssue] at passed ⊢
      split_ifs at passed with amount payee
      cases passed
      rw [if_neg amount, if_neg payee]
      exact ⟨_, rfl, hashes⟩
  | transferCurrency =>
      rw [kind] at passed
      simp only [storeTransfer] at passed ⊢
      split_ifs at passed with amount nonce funds <;> cases passed <;> rw [if_neg amount] <;>
        exact ⟨{ other with balances := applyTransfer block record other.balances },
          by simp [contentRules], hashes⟩
  | carryForward =>
      rw [kind] at passed
      simp only [storeCarryForward] at passed ⊢
      split_ifs at passed with amount
      cases passed
      rw [if_neg amount]
      exact ⟨other, rfl, hashes⟩
  | periodSummary =>
      rw [kind] at passed
      cases passed
      exact ⟨other, rfl, hashes⟩
  | vote =>
      rw [kind] at passed
      simp only [storeVote] at passed ⊢
      split_ifs at passed with fee
      cases passed
      rw [not_or] at fee
      exact ⟨{ other with balances := applyVote block record other.balances },
        by simp [contentRules, fee.1], hashes⟩
  | heartBeat =>
      rw [kind] at passed
      simp only [storeHeartBeat] at passed
      split_ifs at passed
      cases passed
      exact ⟨other, by simp [storeHeartBeat, contentRules], hashes⟩
  | updateName =>
      rw [kind] at passed
      simp only [storeUpdateName] at passed
      split_ifs at passed with _ name
      cases passed
      rw [not_or] at name
      exact ⟨other, by simp [storeUpdateName, contentRules, name.1], hashes⟩

theorem storeRecords_content {rules : StorageRules} {block : Block}
    (passed : storeRecords env rules block = .ok ()) :
    storeRecords env contentRules block = .ok () := by
  obtain ⟨finish, run⟩ := storeRecords_ok_iff.mp passed
  refine storeRecords_ok_iff.mpr ?_
  have starts : (Temporary.start contentRules.parentState).blockRecordHashes =
      (Temporary.start rules.parentState).blockRecordHashes := rfl
  refine Loop.run_simulates (fun temporary other : Temporary =>
    other.blockRecordHashes = temporary.blockRecordHashes) starts block.records ?_ run
  intro record temporary other next hashes stepped
  obtain ⟨hashed, signed, typed⟩ := storeRecord_ok_iff.mp stepped
  obtain ⟨next', typed', same⟩ := storeTyped_content
    { other with blockRecordHashes := other.blockRecordHashes.insert record.hash }
    (by rw [hashes]) typed
  refine ⟨next', storeRecord_ok_iff.mpr ⟨?_, signed, typed'⟩, same⟩
  rw [hashes]
  exact checkRecordHash_content hashed

/-- An admitted block passes the content checks and has its parent. -/
theorem content_of_validate {ambient : Ambient} {caches : Caches} {block : Block}
    (added : checkAddedBlock env block = .ok ())
    (passed : (validateBlockForStorage env ambient db caches block).1 = .ok ()) :
    ContentValid env block ∧ ParentStored env db block := by
  unfold validateBlockForStorage at passed
  cases envelope : checkEnvelope env block with
  | error reason =>
      rw [envelope] at passed
      cases passed
  | ok value =>
      rw [envelope] at passed
      dsimp only at passed
      by_cases genesis : block.previousBlockId ≤ 0
      · rw [if_pos genesis] at passed
        split at passed
        · cases passed
        · rename_i matching
          refine ⟨⟨added, envelope, fun _ => ⟨by simpa using matching, _,
            storeUnderRules_ok_iff.mp passed⟩, fun later => ?_⟩, .inl genesis⟩
          exact absurd later (not_lt.mpr genesis)
      · rw [if_neg genesis] at passed
        cases found : storageParent env db block with
        | error reason =>
            rw [found] at passed
            cases passed
        | ok parent =>
            rw [found] at passed
            dsimp only at passed
            refine ⟨⟨added, envelope, fun first => absurd first genesis, fun _ => ?_⟩,
              .inr ⟨parent, found⟩⟩
            split at passed
            · obtain ⟨parentState, records⟩ := storeOnTip_records passed
              exact storeRecords_content records
            · exact storeRecords_content passed

theorem ParentStored.mono {block : Block} (parent : ParentStored env db block)
    (kept : ∀ hash, 0 < (getBlockByHash env db hash).number →
      getBlockByHash env after hash = getBlockByHash env db hash) :
    ParentStored env after block := by
  rcases parent with genesis | ⟨parent, found⟩
  · exact .inl genesis
  · obtain ⟨named, lookup, positive, rest⟩ := storageParent_ok_iff.mp found
    have same := kept block.previousBlockHash (by rwa [lookup])
    exact .inr ⟨parent, storageParent_ok_iff.mpr ⟨named, same.trans lookup, positive, rest⟩⟩

end Safire
