/-
Replay protection along an accepted branch: the nonces of a sender count his
transfers in rooted blocks, and no record hash occurs twice.
-/

import Safire.BranchStep

namespace Safire.ChainValidator

variable {env : Env}

/-- A transfer in a block with a Merkle root. Only these carry a checked nonce. -/
def isSequencedTransfer (key : Text) (entry : Entry) : Bool :=
  decide (entry.2.transactionType = .transferCurrency) &&
    decide (entry.2.senderPublicKey = key) &&
    decide (0 < entry.1.recordsMerkleRoot.length)

def sequencedNonces (key : Text) (entries : List Entry) : List Int :=
  (entries.filter (isSequencedTransfer key)).map (fun entry => entry.2.nonce)

/-- The nonces 1, 2, ..., `count`. -/
def firstNonces (count : Nat) : List Int :=
  (List.range count).map (fun index : Nat => (index : Int) + 1)

theorem firstNonces_succ (count : Nat) :
    firstNonces (count + 1) = firstNonces count ++ [(count : Int) + 1] := by
  simp [firstNonces, List.range_succ]

theorem sequencedNonces_snoc (key : Text) (entries : List Entry) (entry : Entry) :
    sequencedNonces key (entries ++ [entry]) = sequencedNonces key entries ++
      if isSequencedTransfer key entry then [entry.2.nonce] else [] := by
  rw [sequencedNonces, List.filter_append, List.map_append]
  congr 1
  cases sequenced : isSequencedTransfer key entry with
  | false => simp [sequenced]
  | true => simp [sequenced]

/-- The nonce held for a key is the number of its sequenced transfers. -/
def NoncesCount (done : List Entry) (state : BranchState) : Prop :=
  ∀ key, ∃ count : Nat, state.nonce key = count ∧ sequencedNonces key done = firstNonces count

theorem noncesCount_initial : NoncesCount [] .initial := by
  intro key
  refine ⟨0, ?_, rfl⟩
  rw [BranchState.nonce, BranchState.initial, Std.ExtTreeMap.getD_empty]
  rfl

private theorem noncesCount_unchanged {done : List Entry} {state next : BranchState} {entry : Entry}
    (held : NoncesCount done state) (notSequenced : ∀ key, isSequencedTransfer key entry = false)
    (same : next.nonces = state.nonces) : NoncesCount (done ++ [entry]) next := by
  intro key
  obtain ⟨count, value, listed⟩ := held key
  refine ⟨count, ?_, ?_⟩
  · rw [BranchState.nonce, same]
    exact value
  · rw [sequencedNonces_snoc, notSequenced key, listed]
    simp

private theorem not_sequenced_of_kind {block : Block} {record : Record}
    (other : record.transactionType ≠ .transferCurrency) (key : Text) :
    isSequencedTransfer key (block, record) = false := by
  simp [isSequencedTransfer, other]

theorem noncesCount_step (chain : List Block) : PreservedByRecords env chain NoncesCount := by
  intro before block after earlier record later state seen next _ _ held connected
  generalize history before block earlier = done at held ⊢
  have heldMarked : NoncesCount done (acceptHash state record) := held
  cases (connected_of_ok connected).applied with
  | transfer kind positive feeLower sequenced funded =>
      by_cases rooted : 0 < block.recordsMerkleRoot.length
      · intro key
        obtain ⟨count, value, listed⟩ := heldMarked key
        have nonceAt := sequenced rooted
        by_cases sender : record.senderPublicKey = key
        · subst sender
          refine ⟨count + 1, ?_, ?_⟩
          · rw [BranchState.nonce]
            simp only [if_pos rooted]
            rw [Std.ExtTreeMap.getD_insert_self, nonceAt, value]
            rfl
          · rw [sequencedNonces_snoc, listed, firstNonces_succ, ← value, ← nonceAt]
            simp [isSequencedTransfer, kind, rooted]
        · refine ⟨count, ?_, ?_⟩
          · rw [← value, BranchState.nonce, BranchState.nonce]
            simp only [if_pos rooted]
            rw [Std.ExtTreeMap.getD_insert]
            simp [sender]
          · rw [sequencedNonces_snoc, listed]
            simp [isSequencedTransfer, sender]
      · refine noncesCount_unchanged heldMarked ?_ (if_neg rooted)
        intro key
        simp [isSequencedTransfer, rooted]
  | issue kind | vote kind | join kind | joinNamed kind | rename kind | heartBeat kind
  | strayHeartBeat kind | carryForward kind | carryForwardAgain kind =>
      exact noncesCount_unchanged heldMarked (not_sequenced_of_kind (by simp [kind])) rfl

/-! ### Record hashes -/

def recordHashes (entries : List Entry) : List Text :=
  entries.map (fun entry => entry.2.hash)

structure HashesDistinct (done : List Entry) (state : BranchState) : Prop where
  members : ∀ hash, hash ∈ state.acceptedRecordHashes ↔ hash ∈ recordHashes done
  nodup : (recordHashes done).Nodup

theorem hashesDistinct_initial : HashesDistinct [] .initial where
  members := by
    intro hash
    simp [BranchState.initial, recordHashes, Std.ExtTreeSet.not_mem_empty]
  nodup := List.nodup_nil

/-- No type rule touches the set of accepted hashes. -/
theorem applied_hashes {block : Block} {isGenesis : Bool} {state next : BranchState}
    {record : Record} (applied : Applied block isGenesis state record next) :
    next.acceptedRecordHashes = state.acceptedRecordHashes := by
  cases applied <;> rfl

theorem hashesDistinct_step (chain : List Block) : PreservedByRecords env chain HashesDistinct := by
  intro before block after earlier record later state seen next _ _ held connected
  generalize history before block earlier = done at held ⊢
  obtain ⟨-, -, unseen, -, applied⟩ := connected_of_ok connected
  have snoc : recordHashes (done ++ [(block, record)]) = recordHashes done ++ [record.hash] := by
    simp [recordHashes]
  refine ⟨?_, ?_⟩
  · intro hash
    rw [applied_hashes applied, acceptHash, snoc, List.mem_append, List.mem_singleton,
      Std.ExtTreeSet.mem_insert, Std.LawfulEqCmp.compare_eq_iff_eq, held.members hash, or_comm,
      @eq_comm _ hash]
  · rw [snoc]
    refine List.Nodup.append held.nodup (List.nodup_singleton _) ?_
    rw [List.disjoint_singleton]
    exact fun old => unseen ((held.members _).mpr old)

theorem noncesCount_of_connected {chain : List Block} {state : BranchState}
    (connected : connectChain env chain = .ok state) : NoncesCount (chainEntries chain) state :=
  holds_after_blocks noncesCount_initial (noncesCount_step chain) (fun _ _ _ held => held)
    (List.append_nil chain).symm connected

theorem transfer_nonces_and_hashes_unique {chain : List Block} (accepted : Accepts env chain) :
    (∀ key, ∃ count, sequencedNonces key (chainEntries chain) = firstNonces count) ∧
      (recordHashes (chainEntries chain)).Nodup := by
  obtain ⟨-, state, connected⟩ := accepts_iff.mp accepted
  have distinct : HashesDistinct (chainEntries chain) state :=
    holds_after_blocks hashesDistinct_initial (hashesDistinct_step chain)
      (fun _ _ _ held => ⟨held.members, held.nodup⟩) (List.append_nil chain).symm connected
  refine ⟨?_, distinct.nodup⟩
  intro key
  obtain ⟨count, -, listed⟩ := noncesCount_of_connected connected key
  exact ⟨count, listed⟩

theorem transfer_nonces_and_hashes_unique_of_spend :
    (∀ key, ∃ count, sequencedNonces key (chainEntries [Sample.genesis, Sample.validSpend]) =
        firstNonces count) ∧
      (recordHashes (chainEntries [Sample.genesis, Sample.validSpend])).Nodup :=
  transfer_nonces_and_hashes_unique Sample.accepts_validSpend

end Safire.ChainValidator
