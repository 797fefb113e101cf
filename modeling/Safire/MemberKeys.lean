/-
The keys of the members, read from stored text.

A reader cuts every field at the next quote, so no key of a stored record holds
one. The ledger takes the keys of its members from such records, whatever the
store and the earlier calls that filled the cache.
-/

import Safire.LedgerCache
import Safire.RecordEncoding

namespace Safire

open Text

/-! ### What a reader returns -/

/-- The text up to the first quote has none. -/
theorem quoteFree_upTo {content : Text} {start stop : Nat}
    (found : find content ['"'] start = some stop) :
    quoteFree (substr content start (stop - start)) = true := by
  rw [quoteFree_iff]
  by_cases inside : '"' ∈ content.drop start
  · obtain ⟨before, rest, split, free⟩ := List.eq_append_cons_of_mem inside
    have first : find content ['"'] start = some (start + before.length) :=
      find_of_clear split (Search.clear_of_notMem free)
    have same : stop = start + before.length := Option.some.inj (found.symm.trans first)
    rw [same, Nat.add_sub_cancel_left, substr, split, List.take_left]
    exact free
  · intro member
    exact inside (List.mem_of_mem_take member)

theorem quoteFree_quotedSection (content : Text) (name : String) :
    quoteFree (quotedSection content name) = true := by
  rw [quotedSection_eq, parseSectionString]
  cases find content (tagText name.toList ['"']) 0 with
  | none => rfl
  | some startIndex =>
      dsimp only
      cases found : find content ['"'] (startIndex + (tagText name.toList ['"']).length) with
      | none => rfl
      | some endIndex => exact quoteFree_upTo found

/-- No quote in the hashes and the keys of the block. -/
structure KeysFree (block : Block) : Prop where
  hash : quoteFree block.hash = true
  previousBlockHash : quoteFree block.previousBlockHash = true
  creatorKey : quoteFree block.creatorKey = true
  senders : ∀ record ∈ block.records, quoteFree record.senderPublicKey = true

section Readers

variable {env : Env} {db : LevelDb}

theorem sender_parseRecords (rounds : Nat) (content : Text) :
    ∀ record ∈ parseRecords env rounds content, quoteFree record.senderPublicKey = true := by
  induction rounds generalizing content with
  | zero =>
      intro record member
      cases member
  | succ rounds ih =>
      intro record member
      rw [parseRecords] at member
      dsimp only at member
      split at member
      · cases member
      · cases List.mem_cons.mp member with
        | inl same =>
            rw [same]
            exact quoteFree_quotedSection _ _
        | inr later => exact ih _ record later

theorem keysFree_missing : KeysFree .missing where
  hash := rfl
  previousBlockHash := rfl
  creatorKey := rfl
  senders := List.forall_mem_nil _

theorem keysFree_parseBlockSection (content : Text) : KeysFree (parseBlockSection env content) where
  hash := quoteFree_quotedSection _ _
  previousBlockHash := quoteFree_quotedSection _ _
  creatorKey := quoteFree_quotedSection _ _
  senders := sender_parseRecords _ _

theorem keysFree_parseBlockSections (rounds : Nat) (content : Text) :
    ∀ block ∈ parseBlockSections env rounds content, KeysFree block := by
  induction rounds generalizing content with
  | zero =>
      intro block member
      cases member
  | succ rounds ih =>
      intro block member
      rw [parseBlockSections] at member
      dsimp only at member
      split at member
      · cases member
      · split at member
        · cases List.mem_cons.mp member with
          | inl same =>
              rw [same]
              exact keysFree_parseBlockSection _
          | inr later => exact ih _ block later
        · exact ih _ block member

theorem keysFree_parseSingleBlockJson (json : Text) :
    KeysFree (parseSingleBlockJson env json) := by
  rw [parseSingleBlockJson]
  cases parsed : parseBlockJson env json with
  | nil => exact keysFree_missing
  | cons block rest =>
      apply keysFree_parseBlockSections (json.length + 1) json
      rw [← parseBlockJson, parsed]
      exact List.mem_cons_self

theorem keysFree_getBlockByHash (hash : Text) : KeysFree (getBlockByHash env db hash) := by
  rw [getBlockByHash]
  split
  · exact keysFree_missing
  · exact keysFree_parseSingleBlockJson _

theorem keysFree_getBlock (number : Int) : KeysFree (getBlock env db number) := by
  rw [getBlock]
  split
  · exact keysFree_getBlockByHash _
  · exact keysFree_parseSingleBlockJson _

theorem keysFree_getStoredBlocks : ∀ block ∈ getStoredBlocks env db, KeysFree block := by
  unfold getStoredBlocks keepFirstByHash
  apply List.foldlRecOn (motive := fun kept => ∀ block ∈ kept, KeysFree block)
  · exact List.forall_mem_nil _
  · intro kept free next listed block member
    split at member
    · cases List.mem_append.mp member with
      | inl old => exact free block old
      | inr new =>
          obtain ⟨entry, -, parsed⟩ := List.mem_flatMap.mp listed
          rw [List.mem_singleton.mp new]
          exact keysFree_parseBlockSections _ _ next parsed
    · exact free block member

theorem keysFree_getNextBlock (block : Block) : KeysFree (getNextBlock env db block) := by
  apply getNextBlock_of_lookups keysFree_missing keysFree_getBlockByHash keysFree_getBlock
    keysFree_getStoredBlocks
  intro unfound free
  exact ⟨free.hash, free.previousBlockHash, free.creatorKey, free.senders⟩

theorem keysFree_walk {tooFar isLast : Int → Bool} (guard : Nat) {start : Block}
    (free : KeysFree start) : ∀ block ∈ walk env db tooFar isLast guard start, KeysFree block := by
  induction guard generalizing start with
  | zero =>
      intro block member
      cases member
  | succ guard ih =>
      intro block member
      have single : block ∈ [start] → KeysFree block := by
        intro only
        rw [List.mem_singleton.mp only]
        exact free
      rw [walk] at member
      dsimp only at member
      split at member
      · cases member
      · split at member
        · exact single member
        · split at member
          · exact single member
          · cases List.mem_cons.mp member with
            | inl same => exact single (List.mem_singleton.mpr same)
            | inr later => exact ih (keysFree_getNextBlock start) block later

end Readers

/-! ### Members of the ledger -/

namespace LedgerState

open ChainValidator

variable {env : Env} {snapshotMatches : Record → Bool} {wallet : Text}

def memberKeys (progress : Progress) : List Text :=
  progress.result.members.map (fun member => member.publicKey)

theorem keys_claimPublicName (members : List MemberState) (nameOwners : TextMap Text)
    (publicKey name : Text) :
    (claimPublicName members nameOwners publicKey name).1.map (fun member => member.publicKey) =
      members.map (fun member => member.publicKey) := by
  unfold claimPublicName
  dsimp only
  split
  · rfl
  · split
    · rfl
    · split
      · rfl
      · dsimp only
        rw [setMemberName, KeyedList.map_key_updateFirst]
        intro member
        rfl

theorem memberKeys_applyJoin {progress : Progress} {block : Block} {record : Record} :
    memberKeys (applyJoin wallet progress block record) ⊆
      record.senderPublicKey :: memberKeys progress := by
  have admitted : ∀ extended : List MemberState,
      extended = progress.result.members ++ [newMember record.senderPublicKey block.number] →
      memberKeys (progress.withMembers
        (if 0 < record.name.length then
          claimPublicName extended progress.nameOwners record.senderPublicKey record.name
        else (extended, progress.nameOwners))) ⊆ record.senderPublicKey :: memberKeys progress := by
    intro extended same
    have keys : memberKeys (progress.withMembers
        (if 0 < record.name.length then
          claimPublicName extended progress.nameOwners record.senderPublicKey record.name
        else (extended, progress.nameOwners))) = extended.map (fun member => member.publicKey) := by
      rw [memberKeys, Progress.withMembers]
      dsimp only
      split
      · exact keys_claimPublicName _ _ _ _
      · rfl
    rw [keys, same, List.map_append, List.map_singleton, memberKeys]
    intro key member
    cases List.mem_append.mp member with
    | inl old => exact List.mem_cons_of_mem _ old
    | inr new =>
        rw [List.mem_singleton.mp new]
        exact List.mem_cons_self
  rw [applyJoin]
  dsimp only
  split
  · split
    · exact List.subset_cons_self _ _
    · exact admitted _ rfl
  · split
    · exact List.subset_cons_self _ _
    · exact admitted _ rfl

theorem memberKeys_recordRound {block : Block} {progress : Progress} {record : Record} :
    memberKeys (recordRound snapshotMatches wallet block progress record) ⊆
      record.senderPublicKey :: memberKeys progress := by
  rw [recordRound]
  split
  · exact List.subset_cons_self _ _
  · dsimp only
    rw [applyRecord]
    change memberKeys (applyMembership _ _ _ _ _) ⊆ _
    rw [applyMembership]
    split
    · exact memberKeys_applyJoin
    · split
      · rw [memberKeys, Progress.withMembers]
        dsimp only
        rw [keys_claimPublicName]
        exact List.subset_cons_self _ _
      · split
        · exact List.subset_cons_self _ _
        · split
          · rw [applyCarryForward]
            dsimp only
            split
            · exact List.subset_cons_self _ _
            · exact List.subset_cons_self _ _
          · exact List.subset_cons_self _ _

theorem memberKeys_walkEntries {start : Progress} {entries : List Entry}
    (none : memberKeys start = []) :
    memberKeys (walkEntries snapshotMatches wallet start entries) ⊆
      entries.map (fun entry => entry.2.senderPublicKey) := by
  induction entries using List.reverseRecOn with
  | nil =>
      rw [walkEntries, List.foldl_nil, none]
      exact List.nil_subset _
  | append_singleton entries entry ih =>
      rw [walkEntries_snoc, List.map_append]
      intro key member
      cases List.mem_cons.mp (memberKeys_recordRound member) with
      | inl same =>
          rw [same]
          exact List.mem_append_right _ List.mem_cons_self
      | inr old => exact List.mem_append_left _ (ih old)

theorem keys_finish (progress : Progress) (now : Int) :
    (finish progress wallet now).members.map (fun member => member.publicKey) = memberKeys progress := by
  have merged : (finish progress wallet now).members =
      (finishMembers progress now).members := by
    have beat : ∀ state : State, (finishHeartbeat state now).members = state.members := by
      intro state
      unfold finishHeartbeat
      split
      · rfl
      · split
        · rfl
        · dsimp only
          split <;> rfl
    rw [finish, finishTotals]
    dsimp only
    split
    · exact beat _
    · exact beat _
  rw [merged, finishMembers, memberKeys]
  exact List.map_map

/-- No member key of a state that was computed from a store holds a quote. -/
theorem quoteFree_computeState (env : Env) (db : LevelDb) (now : Int) (stop : Int) :
    ∀ member ∈ (computeState env db now wallet stop).members,
      quoteFree member.publicKey = true := by
  intro member listed
  rw [computeState_of_visited rfl] at listed
  have key : member.publicKey ∈ memberKeys (walkedProgress env db wallet stop
      (visitedBlocks env db stop)) := by
    rw [← @keys_finish wallet]
    exact List.mem_map_of_mem listed
  obtain ⟨entry, inside, same⟩ := List.mem_map.mp (memberKeys_walkEntries rfl key)
  rw [← same]
  obtain ⟨block, visited, inBlock⟩ := List.mem_flatMap.mp inside
  obtain ⟨record, held, rfl⟩ := List.mem_map.mp inBlock
  exact (keysFree_walk _ (keysFree_getBlock _) block visited).senders record held

/-- Nor does one of a state that `build` returns after any earlier calls. -/
theorem quoteFree_build (env : Env) (earlier : List Call) (call : Call) :
    ∀ member ∈ (call.build env (buildAll env ∅ earlier)).1.members,
      quoteFree member.publicKey = true := by
  intro member listed
  have cached : CachedFrom env ([] ++ earlier) (buildAll env ∅ earlier) :=
    CachedFrom.buildAll (fun key state found => absurd found (by simp)) earlier
  by_cases keyed : call.Keyed
  · rw [build_of_keyed keyed] at listed
    cases found : (buildAll env ∅ earlier)[call.key env]? with
    | none =>
        rw [found] at listed
        exact quoteFree_computeState env call.db call.currentTimeBlock call.stopBlock member listed
    | some state =>
        rw [found] at listed
        obtain ⟨other, -, -, -, same⟩ := cached _ _ found
        rw [← same] at listed
        exact quoteFree_computeState env other.db other.currentTimeBlock other.stopBlock member listed
  · rw [build_of_unkeyed keyed] at listed
    cases listed

theorem quoteFree_activeMemberKeysAt {state : State} (number : Int)
    (free : ∀ member ∈ state.members, quoteFree member.publicKey = true) :
    ∀ key ∈ activeMemberKeysAt state number, quoteFree key = true := by
  intro key member
  obtain ⟨owner, listed, rfl⟩ := List.mem_map.mp member
  exact free owner (List.mem_filter.mp listed).1

end LedgerState

end Safire
