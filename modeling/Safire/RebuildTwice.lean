/-
A rebuild after a rebuild.

After the full path the index holds the chosen chain, and the same blocks choose
the same chain again. After the shortcut the checkpoint may have moved up the
chain that the shortcut followed, and the rest of that chain is followed again:
the fork counters leave no second block in the slot of the new checkpoint.
-/

import Safire.Convergence
import Safire.ForkCounts
import Safire.InstalledWalk
import Safire.TipHash

namespace Safire

open Text ChainValidator

variable {env : Env} {db after : LevelDb}

/-! ### Writing the same entries again -/

namespace LevelDb

theorem putAll_congr (entries : List (StoreKey × Text)) {left right : LevelDb} {key : StoreKey}
    (same : left[key.text]? = right[key.text]?) :
    (left.putAll entries)[key.text]? = (right.putAll entries)[key.text]? := by
  induction entries using List.reverseRecOn with
  | nil => exact same
  | append_singleton earlier last ih =>
      rw [putAll_snoc, putAll_snoc, getElem?_put, getElem?_put, ih]

theorem putAll_again (entries : List (StoreKey × Text)) (key : StoreKey) :
    ((db.putAll entries).putAll entries)[key.text]? = (db.putAll entries)[key.text]? := by
  induction entries using List.reverseRecOn with
  | nil => rfl
  | append_singleton earlier last ih =>
      rw [putAll_snoc, putAll_snoc, getElem?_put, getElem?_put]
      by_cases own : last.1 = key
      · rw [if_pos own, if_pos own]
      · rw [if_neg own, if_neg own, ← ih]
        apply putAll_congr
        rw [getElem?_put, if_neg own]

end LevelDb

/-! ### The followed path -/

/-- One step of the shortcut along the next entries. -/
structure ValidLink (env : Env) (db : LevelDb) (parent child : Block) : Prop where
  link : getBlockByHash env db (db.get (.next parent.hash)) = child
  connects : childConnectsToParent child parent = true
  envelope : blockEnvelopeIsValid env child = true

theorem ValidLink.above {parent child : Block} (valid : ValidLink env db parent child) :
    parent.number < child.number :=
  (childConnectsToParent_iff.mp valid.connects).2.2.1

theorem start_le {start block : Block} {rest : List Block}
    (path : (start :: rest).IsChain (ValidLink env db)) (member : block ∈ start :: rest) :
    start.number ≤ block.number := by
  induction rest generalizing start with
  | nil =>
      rw [List.mem_singleton.mp member]
  | cons child rest ih =>
      rw [List.isChain_cons_cons] at path
      cases List.mem_cons.mp member with
      | inl own => rw [own]
      | inr later => exact path.1.above.le.trans (ih path.2 later)

theorem last_above {start tip : Block} {rest : List Block}
    (path : (start :: rest).IsChain (ValidLink env db)) (last : (start :: rest).getLast? = some tip) :
    start.number ≤ tip.number :=
  start_le path (List.mem_of_getLast? last)

theorem Sound.holds_of_path (sound : Sound env db) {start : Block} {rest : List Block}
    (path : (start :: rest).IsChain (ValidLink env db)) :
    ∀ block ∈ rest, Holds env db block ∧ blockEnvelopeIsValid env block = true := by
  induction rest generalizing start with
  | nil =>
      intro block member
      cases member
  | cons child rest ih =>
      rw [List.isChain_cons_cons] at path
      obtain ⟨valid, path⟩ := path
      intro block member
      cases List.mem_cons.mp member with
      | inr later => exact ih path block later
      | inl own =>
          have found : 0 < (getBlockByHash env db (db.get (.next start.hash))).number := by
            rw [valid.link]
            exact blockEnvelopeIsValid_positive valid.envelope
          have holds := (sound.holds_getBlockByHash found).1
          rw [valid.link] at holds
          exact own ▸ ⟨holds, valid.envelope⟩

theorem followNextLinks_iff {latestBlockId : Int} {steps : Nat} {start tip : Block} :
    followNextLinks env db latestBlockId steps start = some tip ↔
      tip.number = latestBlockId ∧ ∃ rest, (start :: rest).IsChain (ValidLink env db) ∧
        (start :: rest).getLast? = some tip ∧ rest.length < steps := by
  induction steps generalizing start with
  | zero => simp [followNextLinks]
  | succ steps ih =>
      rw [followNextLinks]
      dsimp only
      by_cases reached : latestBlockId ≤ start.number
      · rw [if_pos reached]
        constructor
        · intro found
          split at found
          · rename_i exactly
            cases found
            exact ⟨exactly, [], .singleton _, rfl, Nat.succ_pos _⟩
          · cases found
        · intro found
          obtain ⟨numbered, rest, path, last, -⟩ := found
          cases rest with
          | nil =>
              have same : start = tip := Option.some.inj last
              rw [same, if_pos numbered]
          | cons child rest =>
              rw [List.isChain_cons_cons] at path
              rw [List.getLast?_cons_cons] at last
              have below := path.1.above.trans_le (last_above path.2 last)
              omega
      · rw [if_neg reached]
        constructor
        · intro found
          split at found
          · cases found
          · rename_i valid
            rw [not_or, Bool.not_eq_false, Bool.not_eq_false] at valid
            obtain ⟨numbered, rest, path, last, short⟩ := ih.mp found
            exact ⟨numbered, getBlockByHash env db (db.get (.next start.hash)) :: rest,
              List.isChain_cons_cons.mpr ⟨⟨rfl, valid.1, valid.2⟩, path⟩,
              List.getLast?_cons_cons.trans last, Nat.succ_lt_succ short⟩
        · intro found
          obtain ⟨numbered, rest, path, last, short⟩ := found
          cases rest with
          | nil =>
              have same : start = tip := Option.some.inj last
              exact absurd (same ▸ numbered.ge) reached
          | cons child rest =>
              rw [List.isChain_cons_cons] at path
              rw [List.getLast?_cons_cons] at last
              have next := path.1.link
              rw [next, if_neg (by simp [path.1.connects, path.1.envelope])]
              exact ih.mpr ⟨numbered, rest, path.2, last, Nat.lt_of_succ_lt_succ short⟩

theorem checkpointBelow_le (depth : Nat) (checkpoint : Block) :
    (checkpointBelow env db depth checkpoint).number ≤ checkpoint.number := by
  induction depth generalizing checkpoint with
  | zero => exact le_rfl
  | succ depth ih =>
      rw [checkpointBelow]
      dsimp only
      split
      · exact le_rfl
      · split
        · exact le_rfl
        · rename_i valid
          rw [not_or, Bool.not_eq_false] at valid
          exact (ih _).trans (childConnectsToParent_iff.mp valid.1).2.2.1.le

/-- Going down from the end of a path stays on it or leaves through its start. -/
theorem checkpointBelow_on_path (depth : Nat) : ∀ {earlier : List Block} {tip : Block},
    (earlier ++ [tip]).IsChain (ValidLink env db) →
    (∀ block ∈ earlier ++ [tip], Holds env db block) →
    (∀ start, (earlier ++ [tip]).head? = some start →
        (checkpointBelow env db depth tip).number ≤ start.number) ∨
      ∃ before rest, earlier ++ [tip] = before ++ checkpointBelow env db depth tip :: rest := by
  induction depth with
  | zero =>
      intro earlier tip _ _
      exact .inr ⟨earlier, [], rfl⟩
  | succ depth ih =>
      intro earlier tip path held
      rw [checkpointBelow]
      dsimp only
      split
      · exact .inr ⟨earlier, [], rfl⟩
      · split
        · exact .inr ⟨earlier, [], rfl⟩
        · rename_i valid
          rw [not_or, Bool.not_eq_false] at valid
          cases earlier using List.reverseRecOn with
          | nil =>
              apply Or.inl
              intro start head
              cases head
              exact (checkpointBelow_le _ _).trans (childConnectsToParent_iff.mp valid.1).2.2.1.le
          | append_singleton earlier parent =>
              have place : earlier ++ [parent] ++ [tip] = earlier ++ parent :: tip :: [] := by simp
              have link : ValidLink env db parent tip := by
                rw [place] at path
                exact (List.isChain_append_cons_cons.mp path).2.1
              have hashes := (childConnectsToParent_iff.mp link.connects).2.2.2.2
              have parentHolds := held parent (by simp)
              rw [hashes, parentHolds.getBlockByHash_eq]
              have below := ih (path.left_of_append)
                (fun block member => held block (List.mem_append_left _ member))
              cases below with
              | inl under =>
                  apply Or.inl
                  intro start head
                  apply under
                  rw [List.head?_append_of_ne_nil _ (by simp)] at head
                  exact head
              | inr on =>
                  obtain ⟨before, rest, split⟩ := on
                  exact .inr ⟨before, rest ++ [tip], by rw [split]; simp⟩

/-! ### The shortcut -/

/-- What the shortcut has checked where it succeeds. -/
structure Shortcut (env : Env) (db : LevelDb) (tip : Int) (checkpoint current : Block) : Prop where
  positive : 0 < tip
  latest : getLatestBlockId db = tip
  read : readValidatedCheckpoint db = some (checkpoint.number, checkpoint.hash)
  within : checkpoint.number ≤ tip
  highest : (highestStoredBlock env db).1 ≤ tip
  canonical : checkpointMatchesCanonical env db checkpoint.number checkpoint.hash = some checkpoint
  unforked : forkBlocksCheckpoint db checkpoint.number = false
  followed : followNextLinks env db tip checkpointFastValidateLimit checkpoint = some current
  slot : (getBlock env db tip).number = tip ∧ (getBlock env db tip).hash = current.hash

/-- The database after a successful shortcut. -/
def afterShortcut (env : Env) (db : LevelDb) (current : Block) : LevelDb :=
  maybeAdvanceValidatedCheckpoint env (db.putLong (.chainMeta "connected_latest") current.number)
    current

theorem checkpointMatchesCanonical_some {checkpointBlock : Int} {checkpointHash : Text}
    {checkpoint : Block}
    (found : checkpointMatchesCanonical env db checkpointBlock checkpointHash = some checkpoint) :
    checkpoint.number = checkpointBlock ∧ checkpoint.hash = checkpointHash ∧
      0 < checkpointBlock ∧ getBlockByHash env db checkpointHash = checkpoint ∧
      blockEnvelopeIsValid env checkpoint = true := by
  unfold checkpointMatchesCanonical at found
  split at found
  · cases found
  · rename_i usable
    split at found
    · cases found
    · dsimp only at found
      split at found
      · rename_i same
        cases found
        rw [not_or, not_le] at usable
        exact ⟨same.1, same.2.1, usable.1, rfl, same.2.2⟩
      · cases found

theorem Shortcut.fastPath_eq (indexed : Indexed env db) {tip : Int} {checkpoint current : Block}
    (shortcut : Shortcut env db tip checkpoint current) :
    tryValidatedCheckpointFastPath env db = (some tip, afterShortcut env db current) := by
  have numbered := followNextLinks_number shortcut.followed
  have highest : highestStoredBlock env db = ((highestStoredBlock env db).1, db) :=
    Prod.ext rfl indexed.highestStoredBlock_eq
  unfold tryValidatedCheckpointFastPath
  dsimp only
  rw [shortcut.latest, if_neg (not_le.mpr shortcut.positive), shortcut.read]
  dsimp only
  rw [if_neg (not_lt.mpr shortcut.within), highest]
  dsimp only
  rw [if_neg (not_lt.mpr shortcut.highest), shortcut.canonical]
  dsimp only
  rw [shortcut.unforked, if_neg Bool.false_ne_true, shortcut.followed]
  dsimp only
  rw [if_neg (by simp [shortcut.slot]), numbered, afterShortcut, numbered]

theorem exists_shortcut (indexed : Indexed env db) {tip : Int}
    (fast : (tryValidatedCheckpointFastPath env db).1 = some tip) :
    ∃ checkpoint current, Shortcut env db tip checkpoint current := by
  have highest : highestStoredBlock env db = ((highestStoredBlock env db).1, db) :=
    Prod.ext rfl indexed.highestStoredBlock_eq
  unfold tryValidatedCheckpointFastPath at fast
  dsimp only at fast
  split at fast
  · cases fast
  · rename_i positive
    cases read : readValidatedCheckpoint db with
    | none =>
        rw [read] at fast
        cases fast
    | some stored =>
        obtain ⟨checkpointBlock, checkpointHash⟩ := stored
        rw [read] at fast
        dsimp only at fast
        split at fast
        · cases fast
        · rename_i within
          rw [highest] at fast
          dsimp only at fast
          split at fast
          · cases fast
          · rename_i reached
            cases canonical : checkpointMatchesCanonical env db checkpointBlock checkpointHash with
            | none =>
                rw [canonical] at fast
                cases fast
            | some checkpoint =>
                rw [canonical] at fast
                dsimp only at fast
                split at fast
                · cases fast
                · rename_i unforked
                  cases followed : followNextLinks env db (getLatestBlockId db)
                      checkpointFastValidateLimit checkpoint with
                  | none =>
                      rw [followed] at fast
                      cases fast
                  | some current =>
                      rw [followed] at fast
                      dsimp only at fast
                      split at fast
                      · cases fast
                      · rename_i slot
                        obtain rfl : current.number = tip := Option.some.inj fast
                        have numbered := followNextLinks_number followed
                        obtain ⟨rfl, rfl, -⟩ := checkpointMatchesCanonical_some canonical
                        rw [not_or, not_not, not_not] at slot
                        rw [← numbered] at positive within reached followed slot
                        exact ⟨checkpoint, current, not_le.mp positive, numbered.symm, read,
                          not_lt.mp within, not_lt.mp reached, canonical,
                          Bool.not_eq_true _ ▸ unforked, followed, slot⟩

/-! ### After the shortcut -/

/-- The keys that the shortcut writes. -/
def StoreKey.IsMark (key : StoreKey) : Prop :=
  key = .chainMeta "connected_latest" ∨ key.IsCheckpoint

theorem StoreKey.IsMark.quiet {key : StoreKey} (mark : key.IsMark) : key.IsQuiet := by
  cases mark with
  | inl connected => exact connected ▸ quiet_chainMeta (by decide)
  | inr checkpoint => exact checkpoint.quiet

theorem StoreKey.IsMark.chainMeta {key : StoreKey} (mark : key.IsMark) :
    ∃ name, key = .chainMeta name := by
  rcases mark with connected | block | hash
  · exact ⟨_, connected⟩
  · exact ⟨_, block⟩
  · exact ⟨_, hash⟩

theorem mark_afterShortcut (env : Env) (db : LevelDb) (current : Block) :
    Writes StoreKey.IsMark db (afterShortcut env db current) :=
  ((Writes.refl db).put (.inl rfl)).trans
    ((checkpoint_maybeAdvanceValidatedCheckpoint _ current).mono fun _ => .inr)

namespace Writes

variable (writes : Writes StoreKey.IsMark db after)
include writes

theorem mark_side : Writes StoreKey.IsSide db after :=
  writes.mono fun _ mark => mark.quiet.side

theorem slotNumbers_mark : slotNumbers after = slotNumbers db := by
  apply slotNumbers_congr
  intro text isSlot
  apply writes.getElem?_of_text
  intro key written same
  obtain ⟨name, named⟩ := written.chainMeta
  rw [← same, named] at isSlot
  cases isSlot

theorem highestStoredBlock_mark :
    (highestStoredBlock env after).1 = (highestStoredBlock env db).1 := by
  have same : after.getLong highestKey = db.getLong highestKey := by
    rw [LevelDb.getLong, LevelDb.getLong, writes.get_eq fun mark => mark.quiet.2.1 rfl]
  unfold highestStoredBlock scanHighestStoredBlock
  rw [same, writes.mark_side.getStoredBlocks_side]
  cases db.getLong highestKey with
  | some highest => rfl
  | none => rfl

theorem forkBlocksCheckpoint_mark (checkpointBlock : Int) :
    forkBlocksCheckpoint after checkpointBlock = forkBlocksCheckpoint db checkpointBlock := by
  have counter : ∀ key : StoreKey, key.IsCounter → after.getLong key = db.getLong key := by
    intro key counter
    rw [LevelDb.getLong, LevelDb.getLong, writes.get_eq]
    intro mark
    obtain ⟨name, rfl⟩ := mark.chainMeta
    simp [StoreKey.IsCounter] at counter
  rw [forkBlocksCheckpoint, forkBlocksCheckpoint, hasForkVariantAtOrAfter, hasForkVariantAtOrAfter,
    counter _ (.inl rfl), counter _ (.inr rfl), writes.slotNumbers_mark]

theorem validLink_mark {parent child : Block} (valid : ValidLink env db parent child) :
    ValidLink env after parent child where
  link := by
    rw [writes.mark_side.chainData rfl, writes.mark_side.getBlockByHash_side]
    exact valid.link
  connects := valid.connects
  envelope := valid.envelope

end Writes

/-- The checkpoint stays, or moves down from the tip to a larger number than before. -/
theorem maybeAdvanceValidatedCheckpoint_cases (env : Env) (db : LevelDb) (tip : Block) :
    maybeAdvanceValidatedCheckpoint env db tip = db ∨
      ∃ checkpoint, checkpointBelow env db validatedCheckpointDepth tip = checkpoint ∧
        0 < checkpoint.number ∧ checkpoint.hash ≠ [] ∧
        (∀ previous, readValidatedCheckpoint db = some previous → previous.1 < checkpoint.number) ∧
        maybeAdvanceValidatedCheckpoint env db tip =
          (db.putLong (.chainMeta "validated_checkpoint_block") checkpoint.number).put
            (.chainMeta "validated_checkpoint_hash") checkpoint.hash := by
  unfold maybeAdvanceValidatedCheckpoint
  dsimp only
  split
  · exact .inl rfl
  · split
    · exact .inl rfl
    · split
      · exact .inl rfl
      · rename_i usable
        split
        · exact .inl rfl
        · rename_i advances
          rw [not_or, not_le, List.length_eq_zero_iff] at usable
          refine .inr ⟨_, rfl, usable.1, usable.2, ?_, rfl⟩
          intro previous read
          rw [read, Option.any_some, decide_eq_true_eq, not_le] at advances
          exact advances

theorem readValidatedCheckpoint_congr
    (block : after.get (.chainMeta "validated_checkpoint_block") =
      db.get (.chainMeta "validated_checkpoint_block"))
    (hash : after.get (.chainMeta "validated_checkpoint_hash") =
      db.get (.chainMeta "validated_checkpoint_hash")) :
    readValidatedCheckpoint after = readValidatedCheckpoint db := by
  rw [readValidatedCheckpoint, readValidatedCheckpoint, LevelDb.getLong, LevelDb.getLong, block,
    hash]

theorem checkpointBelow_congr (same : ∀ hash, getBlockByHash env after hash =
    getBlockByHash env db hash) (depth : Nat) (checkpoint : Block) :
    checkpointBelow env after depth checkpoint = checkpointBelow env db depth checkpoint := by
  induction depth generalizing checkpoint with
  | zero => rfl
  | succ depth ih =>
      rw [checkpointBelow, checkpointBelow]
      dsimp only
      rw [same, ih]

theorem checkpointMatchesCanonical_of_slot {checkpoint : Block} (holds : Holds env db checkpoint)
    (slot : db.get (.canonical checkpoint.number) = checkpoint.hash)
    (envelope : blockEnvelopeIsValid env checkpoint = true) :
    checkpointMatchesCanonical env db checkpoint.number checkpoint.hash = some checkpoint := by
  obtain ⟨positive, named, -⟩ := holds.trips.facts
  have raw : rawCanonicalHash env db checkpoint.number = checkpoint.hash := by
    unfold rawCanonicalHash
    dsimp only
    rw [slot, if_pos (List.length_pos_iff.mpr named)]
  have usable : ¬ (checkpoint.number ≤ 0 ∨ checkpoint.hash.length = 0) := by
    rw [not_or, not_le, List.length_eq_zero_iff]
    exact ⟨positive, named⟩
  unfold checkpointMatchesCanonical
  dsimp only
  rw [if_neg usable, raw, if_neg (not_not.mpr rfl), holds.getBlockByHash_eq,
    if_pos ⟨rfl, rfl, envelope⟩]

section Again

variable {tip : Int} {checkpoint current : Block}

theorem Shortcut.start (shortcut : Shortcut env db tip checkpoint current) (sound : Sound env db) :
    Holds env db checkpoint ∧ blockEnvelopeIsValid env checkpoint = true := by
  obtain ⟨-, -, positive, found, envelope⟩ := checkpointMatchesCanonical_some shortcut.canonical
  rw [← found] at positive
  have holds := (sound.holds_getBlockByHash positive).1
  rw [found] at holds
  exact ⟨holds, envelope⟩

/-- The shortcut succeeds from any later block of the path that becomes the checkpoint. -/
theorem Shortcut.from_later (shortcut : Shortcut env db tip checkpoint current)
    (indexed : Indexed env db) (forks : ForksCounted env db) (writes : Writes StoreKey.IsMark db after)
    {rest before rest' : List Block} {later : Block}
    (path : (checkpoint :: rest).IsChain (ValidLink env db))
    (last : (checkpoint :: rest).getLast? = some current)
    (short : rest.length < checkpointFastValidateLimit)
    (place : checkpoint :: rest = before ++ later :: rest')
    (read : readValidatedCheckpoint after = some (later.number, later.hash)) :
    Shortcut env after tip later current := by
  have side := writes.mark_side
  have numbered := followNextLinks_number shortcut.followed
  obtain ⟨startHolds, startEnvelope⟩ := shortcut.start indexed.sound
  have member : later ∈ checkpoint :: rest := by
    rw [place]
    simp
  have valid : Holds env db later ∧ blockEnvelopeIsValid env later = true := by
    cases List.mem_cons.mp member with
    | inl own => exact own ▸ ⟨startHolds, startEnvelope⟩
    | inr later => exact indexed.sound.holds_of_path path _ later
  have above := start_le path member
  have positive := startHolds.trips.facts.1
  have slot := forks.canonical_of_unforked indexed positive shortcut.unforked valid.1 above
  have suffix : (later :: rest').IsChain (ValidLink env db) := by
    rw [place] at path
    exact path.right_of_append
  have suffixLast : (later :: rest').getLast? = some current := by
    rw [place, List.getLast?_append_of_ne_nil _ (List.cons_ne_nil _ _)] at last
    exact last
  have suffixShort : rest'.length < checkpointFastValidateLimit := by
    have lengths := congrArg List.length place
    rw [List.length_append, List.length_cons, List.length_cons] at lengths
    omega
  constructor
  case positive => exact shortcut.positive
  case latest => exact side.getLatestBlockId_side.trans shortcut.latest
  case read => exact read
  case within => exact numbered ▸ last_above suffix suffixLast
  case highest => exact writes.highestStoredBlock_mark ▸ shortcut.highest
  case canonical =>
    apply checkpointMatchesCanonical_of_slot (valid.1.congr (side.chainData rfl))
    · rw [side.chainData rfl]
      exact slot
    · exact valid.2
  case unforked =>
    rw [writes.forkBlocksCheckpoint_mark]
    exact forkBlocksCheckpoint_mono positive above shortcut.unforked
  case followed =>
    exact followNextLinks_iff.mpr ⟨numbered, rest',
      suffix.imp fun _ _ valid => writes.validLink_mark valid, suffixLast, suffixShort⟩
  case slot =>
    rw [side.getBlock_side]
    exact shortcut.slot

/-- The shortcut succeeds again on what it left. -/
theorem Shortcut.again (shortcut : Shortcut env db tip checkpoint current)
    (indexed : Indexed env db) (forks : ForksCounted env db) :
    ∃ later, Shortcut env (afterShortcut env db current) tip later current := by
  have writes := mark_afterShortcut env db current
  obtain ⟨startHolds, startEnvelope⟩ := shortcut.start indexed.sound
  obtain ⟨numbered, rest, path, last, short⟩ := followNextLinks_iff.mp shortcut.followed
  have onPath : ∀ block ∈ checkpoint :: rest, Holds env db block := by
    intro block member
    cases List.mem_cons.mp member with
    | inl own => exact own ▸ startHolds
    | inr later => exact (indexed.sound.holds_of_path path block later).1
  have sameRead : readValidatedCheckpoint (db.putLong (.chainMeta "connected_latest") current.number) =
      readValidatedCheckpoint db :=
    readValidatedCheckpoint_congr (LevelDb.get_putLong_of_ne (by simp))
      (LevelDb.get_putLong_of_ne (by simp))
  cases maybeAdvanceValidatedCheckpoint_cases env
      (db.putLong (.chainMeta "connected_latest") current.number) current with
  | inl stays =>
      refine ⟨checkpoint, @Shortcut.from_later _ _ _ _ _ _ shortcut indexed forks writes _ [] _ _
        path last short rfl ?_⟩
      rw [afterShortcut, stays, sameRead]
      exact shortcut.read
  | inr moves =>
      obtain ⟨later, below, positive, named, advances, written⟩ := moves
      have above := advances _ (sameRead.trans shortcut.read)
      obtain ⟨earlier, split⟩ := List.getLast?_eq_some_iff.mp last
      have sameBlocks : ∀ hash, getBlockByHash env
          (db.putLong (.chainMeta "connected_latest") current.number) hash =
          getBlockByHash env db hash :=
        fun hash => getBlockByHash_congr (LevelDb.get_putLong_of_ne (by simp))
      rw [checkpointBelow_congr sameBlocks] at below
      rw [split] at path onPath
      have on := checkpointBelow_on_path validatedCheckpointDepth path onPath
      rw [below, ← split] at on
      cases on with
      | inl under => exact absurd (under checkpoint rfl) (not_le.mpr above)
      | inr on =>
          obtain ⟨before, rest', place⟩ := on
          rw [← split] at path
          refine ⟨later, shortcut.from_later indexed forks writes path last short place ?_⟩
          have range : IsLong later.number := by
            have member : later ∈ checkpoint :: rest := by
              rw [place]
              simp
            rw [← split] at onPath
            exact (onPath later member).trips.facts.2.2
          rw [afterShortcut, written, readValidatedCheckpoint, LevelDb.getLong,
            LevelDb.get_put_of_ne (by simp), LevelDb.get_put_self, ← LevelDb.getLong,
            LevelDb.getLong_putLong_self range]
          dsimp only
          rw [if_pos ⟨positive, List.length_pos_iff.mpr named⟩]

end Again

/-! ### After the full path -/

/-- The entries that a rebuild writes for every chain. -/
def StoreKey.IsIndex (key : StoreKey) : Prop :=
  (∃ number, key = .canonical number) ∨ ∃ parentHash, key = .next parentHash

theorem StoreKey.IsIndex.not_side {key : StoreKey} (index : key.IsIndex) :
    ¬ (key.IsLatest ∨ key.IsSide) := by
  intro other
  rcases index with ⟨number, rfl⟩ | ⟨parentHash, rfl⟩
  · simp [StoreKey.IsLatest, StoreKey.IsSide] at other
  · simp [StoreKey.IsLatest, StoreKey.IsSide] at other

theorem getElem?_next_eraseNextLinks (db : LevelDb) (parentHash : Text) :
    (eraseNextLinks db)[(StoreKey.next parentHash).text]? = none := by
  have erased : isNextEntry (StoreKey.next parentHash).text = true := by
    rw [isNextEntry_text]
    rfl
  rw [eraseNextLinks, Std.ExtTreeMap.getElem?_filter', erased]
  cases db[(StoreKey.next parentHash).text]? with
  | none => rfl
  | some value => rfl

/-- What the full path leaves. -/
structure FullyRebuilt (env : Env) (db : LevelDb) (newTip : Block) (after : LevelDb) : Prop where
  rewritten : Rewritten env db after
  latest : getLatestBlockId after = newTip.number
  hash : getLatestBlockHash env after = newTip.hash
  index : ∀ key : StoreKey, key.IsIndex → after[key.text]? =
    ((eraseNextLinks db).putAll (writtenEntries env (bestValidChain env db)))[key.text]?

theorem fullyRebuilt (sound : Sound env db) (now : Int)
    (full : (tryValidatedCheckpointFastPath env db).1 = none)
    (positive : 0 < (rebuildBestChainIndex env now db).1) :
    ∃ newTip, (bestValidChain env db).getLast? = some newTip ∧
      (rebuildBestChainIndex env now db).1 = newTip.number ∧
      FullyRebuilt env db newTip (rebuildBestChainIndex env now db).2 := by
  obtain ⟨newTip, last, returned, written⟩ := rebuild_full now full positive
  have side := writes_fastPath env db
  have trips := (sound.bestValidChain_holds newTip (List.mem_of_getLast? last)).trips
  have rewritten := rewritten_rebuildBestChainIndex sound now
  have latest := (installed_rebuild now full positive).latest newTip last
  have slot := (rewritten_bestValidChain (side.aside.sound_aside sound)).2 newTip
  rw [bestValidChain_side side] at slot
  have kept := TipHashKept.of_finishChain trips (slot last) now "best chain index rebuilt"
    (previousTipOf env db)
  have hash : getLatestBlockHash env (rebuildBestChainIndex env now db).2 = newTip.hash := by
    have agrees := (written ▸ kept).agrees (latest ▸ trips.facts.1)
    rw [agrees, latest, written, (writes_finishChain _ _ _ _ _).getBlock_ends, slot last]
  refine ⟨newTip, last, returned, rewritten, latest, hash, ?_⟩
  intro key index
  rw [written, (writes_finishChain _ _ _ _ _).getElem?_eq index.not_side, writeChain_eq]
  apply LevelDb.putAll_congr
  cases index with
  | inl canonical =>
      obtain ⟨number, rfl⟩ := canonical
      rw [getElem?_eraseNextLinks rfl, getElem?_eraseNextLinks rfl, side.getElem?_eq id]
  | inr next =>
      obtain ⟨parentHash, rfl⟩ := next
      rw [getElem?_next_eraseNextLinks, getElem?_next_eraseNextLinks]

/-- What a rebuild has to leave as it was. -/
structure SameIndex (env : Env) (db after : LevelDb) : Prop where
  latest : getLatestBlockId after = getLatestBlockId db
  hash : getLatestBlockHash env after = getLatestBlockHash env db
  canonical : ∀ number,
    after[(StoreKey.canonical number).text]? = db[(StoreKey.canonical number).text]?
  next : ∀ parentHash,
    after[(StoreKey.next parentHash).text]? = db[(StoreKey.next parentHash).text]?

theorem SameIndex.of_mark (writes : Writes StoreKey.IsMark db after) : SameIndex env db after := by
  have side := writes.mark_side
  constructor
  · exact side.getLatestBlockId_side
  · rw [getLatestBlockHash, getLatestBlockHash, writes.get_eq fun mark => mark.quiet.2.2 rfl,
      side.getLatestBlockId_side, side.getBlock_side]
  · exact fun number => side.getElem?_eq id
  · exact fun parentHash => side.getElem?_eq id

/-- The full path after the full path. -/
theorem FullyRebuilt.again {newTip lastTip : Block} {twice : LevelDb}
    (first : FullyRebuilt env db newTip after) (second : FullyRebuilt env after lastTip twice)
    (chain : bestValidChain env after = bestValidChain env db) (tips : lastTip = newTip) :
    SameIndex env after twice := by
  subst tips
  have index : ∀ key : StoreKey, key.IsIndex →
      (eraseNextLinks after)[key.text]? = (eraseNextLinks db)[key.text]? ∨
        (eraseNextLinks after)[key.text]? = after[key.text]? → twice[key.text]? = after[key.text]? := by
    intro key index erased
    rw [second.index key index, chain]
    cases erased with
    | inl same =>
        rw [first.index key index]
        exact LevelDb.putAll_congr _ same
    | inr same =>
        rw [first.index key index] at same ⊢
        rw [LevelDb.putAll_congr _ same]
        exact LevelDb.putAll_again _ key
  constructor
  · exact second.latest.trans first.latest.symm
  · exact second.hash.trans first.hash.symm
  · exact fun number => index _ (.inl ⟨number, rfl⟩) (.inr (getElem?_eraseNextLinks rfl))
  · intro parentHash
    apply index _ (.inr ⟨parentHash, rfl⟩)
    rw [getElem?_next_eraseNextLinks, getElem?_next_eraseNextLinks]
    exact .inl rfl

/-! ### The second rebuild -/

theorem rebuild_first_positive {now : Int} (positive : 0 < (rebuildBestChainIndex env now db).1) :
    0 ≤ getFirstBlockId db := by
  unfold rebuildBestChainIndex at positive
  split at positive
  · cases positive
  · rename_i started
    exact not_lt.mp started

theorem rebuild_fast {now tip : Int} (first : 0 ≤ getFirstBlockId db) {after : LevelDb}
    (fast : tryValidatedCheckpointFastPath env db = (some tip, after)) :
    rebuildBestChainIndex env now db = (tip, after) := by
  rw [rebuildBestChainIndex, if_neg (not_lt.mpr first), fast]

/-- A shortcut returns the latest number and keeps the index. -/
theorem rebuild_of_fast (indexed : Indexed env db) {now tip : Int} (first : 0 ≤ getFirstBlockId db)
    (fast : (tryValidatedCheckpointFastPath env db).1 = some tip) :
    (rebuildBestChainIndex env now db).1 = tip ∧
      SameIndex env db (rebuildBestChainIndex env now db).2 := by
  obtain ⟨checkpoint, current, shortcut⟩ := exists_shortcut indexed fast
  rw [rebuild_fast first (shortcut.fastPath_eq indexed)]
  exact ⟨rfl, .of_mark (mark_afterShortcut env db current)⟩

/-- A rebuild right after a successful one returns its tip and leaves the index. -/
theorem rebuild_again (indexed : Indexed env db) (forks : ForksCounted env db) (now later : Int)
    (positive : 0 < (rebuildBestChainIndex env now db).1) :
    (rebuildBestChainIndex env later (rebuildBestChainIndex env now db).2).1 =
        (rebuildBestChainIndex env now db).1 ∧
      SameIndex env (rebuildBestChainIndex env now db).2
        (rebuildBestChainIndex env later (rebuildBestChainIndex env now db).2).2 := by
  have first := rebuild_first_positive positive
  have indexedAfter := indexed.rebuildBestChainIndex now
  have rewritten := rewritten_rebuildBestChainIndex indexed.sound now
  have firstAfter : 0 ≤ getFirstBlockId (rebuildBestChainIndex env now db).2 :=
    rewritten.first ▸ first
  cases fast : (tryValidatedCheckpointFastPath env db).1 with
  | some tip =>
      obtain ⟨checkpoint, current, shortcut⟩ := exists_shortcut indexed fast
      have once := @rebuild_fast _ _ now _ first _ (shortcut.fastPath_eq indexed)
      rw [once] at indexedAfter firstAfter ⊢
      obtain ⟨next, again⟩ := shortcut.again indexed forks
      apply rebuild_of_fast indexedAfter firstAfter
      rw [again.fastPath_eq indexedAfter]
  | none =>
      obtain ⟨newTip, last, returned, rebuilt⟩ := fullyRebuilt indexed.sound now fast positive
      generalize (rebuildBestChainIndex env now db).2 = after at *
      rw [returned] at positive ⊢
      cases fastAfter : (tryValidatedCheckpointFastPath env after).1 with
      | some tip =>
          have same : tip = newTip.number := (fastPath_tip fastAfter).1.symm.trans rebuilt.latest
          rw [← same]
          exact rebuild_of_fast indexedAfter firstAfter fastAfter
      | none =>
          have present : bestValidChain env db ≠ [] := by
            intro empty
            rw [empty] at last
            cases last
          obtain ⟨genesis, rooted⟩ := indexed.sound.exists_storedGenesis present
          have chain : bestValidChain env db = bestValidChain env after := by
            apply bestValidChain_same _ rewritten.first.symm rooted
            intro block
            rw [indexed.sound.mem_getStoredBlocks, rewritten.sound.mem_getStoredBlocks,
              holds_of_rewritten rewritten]
          obtain ⟨lastTip, lastAfter, returnedAfter, rebuiltAfter⟩ := fullyRebuilt rewritten.sound
            later fastAfter (rebuild_positive later firstAfter fastAfter (chain ▸ present))
          have tips : lastTip = newTip := by
            rw [← chain, last] at lastAfter
            exact (Option.some.inj lastAfter).symm
          rw [returnedAfter, tips]
          exact ⟨rfl, rebuilt.again rebuiltAfter chain.symm tips⟩

/-- On every database that a run reaches, a rebuild is idempotent. -/
theorem rebuild_idempotent (env : Env) (steps : List ChainStep)
    (reads : ∀ step ∈ steps, step.Adds (RoundTrips env)) (now later : Int)
    (positive : 0 < (rebuildBestChainIndex env now (runSteps env .empty steps).db).1) :
    (rebuildBestChainIndex env later
          (rebuildBestChainIndex env now (runSteps env .empty steps).db).2).1 =
        (rebuildBestChainIndex env now (runSteps env .empty steps).db).1 ∧
      SameIndex env (rebuildBestChainIndex env now (runSteps env .empty steps).db).2
        (rebuildBestChainIndex env later
          (rebuildBestChainIndex env now (runSteps env .empty steps).db).2).2 :=
  rebuild_again (reached_of_run reads).toIndexed (forksCounted_of_run reads) now later positive

namespace Sample

theorem rebuild_idempotent_of_forkSteps :
    0 < (rebuildBestChainIndex Sample.env 0 (runSteps Sample.env .empty forkSteps).db).1 ∧
      (rebuildBestChainIndex Sample.env 1
          (rebuildBestChainIndex Sample.env 0 (runSteps Sample.env .empty forkSteps).db).2).1 =
        (rebuildBestChainIndex Sample.env 0 (runSteps Sample.env .empty forkSteps).db).1 := by
  have positive : 0 < (rebuildBestChainIndex Sample.env 0
      (runSteps Sample.env .empty forkSteps).db).1 := by
    rw [run_forkSteps]
    exact forked_positive
  exact ⟨positive, (rebuild_idempotent Sample.env forkSteps reads_forkSteps 0 1 positive).1⟩

end Sample

end Safire
