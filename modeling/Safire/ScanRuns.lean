/-
Scans of the chain one after the other, beside the ledger.

Every scan adds the coins that a chain moves to the stored balances once more. So
the stored balances stay what they are, and are the ledger's, in the runs whose
chains move no coin; and where keys and amounts read back as they are printed, in
no others.
-/

import Safire.ScanChain

namespace Safire

open ChainValidator (BranchState Entry chainEntries Accepts accepts_iff connectChain_prefix Connected
  recordHashes entry_connected)
open LedgerState (Query build cacheAfter deltaSum openedBy)
open Text (ofLong)

variable {env : Env} {db : LevelDb} {chain : List Block}

/-! ### The ledger -/

/-- What the ledger adds to a balance in the blocks that its walk visits. -/
def ledgerSum (env : Env) (db : LevelDb) (chain : List Block) (key : Text) : Rat :=
  deltaSum key (chainEntries (chain.take walkGuard)) +
    carryForwardReward * openedBy (LedgerState.carryForwardSnapshotMatches env db) key
      (chainEntries (chain.take walkGuard))

theorem build_balance (accepted : Accepts env chain) (canonical : CanonicalChain env db chain)
    (queries : List Query) (now : Int) (wallet key : Text) :
    (build env db (cacheAfter env db queries) now wallet (-1)).1.balances.getD key 0 =
      if key = [] then 0 else ledgerSum env db chain key := by
  obtain ⟨-, state, connected⟩ := accepts_iff.mp accepted
  rw [← List.take_append_drop walkGuard chain] at connected
  obtain ⟨reached, visited⟩ := connectChain_prefix connected
  rw [LedgerState.build_of_canonical canonical]
  change (LedgerState.finish (LedgerState.walkedProgress env db wallet (-1)
    (chain.take walkGuard)) wallet now).balances.getD key 0 = _
  rw [(LedgerState.finish_amounts _ wallet now).1]
  split
  · rename_i empty
    rw [empty]
    exact (LedgerState.amountsRelated_of_connected visited _ wallet _ _).emptyKey.1
  · rename_i present
    exact LedgerState.balancesSummed_of_connected visited _ wallet _ _ key present

/-! ### Every run -/

/-- A chain that moves no coin: its links end with it, no record of it adds to a
stored user, and in the ledger the fees of its votes cancel in every account. -/
structure QuietChain (env : Env) (db : LevelDb) (chain : List Block) : Prop where
  ends : LinksEnd env db chain
  records : ∀ entry ∈ chainEntries chain, QuietRecord env db entry.1 entry.2
  level : ∀ key, key ≠ [] → ledgerSum env db chain key = 0

/-- The contents of the user database that scans leave, from an empty one on, when
each of them meets a chain of this kind. -/
inductive ScanContent (env : Env) (meets : LevelDb → List Block → Prop) : UserDb → Prop
  | empty : ScanContent env meets ∅
  | scan {node after : ScanNode} {chain : List Block} {rounds : Nat} {now : Int}
      {myPublicKey : Text} (content : ScanContent env meets node.userDb)
      (accepted : Accepts env chain) (canonical : CanonicalChain env node.db chain)
      (met : meets node.db chain)
      (returned : Functions.scanChain env rounds now myPublicKey node = some after) :
      ScanContent env meets after.userDb

def storedBalance (env : Env) (users : UserDb) (key : Text) : Rat :=
  (getUser env users key).balance

/-- The scan returns, a second one leaves the user database as it is, and every
stored balance is the one of the ledger. -/
def ScanSettles (env : Env) (node : ScanNode) : Prop :=
  ∃ bound, ∀ rounds now myPublicKey, bound ≤ rounds → ∃ once,
    Functions.scanChain env rounds now myPublicKey node = some once ∧
      (∀ later walletKey, ∃ twice, Functions.scanChain env rounds later walletKey once = some twice ∧
        twice.userDb = once.userDb) ∧
      ∀ key queries later walletKey, storedBalance env once.userDb key =
        (build env once.db (cacheAfter env once.db queries) later walletKey (-1)).1.balances.getD
          key 0

theorem userDb_finishScan {node : ScanNode} (now : Int) (myPublicKey : Text) :
    (finishScan env now myPublicKey node chain).userDb =
      (chain.foldl (scanBlock env node.db) (.start node.userDb)).userDb := rfl

theorem unfunded_empty : Unfunded env ∅ := by
  intro key text found
  rw [Std.ExtTreeMap.getElem?_empty] at found
  cases found

/-- The result does not depend on the rounds that are left over. -/
theorem scannedBlocks_add {rounds : Nat} {block : Block} {visited : List Block}
    (returned : scannedBlocks env db rounds block = some visited) (extra : Nat) :
    scannedBlocks env db (rounds + extra) block = some visited := by
  induction rounds generalizing block visited with
  | zero => cases returned
  | succ rounds ih =>
      rw [Nat.add_right_comm, scannedBlocks]
      rw [scannedBlocks] at returned
      dsimp only at returned ⊢
      split
      · rename_i missing
        rwa [if_pos missing] at returned
      · rename_i found
        rw [if_neg found] at returned
        split
        · rename_i same
          rwa [if_pos same] at returned
        · rename_i fresh
          rw [if_neg fresh, Option.map_eq_some_iff] at returned
          obtain ⟨later, rest, whole⟩ := returned
          rw [ih rest, Option.map_some, whole]

/-- A scan of a canonical chain whose links end visits that chain. -/
theorem eq_finishScan {node after : ScanNode} (canonical : CanonicalChain env node.db chain)
    (ends : LinksEnd env node.db chain) {rounds : Nat} {now : Int} {myPublicKey : Text}
    (returned : Functions.scanChain env rounds now myPublicKey node = some after) :
    after = finishScan env now myPublicKey node chain := by
  have whole := scanChain_of_canonical canonical ends (Nat.le_add_left (chain.length + 1) rounds)
    now myPublicKey
  rw [Functions.scanChain] at whole returned
  split at returned
  · rename_i missing
    rw [if_pos missing] at whole
    exact Option.some.inj (returned.symm.trans whole)
  · rename_i present
    rw [if_neg present] at whole
    rw [Option.map_eq_some_iff] at returned
    obtain ⟨visited, walked, result⟩ := returned
    rw [scannedBlocks_add walked, Option.map_some, result] at whole
    exact Option.some.inj whole

theorem ScanContent.unfunded (prints : Prints env 0) {users : UserDb}
    (content : ScanContent env (QuietChain env) users) : Unfunded env users := by
  induction content with
  | empty => exact unfunded_empty
  | scan content accepted canonical quiet returned ih =>
      rw [eq_finishScan canonical quiet.ends returned]
      exact (scan_again prints canonical.present quiet.records ih).1

/-! ### Coins that a scan stores -/

/-- Every stored user reads back. -/
def Represented (env : Env) (users : UserDb) : Prop :=
  ∀ key text, users[userKey key]? = some text →
    isPlain key = true ∧ ∃ balance, text = userJSON env (.account key balance)

theorem Unfunded.storedBalance {users : UserDb} (unfunded : Unfunded env users)
    (prints : Prints env 0) (key : Text) : storedBalance env users key = 0 := by
  rw [Safire.storedBalance]
  cases unfunded.getUser prints key with
  | inl fresh =>
      rw [fresh]
      rfl
  | inr stored =>
      rw [stored]
      rfl

theorem Unfunded.represented {users : UserDb} (unfunded : Unfunded env users) :
    Represented env users := by
  intro key text found
  obtain ⟨plain, same⟩ := unfunded key text found
  exact ⟨plain, 0, same⟩

section Represented

variable {users other : UserDb} {key : Text} (prints : ∀ amount, Prints env amount)

include prints in
theorem Represented.getUser (represented : Represented env users) (key : Text) :
    getUser env users key = .fresh ∧ storedBalance env users key = 0 ∨
      getUser env users key = .account key (storedBalance env users key) := by
  cases found : users[userKey key]? with
  | none =>
      have fresh := @getUser_of_absent env users key found
      exact .inl ⟨fresh, by rw [storedBalance, fresh]; rfl⟩
  | some text =>
      obtain ⟨plain, balance, same⟩ := represented key text found
      rw [same] at found
      have stored := getUser_of_stored found plain (prints balance)
      right
      rw [storedBalance, stored]
      rfl

include prints in
theorem Represented.credited (represented : Represented env users) (plain : isPlain key = true)
    (amount : Rat) :
    Represented env (creditUser env users key amount) ∧
      ∀ other, storedBalance env (creditUser env users key amount) other =
        storedBalance env users other + if key = other then amount else 0 := by
  have written := creditUser_eq (represented.getUser prints key) amount
  have after : Represented env (creditUser env users key amount) := by
    intro other text found
    rw [written, getElem?_setUser_user] at found
    by_cases same : (User.account key (storedBalance env users key + amount)).publicKey = other
    · rw [if_pos same] at found
      have named : key = other := same
      rw [← named]
      exact ⟨plain, _, (Option.some.inj found).symm⟩
    · rw [if_neg same] at found
      exact represented other text found
  refine ⟨after, fun other => ?_⟩
  by_cases same : key = other
  · rw [if_pos same, ← same]
    have listed : (creditUser env users key amount)[userKey key]? =
        some (userJSON env (.account key (storedBalance env users key + amount))) := by
      rw [written, getElem?_setUser_user]
      exact if_pos rfl
    rw [storedBalance, getUser_of_stored listed plain (prints _)]
    rfl
  · have apart : (creditUser env users key amount)[userKey other]? = users[userKey other]? := by
      rw [written, getElem?_setUser_user]
      exact if_neg same
    rw [if_neg same, add_zero, storedBalance, storedBalance, Safire.getUser, Safire.getUser,
      Std.ExtTreeMap.getD_eq_getD_getElem?, Std.ExtTreeMap.getD_eq_getD_getElem?, apart]

end Represented

/-- The keys that a record credits are plain, and it credits no debt. -/
structure PlainRecord (record : Record) : Prop where
  received : record.transactionType = .transferCurrency ∨ record.transactionType = .issueCurrency →
    isPlain record.recipientPublicKey = true ∧ 0 ≤ scannedAmount record
  rewarded : record.transactionType = .carryForward → isPlain record.senderPublicKey = true

/-- A part of the scan that takes no coin from a stored user. -/
structure Enriches (env : Env) (part : ScanProgress → ScanProgress) : Prop where
  represented : ∀ progress, Represented env progress.userDb → Represented env (part progress).userDb
  grows : ∀ progress key, Represented env progress.userDb →
    storedBalance env progress.userDb key ≤ storedBalance env (part progress).userDb key

theorem Enriches.id : Enriches env (fun progress => progress) where
  represented := fun _ represented => represented
  grows := fun _ _ _ => le_rfl

theorem Enriches.comp {first second : ScanProgress → ScanProgress} (before : Enriches env first)
    (after : Enriches env second) : Enriches env (fun progress => second (first progress)) where
  represented := fun progress represented => after.represented _ (before.represented progress represented)
  grows := by
    intro progress key represented
    have later := after.grows (first progress) key (before.represented progress represented)
    exact (before.grows progress key represented).trans later

section Records

variable {block : Block} {record : Record} (prints : ∀ amount, Prints env amount)

theorem kind_of_basic {number : Int} (basic : isBasicCarryForwardRecord record number = true) :
    record.transactionType = .carryForward := by
  by_contra other
  rw [isBasicCarryForwardRecord, if_pos other] at basic
  cases basic

include prints in
theorem enriches_scanCarryForward (plain : PlainRecord record) :
    Enriches env (fun progress => scanCarryForward env db block progress record) where
  represented := by
    intro progress represented
    rw [scanCarryForward]
    split
    · rename_i counted
      rw [Bool.and_eq_true] at counted
      dsimp only
      split
      · exact (represented.credited prints (plain.rewarded (kind_of_basic counted.1)) _).1
      · exact represented
    · exact represented
  grows := by
    intro progress key represented
    rw [scanCarryForward]
    split
    · rename_i counted
      rw [Bool.and_eq_true] at counted
      dsimp only
      split
      · dsimp only
        rw [(represented.credited prints (plain.rewarded (kind_of_basic counted.1)) _).2]
        split
        · exact le_add_of_nonneg_right (by decide)
        · rw [add_zero]
      · exact le_rfl
    · exact le_rfl

include prints in
theorem enriches_scanAmounts (plain : PlainRecord record) :
    Enriches env (fun progress => scanAmounts env block progress record) where
  represented := by
    intro progress represented
    rw [scanAmounts]
    dsimp only
    split
    · rename_i moved
      exact (represented.credited prints (plain.received moved).1 _).1
    · exact represented
  grows := by
    intro progress key represented
    rw [scanAmounts]
    dsimp only
    split
    · rename_i moved
      rw [(represented.credited prints (plain.received moved).1 _).2]
      split
      · exact le_add_of_nonneg_right (plain.received moved).2
      · rw [add_zero]
    · exact le_rfl

include prints in
theorem enriches_scanRecord (plain : PlainRecord record) :
    Enriches env (fun progress => scanRecord env db block progress record) := by
  have rewarded := @enriches_scanCarryForward env db block record prints plain
  have whole := rewarded.comp (@enriches_scanAmounts env block record prints plain)
  constructor
  · intro progress represented
    rw [scanRecord]
    split
    · exact represented
    · exact whole.represented { progress with acceptedRecordHashes := _ } represented
  · intro progress key represented
    rw [scanRecord]
    split
    · exact le_rfl
    · exact whole.grows { progress with acceptedRecordHashes := _ } key represented

end Records

/-! ### The records of a chain in one list -/

def scanEntries (env : Env) (db : LevelDb) (progress : ScanProgress) (entries : List Entry) :
    ScanProgress :=
  entries.foldl (fun progress entry => scanRecord env db entry.1 progress entry.2) progress

/-- The scanned number aside, two scans stand at the same place. -/
structure SameScan (left right : ScanProgress) : Prop where
  hashes : left.acceptedRecordHashes = right.acceptedRecordHashes
  keys : left.acceptedCarryForwardKeys = right.acceptedCarryForwardKeys
  users : SameUsers left.userDb right.userDb

theorem userCountKey_ne_scannedBlockKey : userCountKey ≠ scannedBlockKey := by
  decide

theorem SameUsers.getUser {users other : UserDb} (same : SameUsers users other) (key : Text) :
    getUser env users key = getUser env other key := by
  rw [Safire.getUser, Safire.getUser, Std.ExtTreeMap.getD_eq_getD_getElem?,
    Std.ExtTreeMap.getD_eq_getD_getElem?, same _ (scannedBlockKey_ne key).symm]

theorem SameUsers.insert {users other : UserDb} (same : SameUsers users other) (text value : Text) :
    SameUsers (users.insert text value) (other.insert text value) := by
  intro place apart
  rw [getElem?_insertText, getElem?_insertText, same place apart]

theorem SameUsers.setUser {users other : UserDb} (same : SameUsers users other) (user : User) :
    SameUsers (setUser env users user) (setUser env other user) := by
  have stored : users.getD (userKey user.publicKey) [] = other.getD (userKey user.publicKey) [] := by
    rw [Std.ExtTreeMap.getD_eq_getD_getElem?, Std.ExtTreeMap.getD_eq_getD_getElem?,
      same _ (scannedBlockKey_ne _).symm]
  have count : getUserCount users = getUserCount other := by
    rw [getUserCount, getUserCount, Std.ExtTreeMap.getD_eq_getD_getElem?,
      Std.ExtTreeMap.getD_eq_getD_getElem?, same _ userCountKey_ne_scannedBlockKey]
  rw [Safire.setUser, Safire.setUser, stored, count]
  apply SameUsers.insert
  split
  · exact same.insert _ _
  · exact same

theorem SameUsers.creditUser {users other : UserDb} (same : SameUsers users other) (key : Text)
    (amount : Rat) : SameUsers (creditUser env users key amount) (creditUser env other key amount) := by
  rw [Safire.creditUser, Safire.creditUser, same.getUser key]
  exact same.setUser _

theorem SameScan.scanRecord {left right : ScanProgress} (same : SameScan left right) (block : Block)
    (record : Record) :
    SameScan (scanRecord env db block left record) (scanRecord env db block right record) := by
  rw [Safire.scanRecord, Safire.scanRecord, same.hashes]
  split
  · exact same
  · have rewarded : ∀ hashes, SameScan
        (scanCarryForward env db block { left with acceptedRecordHashes := hashes } record)
        (scanCarryForward env db block { right with acceptedRecordHashes := hashes } record) := by
      intro hashes
      rw [scanCarryForward, scanCarryForward, same.keys]
      split
      · dsimp only
        split
        · exact ⟨rfl, rfl, same.users.creditUser _ _⟩
        · exact ⟨rfl, rfl, same.users⟩
      · exact ⟨rfl, rfl, same.users⟩
    have marked := rewarded (if 0 < record.hash.length then
      right.acceptedRecordHashes.insert record.hash else right.acceptedRecordHashes)
    refine ⟨marked.hashes, marked.keys, ?_⟩
    rw [scanAmounts, scanAmounts]
    dsimp only
    split
    · exact marked.users.creditUser _ _
    · exact marked.users

theorem sameScan_records {left right : ScanProgress} (same : SameScan left right) (block : Block)
    (records : List Record) :
    SameScan (records.foldl (scanRecord env db block) left)
      (scanEntries env db right (records.map (Prod.mk block))) := by
  induction records generalizing left right with
  | nil => exact same
  | cons record rest ih => exact ih (same.scanRecord block record)

theorem sameScan_blocks {left right : ScanProgress} (same : SameScan left right)
    (chain : List Block) :
    SameScan (chain.foldl (scanBlock env db) left) (scanEntries env db right (chainEntries chain)) := by
  induction chain generalizing left right with
  | nil => exact same
  | cons block rest ih =>
      have records := @sameScan_records env db left right same block block.records
      have closed : SameScan (scanBlock env db left block)
          (scanEntries env db right (block.records.map (Prod.mk block))) := by
        refine ⟨records.hashes, records.keys, fun text apart => ?_⟩
        rw [scanBlock, closeBlock, setScannedBlockId, getElem?_insertText, if_neg apart.symm]
        exact records.users text apart
      have entries : chainEntries (block :: rest) =
          block.records.map (Prod.mk block) ++ chainEntries rest := List.flatMap_cons
      rw [entries, scanEntries, List.foldl_append]
      exact ih closed

theorem QuietRecord.keys {block : Block} {record : Record} (quiet : QuietRecord env db block record)
    (progress : ScanProgress) :
    (scanRecord env db block progress record).acceptedCarryForwardKeys =
      progress.acceptedCarryForwardKeys := by
  rw [scanRecord]
  split
  · rfl
  · dsimp only
    rw [quiet.scanCarryForward]
    rfl

/-- Quiet records open no period, and only their hashes are met. -/
theorem scanEntries_quiet {entries : List Entry}
    (quiet : ∀ entry ∈ entries, QuietRecord env db entry.1 entry.2) (users : UserDb) :
    (scanEntries env db (.start users) entries).acceptedCarryForwardKeys = ∅ ∧
      ∀ hash ∈ (scanEntries env db (.start users) entries).acceptedRecordHashes,
        hash ∈ recordHashes entries := by
  induction entries using List.reverseRecOn with
  | nil => exact ⟨rfl, fun hash member => absurd member Std.ExtTreeSet.not_mem_empty⟩
  | append_singleton earlier last ih =>
      obtain ⟨keys, hashes⟩ := ih fun entry member => quiet entry (List.mem_append_left _ member)
      have own := quiet last (List.mem_append_right _ (List.mem_singleton_self last))
      rw [scanEntries, List.foldl_append]
      rw [scanEntries] at keys hashes
      refine ⟨(own.keys _).trans keys, fun hash member => ?_⟩
      rw [List.foldl_cons, List.foldl_nil, own.hashes] at member
      rw [recordHashes, List.map_append, List.mem_append]
      split at member
      · rw [Std.ExtTreeSet.mem_insert] at member
        cases member with
        | inl same =>
            right
            rw [← Std.LawfulEqCmp.eq_of_compare same]
            exact List.mem_singleton_self _
        | inr old => exact .inl (hashes hash old)
      · exact .inl (hashes hash member)

/-! ### Records that are not quiet -/

theorem amount_of_connected {block : Block} {isGenesis : Bool} {state next : BranchState}
    {record : Record} (connected : Connected env block isGenesis state record next) :
    (record.transactionType = .transferCurrency → 0 < record.amount) ∧
      (record.transactionType = .issueCurrency → 0 ≤ record.amount ∧ record.amount ≤ 1) := by
  cases connected.applied with
  | transfer kind positive =>
      exact ⟨fun _ => positive, fun other => absurd (kind.symm.trans other) (by decide)⟩
  | issue kind lower upper =>
      exact ⟨fun other => absurd (kind.symm.trans other) (by decide), fun _ => ⟨lower, upper⟩⟩
  | vote kind | join kind | joinNamed kind | rename kind | heartBeat kind | strayHeartBeat kind
  | carryForward kind | carryForwardAgain kind =>
      exact ⟨fun other => absurd (kind.symm.trans other) (by decide),
        fun other => absurd (kind.symm.trans other) (by decide)⟩

theorem scannedAmount_of_connected {block : Block} {isGenesis : Bool} {state next : BranchState}
    {record : Record} (connected : Connected env block isGenesis state record next)
    (moved : record.transactionType = .transferCurrency ∨ record.transactionType = .issueCurrency) :
    scannedAmount record = record.amount ∧ 0 ≤ record.amount := by
  obtain ⟨transfer, issue⟩ := amount_of_connected connected
  have bounded : ¬ (record.transactionType = .issueCurrency ∧
      (1 < record.amount ∨ record.amount < 0)) := by
    rintro ⟨issued, above | below⟩
    · exact absurd above (not_lt.mpr (issue issued).2)
    · exact absurd below (not_lt.mpr (issue issued).1)
  rw [scannedAmount, if_neg bounded]
  cases moved with
  | inl transferred => exact ⟨rfl, (transfer transferred).le⟩
  | inr issued => exact ⟨rfl, (issue issued).1⟩

/-- The keys that a scan of the chain credits have no quotes and no braces. -/
def PlainKeys (chain : List Block) : Prop :=
  ∀ entry ∈ chainEntries chain,
    (entry.2.transactionType = .transferCurrency ∨ entry.2.transactionType = .issueCurrency →
      isPlain entry.2.recipientPublicKey = true) ∧
    (entry.2.transactionType = .carryForward → isPlain entry.2.senderPublicKey = true)

theorem PlainKeys.plainRecord {state : BranchState} (plain : PlainKeys chain)
    (connected : ChainValidator.connectChain env chain = .ok state) {entry : Entry}
    (member : entry ∈ chainEntries chain) : PlainRecord entry.2 where
  received := by
    intro moved
    obtain ⟨_, _, _, own⟩ := entry_connected connected member
    obtain ⟨same, nonneg⟩ := scannedAmount_of_connected own moved
    exact ⟨(plain entry member).1 moved, same ▸ nonneg⟩
  rewarded := (plain entry member).2

theorem enriches_scanEntries (prints : ∀ amount, Prints env amount) {entries : List Entry}
    (plain : ∀ entry ∈ entries, PlainRecord entry.2) :
    Enriches env (fun progress => scanEntries env db progress entries) :=
  foldl_parts .id (fun _ _ before after => before.comp after) fun entry member =>
    enriches_scanRecord prints (plain entry member)

/-- A record that is met first, before any period is opened, funds someone unless it is quiet. -/
theorem funds_of_not_quiet (prints : ∀ amount, Prints env amount) {block : Block}
    {isGenesis : Bool} {state next : BranchState} {record : Record}
    (connected : Connected env block isGenesis state record next) (plain : PlainRecord record)
    (loud : ¬ QuietRecord env db block record) {progress : ScanProgress}
    (represented : Represented env progress.userDb) (unseen : record.hash ∉ progress.acceptedRecordHashes)
    (unopened : progress.acceptedCarryForwardKeys = ∅) :
    ∃ key, storedBalance env progress.userDb key <
      storedBalance env (scanRecord env db block progress record).userDb key := by
  have fresh : ¬ (0 < record.hash.length ∧ record.hash ∈ progress.acceptedRecordHashes) :=
    fun seen => unseen seen.2
  obtain ⟨transfer, issue⟩ := amount_of_connected connected
  by_cases moved : record.transactionType = .transferCurrency ∨
      record.transactionType = .issueCurrency
  · obtain ⟨same, nonneg⟩ := scannedAmount_of_connected connected moved
    have positive : 0 < scannedAmount record := by
      rw [same]
      cases moved with
      | inl transferred => exact transfer transferred
      | inr issued =>
          apply lt_of_le_of_ne nonneg
          intro zero
          apply loud
          refine ⟨fun other => absurd (issued.symm.trans other) (by decide),
            fun _ => ⟨zero.symm, (plain.received (.inr issued)).1⟩, fun basic => ?_⟩
          exact absurd (issued.symm.trans (kind_of_basic basic)) (by decide)
    have unrewarded : ∀ marked : ScanProgress, scanCarryForward env db block marked record = marked := by
      intro marked
      rw [scanCarryForward, if_neg]
      intro counted
      rw [Bool.and_eq_true] at counted
      have kind := kind_of_basic counted.1
      rw [kind] at moved
      exact absurd moved (by decide)
    refine ⟨record.recipientPublicKey, ?_⟩
    rw [scanRecord, if_neg fresh]
    dsimp only
    rw [unrewarded, scanAmounts]
    dsimp only
    rw [if_pos moved, (represented.credited prints (plain.received moved).1 _).2, if_pos rfl]
    exact lt_add_of_pos_right _ positive
  · have counted : (isBasicCarryForwardRecord record block.number &&
        CarryForward.carryForwardSnapshotMatches env db record) = true ∧
          carryForwardKey record ≠ [] := by
      by_contra uncounted
      apply loud
      refine ⟨fun other => moved (.inl other), fun other => absurd (.inr other) moved, ?_⟩
      intro basic matched
      by_contra keyed
      exact uncounted ⟨by rw [basic, matched]; rfl, keyed⟩
    have kind := kind_of_basic (Bool.and_eq_true_iff.mp counted.1).1
    have opens : 0 < (carryForwardKey record).length ∧
        carryForwardKey record ∉ progress.acceptedCarryForwardKeys := by
      rw [unopened]
      exact ⟨List.length_pos_iff.mpr counted.2, Std.ExtTreeSet.not_mem_empty⟩
    refine ⟨record.senderPublicKey, ?_⟩
    rw [scanRecord, if_neg fresh]
    dsimp only
    rw [scanCarryForward, if_pos counted.1]
    dsimp only
    rw [if_pos opens, scanAmounts]
    dsimp only
    rw [if_neg moved, (represented.credited prints (plain.rewarded kind) _).2, if_pos rfl]
    exact lt_add_of_pos_right _ (by decide)

theorem exists_first_of_not_forall {α : Type} {holds : α → Prop} {items : List α}
    (fails : ¬ ∀ item ∈ items, holds item) :
    ∃ done item rest, items = done ++ item :: rest ∧ (∀ earlier ∈ done, holds earlier) ∧
      ¬ holds item := by
  induction items with
  | nil => exact absurd (fun item member => absurd member List.not_mem_nil) fails
  | cons first rest ih =>
      by_cases here : holds first
      · have later : ¬ ∀ item ∈ rest, holds item := fun all => fails (List.forall_mem_cons.mpr ⟨here, all⟩)
        obtain ⟨done, item, after, split, before, loud⟩ := ih later
        exact ⟨first :: done, item, after, by rw [split]; rfl, List.forall_mem_cons.mpr ⟨here, before⟩,
          loud⟩
      · exact ⟨[], first, rest, rfl, fun earlier none => absurd none List.not_mem_nil, here⟩

theorem SameScan.refl (progress : ScanProgress) : SameScan progress progress :=
  ⟨rfl, rfl, fun _ _ => rfl⟩

/-- A scan that leaves the stored users alone met quiet records only. -/
theorem quiet_of_unchanged (prints : ∀ amount, Prints env amount) (accepted : Accepts env chain)
    (plain : PlainKeys chain) {users : UserDb} (represented : Represented env users)
    (unchanged : (chain.foldl (scanBlock env db) (.start users)).userDb = users) :
    ∀ entry ∈ chainEntries chain, QuietRecord env db entry.1 entry.2 := by
  obtain ⟨-, state, connected⟩ := accepts_iff.mp accepted
  by_contra failed
  obtain ⟨done, entry, rest, split, quiet, loud⟩ := exists_first_of_not_forall failed
  have listed : entry ∈ chainEntries chain := by
    rw [split]
    exact List.mem_append_right _ List.mem_cons_self
  have enriches : ∀ entries, (∀ entry ∈ entries, entry ∈ chainEntries chain) →
      Enriches env (fun progress => scanEntries env db progress entries) :=
    fun entries inside => enriches_scanEntries prints fun other member =>
      plain.plainRecord connected (inside other member)
  have before := enriches done fun other member => split ▸ List.mem_append_left _ member
  have after := enriches rest fun other member =>
    split ▸ List.mem_append_right _ (List.mem_cons_of_mem _ member)
  obtain ⟨unopened, met⟩ := scanEntries_quiet quiet users
  have reached := before.represented (.start users) represented
  have unseen : entry.2.hash ∉ (scanEntries env db (.start users) done).acceptedRecordHashes := by
    intro seen
    have distinct := LedgerState.distinct_of_connected connected
    rw [split, recordHashes, List.map_append, List.nodup_append] at distinct
    exact distinct.2.2 _ (met _ seen) _ List.mem_cons_self rfl
  obtain ⟨isGenesis, earlier, next, own⟩ := entry_connected connected listed
  have record := plain.plainRecord connected listed
  obtain ⟨key, more⟩ := funds_of_not_quiet prints own record loud reached unseen unopened
  have further := (@enriches_scanRecord env db entry.1 entry.2 prints record).represented _ reached
  have kept := before.grows (.start users) key represented
  have rising := after.grows _ key further
  -- the scan over the blocks ends with the users of the scan over the entries
  have same := @sameScan_blocks env db _ _ (SameScan.refl (.start users)) chain
  have whole := @SameUsers.getUser env _ _ same.users key
  rw [split, scanEntries, List.foldl_append, List.foldl_cons, unchanged] at whole
  have equal : storedBalance env users key = storedBalance env (scanEntries env db
      (scanRecord env db entry.1 (scanEntries env db (.start users) done) entry.2) rest).userDb key :=
    congrArg User.balance whole
  have less := (kept.trans_lt more).trans_le rising
  rw [← equal] at less
  exact absurd less (lt_irrefl _)

theorem represented_scan (prints : ∀ amount, Prints env amount) (accepted : Accepts env chain)
    (plain : PlainKeys chain) {users : UserDb} (represented : Represented env users) :
    Represented env (chain.foldl (scanBlock env db) (.start users)).userDb := by
  obtain ⟨-, state, connected⟩ := accepts_iff.mp accepted
  have enriches := @enriches_scanEntries env db prints (chainEntries chain) fun entry member =>
    plain.plainRecord connected member
  have same := (@sameScan_blocks env db _ _ (SameScan.refl (.start users)) chain).users
  intro key text found
  rw [same _ (scannedBlockKey_ne key).symm] at found
  exact enriches.represented (.start users) represented key text found

theorem settles_of_quiet (prints : Prints env 0) {node : ScanNode}
    (unfunded : Unfunded env node.userDb) (accepted : Accepts env chain)
    (canonical : CanonicalChain env node.db chain) (quiet : QuietChain env node.db chain) :
    ScanSettles env node := by
  refine ⟨chain.length + 1, fun rounds now myPublicKey enough => ?_⟩
  have again := scan_again prints canonical.present quiet.records unfunded
  have unmoved := finishScan_db canonical now myPublicKey
  refine ⟨finishScan env now myPublicKey node chain,
    scanChain_of_canonical canonical quiet.ends enough now myPublicKey, ?_, ?_⟩
  · intro later walletKey
    refine ⟨finishScan env later walletKey (finishScan env now myPublicKey node chain) chain,
      scanChain_of_canonical (unmoved.symm ▸ canonical) (unmoved.symm ▸ quiet.ends) enough later
        walletKey, ?_⟩
    rw [userDb_finishScan, unmoved, userDb_finishScan]
    exact again.2
  · intro key queries later walletKey
    rw [unmoved, build_balance accepted canonical, userDb_finishScan]
    have level : (if key = [] then 0 else ledgerSum env node.db chain key) = 0 := by
      split
      · rfl
      · rename_i present
        exact quiet.level key present
    rw [level]
    exact again.1.storedBalance prints key

/-- If the keys and the amounts read back, only quiet chains settle. -/
theorem quiet_of_settles (prints : ∀ amount, Prints env amount) {node : ScanNode}
    (unfunded : Unfunded env node.userDb) (accepted : Accepts env chain)
    (canonical : CanonicalChain env node.db chain) (plain : PlainKeys chain)
    (ends : LinksEnd env node.db chain) (settles : ScanSettles env node) :
    QuietChain env node.db chain := by
  obtain ⟨bound, settled⟩ := settles
  obtain ⟨once, returned, again, balances⟩ := settled (max bound (chain.length + 1)) 0 [] (le_max_left _ _)
  have unmoved := finishScan_db canonical 0 []
  obtain rfl := eq_finishScan canonical ends returned
  obtain ⟨twice, repeated, unchanged⟩ := again 0 []
  obtain rfl := eq_finishScan (unmoved.symm ▸ canonical) (unmoved.symm ▸ ends) repeated
  rw [userDb_finishScan, unmoved] at unchanged
  have represented := @represented_scan env node.db chain prints accepted plain node.userDb
    unfunded.represented
  rw [← userDb_finishScan 0 []] at represented
  have quiet := quiet_of_unchanged prints accepted plain represented unchanged
  refine ⟨ends, quiet, fun key present => ?_⟩
  have level := balances key [] 0 []
  rw [unmoved, build_balance accepted canonical, if_neg present, userDb_finishScan] at level
  rw [← level]
  exact (scan_again (prints 0) canonical.present quiet unfunded).1.storedBalance (prints 0) key

/-- Where every chain scanned before was quiet, the next scan settles if its chain
is quiet, and only then if its links end with it and what it stores reads back. -/
theorem scanning_settles_iff (prints : Prints env 0) {node : ScanNode}
    (content : ScanContent env (QuietChain env) node.userDb) (accepted : Accepts env chain)
    (canonical : CanonicalChain env node.db chain) :
    (QuietChain env node.db chain → ScanSettles env node) ∧
      ((∀ amount, Prints env amount) → PlainKeys chain → LinksEnd env node.db chain →
        ScanSettles env node → QuietChain env node.db chain) := by
  have unfunded := content.unfunded prints
  constructor
  · exact settles_of_quiet prints unfunded accepted canonical
  · intro allPrints plain ends settles
    exact quiet_of_settles allPrints unfunded accepted canonical plain ends settles

namespace Sample

/-- The issue record of the genesis block for no coins. -/
def emptyIssue : Record :=
  record .issueCurrency "1" 0 0 sender sender ""
    (hexText 64 0xa50d68d1f4c4f61e64432d5746c811be64b4cf21ca07ce58ade1719af1a22a07)
    0x07fdc0beba60556974636c4fbbdcf3115c5735ea854368b8b7c8a1baefde01b67b91f419b61e9f5680873fe674dc58b0374f469fe3e01edada6bb5639dfcfbd4

def quietGenesis : Block :=
  block 100 "1" (-1) []
    (hexText 64 0x08e093c7150407c2f9970066680586fa074f93075d92994716a1d919d8e1f93f)
    (hexText 64 0xeb30cc75f3f155ac932841fc35453039af2314baead0876a42ec3135de7c21df)
    0x0c0066482b531ee00e5b1f5ebe10bc56e181038b42d0c44521e2abbebf2e6b3f5800ca8fff39cf90fa4066b02b56bb8be94c2590096b3a8eedd888c9dbb21e39
    [joinRecord, emptyIssue]

local instance quietSigned_lawfulBEq : LawfulBEq (Text × Text × Text) := inferInstance

/-- The digests and signatures of the block, which is the configured genesis block. -/
def quietEnv : Env :=
  { Sample.env with
    sha256 := fun content =>
      ([(recordContent emptyIssue "0", emptyIssue.hash),
        (joinRecord.hash ++ emptyIssue.hash, quietGenesis.recordsMerkleRoot),
        (blockContent quietGenesis, quietGenesis.hash)].lookup content).getD (Sample.env.sha256 content)
    verifyMessageCompressed := fun message signature publicKey =>
      if (message, signature, publicKey) ∈
          [(emptyIssue.hash, emptyIssue.signature, emptyIssue.senderPublicKey),
            (quietGenesis.hash, quietGenesis.signature, quietGenesis.creatorKey)] then 1
      else Sample.env.verifyMessageCompressed message signature publicKey
    config := { Sample.env.config with genesisHash := quietGenesis.hash } }

/-- A node that has not scanned its chain of one block. -/
def unscanned (env : Env) (genesis : Block) : ScanNode where
  db := canonicalStore env genesis []
  userDb := ∅
  cache := ∅
  users := []
  latestBlock := .missing
  ledger := none

theorem quiet_checks :
    Accepts quietEnv [quietGenesis] ∧
      (BlockReadable quietEnv quietGenesis ∧ RecordsFit quietEnv 2 quietGenesis.records) ∧
      (isPlain (quietEnv.doubleText 0) = true ∧ quietEnv.atof (quietEnv.doubleText 0) = 0) ∧
      (∀ entry ∈ chainEntries [quietGenesis],
        entry.2.transactionType ≠ .transferCurrency ∧ entry.2.transactionType ≠ .carryForward ∧
          (entry.2.transactionType = .issueCurrency →
            entry.2.amount = 0 ∧ isPlain entry.2.recipientPublicKey = true)) ∧
      (getNextBlock quietEnv (unscanned quietEnv quietGenesis).db quietGenesis).number ≤ 0 := by
  refine ⟨?_, ?_, ?_, ?_, ?_⟩ <;> decide +kernel

theorem accepts_quietGenesis : Accepts quietEnv [quietGenesis] :=
  quiet_checks.1

theorem quietGenesis_roundTrips : RoundTrips quietEnv quietGenesis :=
  roundTrips_of_fit quiet_checks.2.1.1 quiet_checks.2.1.2

theorem canonical_unscanned {env : Env} {genesis : Block} (accepted : Accepts env [genesis])
    (trips : RoundTrips env genesis) :
    CanonicalChain env (unscanned env genesis).db [genesis] := by
  have stored : StoredAs env (canonicalStore env genesis []) [genesis] := by
    apply storedAs_canonicalStore accepted ⟨by simp, by simp⟩ _ (by simp [walkGuard])
    intro block member
    rw [List.mem_singleton.mp member]
    exact trips
  exact stored.canonical (ascending_of_accepts accepted) (List.cons_ne_nil _ _)

theorem prints_zero : Prints quietEnv 0 where
  plain := quiet_checks.2.2.1.1
  read := quiet_checks.2.2.1.2

theorem quietGenesis_kinds : ∀ entry ∈ chainEntries [quietGenesis],
    entry.2.transactionType ≠ .transferCurrency ∧ entry.2.transactionType ≠ .carryForward ∧
      (entry.2.transactionType = .issueCurrency →
        entry.2.amount = 0 ∧ isPlain entry.2.recipientPublicKey = true) :=
  quiet_checks.2.2.2.1

theorem quietChain_unscanned :
    QuietChain quietEnv (unscanned quietEnv quietGenesis).db [quietGenesis] where
  ends := by
    intro tip last
    have same : quietGenesis = tip := Option.some.inj last
    rw [← same]
    exact .inl quiet_checks.2.2.2.2
  records := by
    intro entry member
    obtain ⟨unspent, other, unissued⟩ := quietGenesis_kinds entry member
    exact ⟨unspent, unissued, fun basic => absurd (kind_of_basic basic) other⟩
  level := by
    intro key _
    have whole : [quietGenesis].take walkGuard = [quietGenesis] :=
      List.take_of_length_le (by decide)
    have unopened : openedBy (LedgerState.carryForwardSnapshotMatches quietEnv
        (unscanned quietEnv quietGenesis).db) key (chainEntries [quietGenesis]) = 0 := by
      apply LedgerState.openedBy_of_unselected
      intro entry member kind
      exact absurd kind (quietGenesis_kinds entry member).2.1
    have issued : LedgerState.amountDelta quietGenesis emptyIssue key = 0 := by
      have nothing : LedgerState.issueAmount emptyIssue = 0 := by decide
      change (if emptyIssue.recipientPublicKey = key then LedgerState.issueAmount emptyIssue else 0) = 0
      rw [nothing, ite_self]
    have moved : deltaSum key (chainEntries [quietGenesis]) = 0 := by
      change (0 : Rat) + (LedgerState.amountDelta quietGenesis emptyIssue key + 0) = 0
      rw [issued, add_zero, add_zero]
    rw [ledgerSum, whole, unopened, moved, Nat.cast_zero, mul_zero, add_zero]

theorem quiet_scan_settles : ScanSettles quietEnv (unscanned quietEnv quietGenesis) :=
  (scanning_settles_iff prints_zero .empty accepts_quietGenesis
    (canonical_unscanned accepts_quietGenesis quietGenesis_roundTrips)).1 quietChain_unscanned

/-- The node that has scanned the genesis block once. -/
def scannedOnce : ScanNode :=
  finishScan Sample.env 101 [] (unscanned Sample.env genesis) [genesis]

def scannedTwice : ScanNode :=
  finishScan Sample.env 101 [] scannedOnce [genesis]

theorem canonical_genesis : CanonicalChain Sample.env (unscanned Sample.env genesis).db [genesis] :=
  canonical_unscanned accepts_genesis (roundTrips (List.mem_iff_getElem?.mpr ⟨0, rfl⟩))

theorem genesis_checks :
    (getNextBlock Sample.env (unscanned Sample.env genesis).db genesis).number ≤ 0 ∧
      storedBalance Sample.env scannedOnce.userDb sender = 1 ∧
      storedBalance Sample.env scannedTwice.userDb sender = 2 := by
  refine ⟨?_, ?_, ?_⟩ <;> decide +kernel

theorem linksEnd_genesis : LinksEnd Sample.env (unscanned Sample.env genesis).db [genesis] := by
  intro tip last
  have same : genesis = tip := Option.some.inj last
  rw [← same]
  exact .inl genesis_checks.1

theorem storedBalances_genesis : storedBalance Sample.env scannedOnce.userDb sender = 1 ∧
    storedBalance Sample.env scannedTwice.userDb sender = 2 :=
  genesis_checks.2

/-- The coin of the genesis block is stored twice after two scans, and is one in the ledger. -/
theorem genesis_scan_repeats :
    Accepts Sample.env [genesis] ∧
      CanonicalChain Sample.env (unscanned Sample.env genesis).db [genesis] ∧
      Functions.scanChain Sample.env 2 101 [] (unscanned Sample.env genesis) = some scannedOnce ∧
      Functions.scanChain Sample.env 2 101 [] scannedOnce = some scannedTwice ∧
      storedBalance Sample.env scannedOnce.userDb sender = 1 ∧
      storedBalance Sample.env scannedTwice.userDb sender = 2 ∧
      (build Sample.env scannedTwice.db (cacheAfter Sample.env scannedTwice.db []) 101 []
        (-1)).1.balances.getD sender 0 = 1 ∧
      ¬ ScanSettles Sample.env (unscanned Sample.env genesis) := by
  have unmoved : scannedOnce.db = (unscanned Sample.env genesis).db :=
    finishScan_db canonical_genesis 101 []
  have canonical : CanonicalChain Sample.env scannedOnce.db [genesis] := by
    rw [unmoved]
    exact canonical_genesis
  have ends : LinksEnd Sample.env scannedOnce.db [genesis] := by
    rw [unmoved]
    exact linksEnd_genesis
  have still : scannedTwice.db = scannedOnce.db := finishScan_db canonical 101 []
  refine ⟨accepts_genesis, canonical_genesis, ?_, ?_, storedBalances_genesis.1,
    storedBalances_genesis.2, ?_, ?_⟩
  · exact scanChain_of_canonical canonical_genesis linksEnd_genesis le_rfl 101 []
  · exact scanChain_of_canonical canonical ends le_rfl 101 []
  · have named : sender ≠ [] := by decide +kernel
    rw [still, build_balance accepts_genesis canonical, if_neg named, unmoved]
    decide +kernel
  · intro settles
    obtain ⟨bound, settled⟩ := settles
    obtain ⟨once, returned, again, -⟩ := settled (max bound 2) 101 [] (le_max_left _ _)
    obtain rfl := eq_finishScan canonical_genesis linksEnd_genesis returned
    obtain ⟨twice, repeated, unchanged⟩ := again 101 []
    obtain rfl := eq_finishScan canonical ends repeated
    have balances := storedBalances_genesis
    change scannedTwice.userDb = scannedOnce.userDb at unchanged
    rw [unchanged] at balances
    exact absurd (balances.1.symm.trans balances.2) (by decide)

end Sample

end Safire
