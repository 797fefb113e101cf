/-
`CFunctions::scanChain`: a walk over the stored chain that adds what it meets to
the stored users.

Received amounts and rewards go to the database, and payments and fees to a list
that the next scan clears. So a stored balance is kept by a second scan only
where the chain moves no coin.
-/

import Safire.CarryForward
import Safire.UserIndex

namespace Safire

open ChainValidator (chainEntries)
open Text (ofLong)
open LedgerState (Cache State build)

/-! ### The walk -/

/-- The blocks of the loop, unless the rounds end before it. A blank block takes
the place of a block with the number of the one before, and ends the loop. -/
def scannedBlocks (env : Env) (db : LevelDb) : Nat → Block → Option (List Block)
  | 0, _ => none
  | rounds + 1, block =>
      if block.number ≤ 0 then some []
      else
        let next := getNextBlock env db block
        if next.number = block.number then some [block]
        else (scannedBlocks env db rounds next).map (fun later => block :: later)

/-! ### The records -/

/-- What the loop keeps. The members and the wallet's own sums are left out: the
ledger's state replaces them at the end. -/
structure ScanProgress where
  users : List User
  userDb : UserDb
  acceptedRecordHashes : TextSet
  acceptedCarryForwardKeys : TextSet

/-- The search through the list and the `push_back` after it, which also runs when
the listed user has the empty key. -/
def adjustUser (users : List User) (publicKey fallback : Text) (amount : Rat) : List User :=
  let adjusted := fun user : User => { user with balance := user.balance + amount }
  match users.find? (fun user => user.publicKey = publicKey) with
  | none => users ++ [adjusted { User.fresh with publicKey := fallback }]
  | some listed =>
      let updated := updateFirst (fun user => user.publicKey) adjusted publicKey users
      if publicKey = [] then updated ++ [adjusted { adjusted listed with publicKey := fallback }]
      else updated

def scanCarryForward (env : Env) (db : LevelDb) (block : Block) (progress : ScanProgress)
    (record : Record) : ScanProgress :=
  if isBasicCarryForwardRecord record block.number &&
      CarryForward.carryForwardSnapshotMatches env db record then
    let key := carryForwardKey record
    if 0 < key.length ∧ key ∉ progress.acceptedCarryForwardKeys then
      { progress with
        acceptedCarryForwardKeys := progress.acceptedCarryForwardKeys.insert key
        userDb := creditUser env progress.userDb record.senderPublicKey carryForwardReward }
    else progress
  else progress

/-- The amount as it is after the check on issued coins. -/
def scannedAmount (record : Record) : Rat :=
  if record.transactionType = .issueCurrency ∧ (1 < record.amount ∨ record.amount < 0) then 1
  else record.amount

def scanAmounts (env : Env) (block : Block) (progress : ScanProgress) (record : Record) :
    ScanProgress :=
  let userDb :=
    if record.transactionType = .transferCurrency ∨ record.transactionType = .issueCurrency then
      creditUser env progress.userDb record.recipientPublicKey (scannedAmount record)
    else progress.userDb
  let sent :=
    if record.transactionType = .transferCurrency then
      adjustUser progress.users record.senderPublicKey record.senderPublicKey
        (-record.amount - record.fee)
    else progress.users
  let users :=
    if record.transactionType = .transferCurrency ∨ record.transactionType = .vote then
      adjustUser sent block.creatorKey record.senderPublicKey record.fee
    else sent
  { progress with userDb := userDb, users := users }

def scanRecord (env : Env) (db : LevelDb) (block : Block) (progress : ScanProgress)
    (record : Record) : ScanProgress :=
  if 0 < record.hash.length ∧ record.hash ∈ progress.acceptedRecordHashes then progress
  else
    let hashes := progress.acceptedRecordHashes
    let marked := { progress with
      acceptedRecordHashes :=
        if 0 < record.hash.length then hashes.insert record.hash else hashes }
    scanAmounts env block (scanCarryForward env db block marked record) record

def closeBlock (number : Int) (progress : ScanProgress) : ScanProgress :=
  { progress with userDb := setScannedBlockId progress.userDb number }

def scanBlock (env : Env) (db : LevelDb) (progress : ScanProgress) (block : Block) :
    ScanProgress :=
  closeBlock block.number (block.records.foldl (scanRecord env db block) progress)

/-! ### The scan -/

/-- The databases and the members of `CFunctions` that a scan leaves. `ledger` is
the state that they are copied from. -/
structure ScanNode where
  db : LevelDb
  userDb : UserDb
  cache : Cache
  users : List User
  latestBlock : Block
  ledger : Option State

def ScanProgress.start (userDb : UserDb) : ScanProgress where
  users := []
  userDb := userDb
  acceptedRecordHashes := ∅
  acceptedCarryForwardKeys := ∅

/-- What the scan does after the walk. -/
def finishScan (env : Env) (now : Int) (myPublicKey : Text) (node : ScanNode)
    (visited : List Block) : ScanNode :=
  let progress := visited.foldl (scanBlock env node.db) (.start node.userDb)
  let latestBlock := visited.getLast?.getD node.latestBlock
  let db :=
    if latestBlock.number ≠ getLatestBlockId node.db then
      setLatestBlockId env node.db latestBlock.number
    else node.db
  let built := build env db node.cache now myPublicKey (-1)
  { db := db
    userDb := progress.userDb
    cache := built.2
    users := progress.users
    latestBlock := built.1.latestBlock
    ledger := some built.1 }

/-- No result if the walk needs more rounds. `Safire.scanChain` is its part on the block
database, with the value of the blank block left open. -/
def Functions.scanChain (env : Env) (rounds : Nat) (now : Int) (myPublicKey : Text)
    (node : ScanNode) : Option ScanNode :=
  let firstBlockId := getFirstBlockId node.db
  if firstBlockId ≤ -1 then some { node with users := [], ledger := none }
  else
    (scannedBlocks env node.db rounds (getBlock env node.db firstBlockId)).map
      (finishScan env now myPublicKey node)

variable {env : Env} {db : LevelDb} {chain : List Block}

/-- The links end at the last block of the chain. -/
def LinksEnd (env : Env) (db : LevelDb) (chain : List Block) : Prop :=
  ∀ tip, chain.getLast? = some tip →
    (getNextBlock env db tip).number ≤ 0 ∨ (getNextBlock env db tip).number = tip.number

theorem scannedBlocks_of_links {block : Block} {rest : List Block}
    (ascending : Ascending (block :: rest))
    (next : ∀ before parent child after, block :: rest = before ++ parent :: child :: after →
      getNextBlock env db parent = child)
    (ends : LinksEnd env db (block :: rest)) (extra : Nat) :
    scannedBlocks env db ((block :: rest).length + 1 + extra) block = some (block :: rest) := by
  have positive : ¬ block.number ≤ 0 := by
    have above := ascending.positive block List.mem_cons_self
    omega
  induction rest generalizing block with
  | nil =>
      rw [List.length_singleton, Nat.add_right_comm 1 1, scannedBlocks, if_neg positive]
      dsimp only
      cases ends block rfl with
      | inl missing =>
          split
          · rfl
          · rw [Nat.add_comm 1 extra, scannedBlocks, if_pos missing]
            rfl
      | inr same => rw [if_pos same]
  | cons child rest ih =>
      have link : getNextBlock env db block = child := next [] block child rest rfl
      have above : block.number < child.number :=
        (List.pairwise_cons.mp ascending.sorted).1 child List.mem_cons_self
      have inner : Ascending (child :: rest) :=
        ⟨fun other member => ascending.positive other (List.mem_cons_of_mem _ member),
          (List.pairwise_cons.mp ascending.sorted).2⟩
      have later : scannedBlocks env db ((child :: rest).length + 1 + extra) child =
          some (child :: rest) := by
        apply ih inner
        · intro before parent other after place
          exact next (block :: before) parent other after (by rw [place]; rfl)
        · intro tip last
          exact ends tip (by rw [List.getLast?_cons_cons, last])
        · have positive := inner.positive child List.mem_cons_self
          omega
      rw [List.length_cons, Nat.add_right_comm _ 1 1, Nat.add_right_comm _ 1 extra, scannedBlocks,
        if_neg positive]
      dsimp only
      rw [link, if_neg (by omega), later]
      rfl

/-- With enough rounds the scan of a canonical chain visits the whole chain. -/
theorem scanChain_of_canonical {node : ScanNode} (canonical : CanonicalChain env node.db chain)
    (ends : LinksEnd env node.db chain) {rounds : Nat} (enough : chain.length + 1 ≤ rounds)
    (now : Int) (myPublicKey : Text) :
    Functions.scanChain env rounds now myPublicKey node =
      some (finishScan env now myPublicKey node chain) := by
  obtain ⟨genesis, rest, whole⟩ := List.exists_cons_of_ne_nil canonical.present
  have first := canonical.first genesis (by rw [whole]; rfl)
  have positive := canonical.ascending.positive genesis (by rw [whole]; exact List.mem_cons_self)
  obtain ⟨extra, rfl⟩ := Nat.exists_eq_add_of_le enough
  have visited : scannedBlocks env node.db (chain.length + 1 + extra)
      (getBlock env node.db (getFirstBlockId node.db)) = some chain := by
    rw [first.1, first.2, whole]
    exact scannedBlocks_of_links (whole ▸ canonical.ascending)
      (fun before parent child after place => canonical.next before parent child after
        (whole.trans place))
      (whole ▸ ends) extra
  have present : ¬ getFirstBlockId node.db ≤ -1 := by
    rw [first.1]
    omega
  rw [Functions.scanChain, if_neg present, visited]
  rfl

/-- The links end where the latest block id points, so the scan leaves the chain alone. -/
theorem finishScan_db {node : ScanNode} (canonical : CanonicalChain env node.db chain) (now : Int)
    (myPublicKey : Text) : (finishScan env now myPublicKey node chain).db = node.db := by
  have last := List.getLast?_eq_some_getLast canonical.present
  rw [finishScan]
  dsimp only
  rw [last, Option.getD_some, canonical.latest _ last, if_neg (not_ne_iff.mpr rfl)]

/-! ### Quiet records -/

/-- A record that adds no coin to a stored user. -/
structure QuietRecord (env : Env) (db : LevelDb) (block : Block) (record : Record) : Prop where
  unspent : record.transactionType ≠ .transferCurrency
  unissued : record.transactionType = .issueCurrency →
    record.amount = 0 ∧ isPlain record.recipientPublicKey = true
  unrewarded : isBasicCarryForwardRecord record block.number = true →
    CarryForward.carryForwardSnapshotMatches env db record = true → carryForwardKey record = []

/-- The stored users that have no coins. -/
def Unfunded (env : Env) (users : UserDb) : Prop :=
  ∀ key text, users[userKey key]? = some text →
    isPlain key = true ∧ text = userJSON env (.account key 0)

def Listed (env : Env) (users : UserDb) (key : Text) : Prop :=
  users[userKey key]? = some (userJSON env (.account key 0))

/-- Databases that may differ in the scanned number. -/
def SameUsers (users other : UserDb) : Prop :=
  ∀ text, text ≠ scannedBlockKey → users[text]? = other[text]?

section Quiet

variable {users : UserDb} {key other : Text} {block : Block} {record : Record}

theorem Unfunded.getUser (unfunded : Unfunded env users) (prints : Prints env 0) (key : Text) :
    getUser env users key = .fresh ∨ getUser env users key = .account key 0 := by
  cases found : users[userKey key]? with
  | none => exact .inl (getUser_of_absent found)
  | some text =>
      obtain ⟨plain, same⟩ := unfunded key text found
      rw [same] at found
      exact .inr (getUser_of_stored found plain prints)

theorem Unfunded.creditUser (unfunded : Unfunded env users) (prints : Prints env 0) (key : Text) :
    creditUser env users key 0 = setUser env users (.account key 0) := by
  have found := unfunded.getUser prints key
  have written := creditUser_eq (found.imp (fun fresh => ⟨fresh, rfl⟩) id) 0
  rwa [zero_add] at written

theorem Unfunded.credited (unfunded : Unfunded env users) (prints : Prints env 0)
    (plain : isPlain key = true) : Unfunded env (Safire.creditUser env users key 0) := by
  intro other text found
  rw [unfunded.creditUser prints, getElem?_setUser_user] at found
  by_cases same : (User.account key 0).publicKey = other
  · rw [if_pos same] at found
    have named : key = other := same
    rw [← named]
    exact ⟨plain, (Option.some.inj found).symm⟩
  · rw [if_neg same] at found
    exact unfunded other text found

theorem Unfunded.listed_credited (unfunded : Unfunded env users) (prints : Prints env 0)
    (key : Text) : Listed env (Safire.creditUser env users key 0) key := by
  rw [Listed, unfunded.creditUser prints, getElem?_setUser_user]
  exact if_pos rfl

theorem Unfunded.listed_kept (unfunded : Unfunded env users) (prints : Prints env 0)
    (listed : Listed env users other) : Listed env (Safire.creditUser env users key 0) other := by
  rw [Listed, unfunded.creditUser prints, getElem?_setUser_user]
  by_cases same : (User.account key 0).publicKey = other
  · have named : key = other := same
    rw [if_pos same, named]
  · rw [if_neg same]
    exact listed

theorem QuietRecord.scanCarryForward (quiet : QuietRecord env db block record)
    (progress : ScanProgress) : scanCarryForward env db block progress record = progress := by
  rw [Safire.scanCarryForward]
  split
  · rename_i counted
    rw [Bool.and_eq_true] at counted
    have keyless := quiet.unrewarded counted.1 counted.2
    rw [if_neg]
    rintro ⟨keyed, -⟩
    rw [keyless] at keyed
    exact absurd keyed (Nat.lt_irrefl 0)
  · rfl

/-- Only an issue record that is met first touches the stored users. -/
theorem QuietRecord.userDb (quiet : QuietRecord env db block record) (progress : ScanProgress) :
    (scanRecord env db block progress record).userDb =
      if 0 < record.hash.length ∧ record.hash ∈ progress.acceptedRecordHashes then progress.userDb
      else if record.transactionType = .issueCurrency then
        creditUser env progress.userDb record.recipientPublicKey 0
      else progress.userDb := by
  rw [scanRecord]
  split
  · rfl
  · dsimp only
    rw [quiet.scanCarryForward, scanAmounts]
    dsimp only
    by_cases issue : record.transactionType = .issueCurrency
    · have zero : scannedAmount record = 0 := by
        rw [scannedAmount, (quiet.unissued issue).1, if_neg]
        rintro ⟨-, above | below⟩
        · exact absurd above (by decide)
        · exact absurd below (by decide)
      rw [if_pos (.inr issue), if_pos issue, zero]
    · rw [if_neg issue, if_neg]
      rintro (transfer | issued)
      · exact quiet.unspent transfer
      · exact issue issued

theorem QuietRecord.hashes (quiet : QuietRecord env db block record) (progress : ScanProgress) :
    (scanRecord env db block progress record).acceptedRecordHashes =
      if 0 < record.hash.length then progress.acceptedRecordHashes.insert record.hash
      else progress.acceptedRecordHashes := by
  rw [scanRecord]
  split
  · rename_i seen
    rw [if_pos seen.1]
    apply Std.ExtTreeSet.ext_mem
    intro hash
    rw [Std.ExtTreeSet.mem_insert]
    constructor
    · exact .inr
    · rintro (same | member)
      · rw [← Std.LawfulEqCmp.eq_of_compare same]
        exact seen.2
      · exact member
  · dsimp only
    rw [quiet.scanCarryForward]
    rfl

end Quiet

/-! ### A second scan -/

/-- A part of the scan that funds nobody. Where it is done again, with the same
records met before, on users among whom all that it lists are listed, it leaves
these users alone. -/
structure Absorbed (env : Env) (part : ScanProgress → ScanProgress) : Prop where
  unfunded : ∀ progress, Unfunded env progress.userDb → Unfunded env (part progress).userDb
  listed : ∀ progress key, Unfunded env progress.userDb → Listed env progress.userDb key →
    Listed env (part progress).userDb key
  hashes : ∀ progress other, progress.acceptedRecordHashes = other.acceptedRecordHashes →
    (part progress).acceptedRecordHashes = (part other).acceptedRecordHashes
  again : ∀ progress other users, Unfunded env progress.userDb →
    progress.acceptedRecordHashes = other.acceptedRecordHashes →
    (∀ key, Listed env (part progress).userDb key → Listed env users key) →
    Unfunded env users → SameUsers other.userDb users → SameUsers (part other).userDb users

theorem Absorbed.id : Absorbed env (fun progress => progress) where
  unfunded := fun _ unfunded => unfunded
  listed := fun _ _ _ listed => listed
  hashes := fun _ _ same => same
  again := fun _ _ _ _ _ _ _ same => same

theorem Absorbed.comp {first second : ScanProgress → ScanProgress} (before : Absorbed env first)
    (after : Absorbed env second) : Absorbed env (fun progress => second (first progress)) where
  unfunded := fun progress unfunded => after.unfunded _ (before.unfunded progress unfunded)
  listed := fun progress key unfunded listed =>
    after.listed _ key (before.unfunded progress unfunded) (before.listed progress key unfunded listed)
  hashes := fun progress other same => after.hashes _ _ (before.hashes progress other same)
  again := by
    intro progress other users unfunded hashes lists unfundedUsers same
    have reached := before.unfunded progress unfunded
    apply after.again _ _ users reached (before.hashes progress other hashes) lists unfundedUsers
    apply before.again progress other users unfunded hashes _ unfundedUsers same
    intro key listed
    exact lists key (after.listed _ key reached listed)

/-- What holds of the parts and is kept by composition holds of the loop. -/
theorem foldl_parts {α : Type} {holds : (ScanProgress → ScanProgress) → Prop}
    {part : ScanProgress → α → ScanProgress} (idle : holds fun progress => progress)
    (comp : ∀ first second, holds first → holds second → holds fun progress => second (first progress))
    {items : List α} (each : ∀ item ∈ items, holds fun progress => part progress item) :
    holds fun progress => items.foldl part progress := by
  induction items with
  | nil => exact idle
  | cons item rest ih =>
      have later := ih fun other member => each other (List.mem_cons_of_mem _ member)
      exact comp _ _ (each item List.mem_cons_self) later

theorem Absorbed.foldl {α : Type} {part : ScanProgress → α → ScanProgress} {items : List α}
    (each : ∀ item ∈ items, Absorbed env (fun progress => part progress item)) :
    Absorbed env (fun progress => items.foldl part progress) :=
  foldl_parts .id (fun _ _ before after => before.comp after) each

theorem absorbed_scanRecord (prints : Prints env 0) {block : Block} {record : Record}
    (quiet : QuietRecord env db block record) :
    Absorbed env (fun progress => scanRecord env db block progress record) where
  unfunded := by
    intro progress unfunded
    rw [quiet.userDb]
    split
    · exact unfunded
    · split
      · rename_i issue
        exact unfunded.credited prints (quiet.unissued issue).2
      · exact unfunded
  listed := by
    intro progress key unfunded listed
    rw [quiet.userDb]
    split
    · exact listed
    · split
      · exact unfunded.listed_kept prints listed
      · exact listed
  hashes := by
    intro progress other same
    rw [quiet.hashes, quiet.hashes, same]
  again := by
    intro progress other users unfunded hashes lists unfundedUsers same
    rw [quiet.userDb] at lists ⊢
    rw [hashes] at lists
    split
    · exact same
    · rename_i unseen
      rw [if_neg unseen] at lists
      split
      · rename_i issue
        rw [if_pos issue] at lists
        have listed := lists _ (unfunded.listed_credited prints record.recipientPublicKey)
        have here : Listed env other.userDb record.recipientPublicKey := by
          rw [Listed, same _ (scannedBlockKey_ne _).symm]
          exact listed
        have idle : Unfunded env other.userDb := by
          intro key text found
          rw [same _ (scannedBlockKey_ne key).symm] at found
          exact unfundedUsers key text found
        have kept : setUser env other.userDb (.account record.recipientPublicKey 0) = other.userDb :=
          setUser_of_stored here
        rw [idle.creditUser prints, kept]
        exact same
      · exact same

theorem absorbed_closeBlock (number : Int) : Absorbed env (closeBlock number) where
  unfunded := by
    intro progress unfunded key text found
    rw [closeBlock, setScannedBlockId, getElem?_insertText, if_neg (scannedBlockKey_ne key)] at found
    exact unfunded key text found
  listed := by
    intro progress key _ listed
    rw [Listed, closeBlock, setScannedBlockId, getElem?_insertText,
      if_neg (scannedBlockKey_ne key)]
    exact listed
  hashes := fun _ _ same => same
  again := by
    intro progress other users _ _ _ _ same text apart
    rw [closeBlock, setScannedBlockId, getElem?_insertText, if_neg apart.symm]
    exact same text apart

theorem absorbed_scan (prints : Prints env 0)
    (quiet : ∀ entry ∈ chainEntries chain, QuietRecord env db entry.1 entry.2) :
    Absorbed env (fun progress => chain.foldl (scanBlock env db) progress) := by
  apply Absorbed.foldl
  intro block member
  have records : Absorbed env
      (fun progress => block.records.foldl (scanRecord env db block) progress) := by
    apply Absorbed.foldl
    intro record listed
    apply absorbed_scanRecord prints
    apply quiet (block, record)
    exact List.mem_flatMap.mpr ⟨block, member, List.mem_map_of_mem listed⟩
  exact records.comp (absorbed_closeBlock block.number)

/-- The scanned number is the one of the last block. -/
theorem scanned_foldl {progress : ScanProgress} {tip : Block} (last : chain.getLast? = some tip) :
    (chain.foldl (scanBlock env db) progress).userDb[scannedBlockKey]? =
      some (ofLong tip.number) := by
  obtain ⟨before, rfl⟩ := List.getLast?_eq_some_iff.mp last
  rw [List.foldl_append, List.foldl_cons, List.foldl_nil, scanBlock, closeBlock, setScannedBlockId,
    getElem?_insertText, if_pos rfl]

theorem scan_again (prints : Prints env 0) (present : chain ≠ [])
    (quiet : ∀ entry ∈ chainEntries chain, QuietRecord env db entry.1 entry.2) {users : UserDb}
    (unfunded : Unfunded env users) :
    Unfunded env (chain.foldl (scanBlock env db) (.start users)).userDb ∧
      (chain.foldl (scanBlock env db)
        (.start (chain.foldl (scanBlock env db) (.start users)).userDb)).userDb =
          (chain.foldl (scanBlock env db) (.start users)).userDb := by
  have absorbed := absorbed_scan prints quiet
  have after := absorbed.unfunded (.start users) unfunded
  refine ⟨after, ?_⟩
  generalize once : (chain.foldl (scanBlock env db) (.start users)).userDb = scanned at after
  have same : SameUsers (chain.foldl (scanBlock env db) (.start scanned)).userDb scanned := by
    apply absorbed.again (.start users) (.start scanned) scanned unfunded rfl _ after
    · intro text _
      rfl
    · intro key listed
      rw [← once]
      exact listed
  apply Std.ExtTreeMap.ext_getElem?
  intro text
  by_cases counter : text = scannedBlockKey
  · have last := List.getLast?_eq_some_getLast present
    rw [counter, scanned_foldl last, ← once, scanned_foldl last]
  · exact same text counter

end Safire
