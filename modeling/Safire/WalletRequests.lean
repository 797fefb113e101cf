/-
The requests that queue a transfer of the wallet.

The wallet page and the console take the pending debits off the balance before
they compare it with a transfer. The exchange endpoint compares with the balance
of the ledger alone, so it keeps the queue within the balance only where the
pending debits leave enough. The console scans the chain first, which leaves the
tip alone where no stored block follows it.
-/

import Safire.Library.Runs
import Safire.PendingSpends
import Safire.SpendableBalance
import Safire.WalkedTip

namespace Safire.RequestHandler

open BlockBuilder ChainValidator LedgerState Mempool Text TransferNonces

/-! ### Amounts and fees -/

/-- What `strtod` reads in a text, and whether that is a whole text that is not empty. -/
structure Reading where
  value : Rat
  whole : Bool

def apiMaxTransactionFee : Rat := 1 / 10

def maxTransactionFee : Rat := 1 / 10

/-- `parse_fee_amount`, with the largest fee that is allowed. -/
def parseFeeAmount (largest : Rat) (reading : Reading) : Option Rat :=
  if reading.whole = true ∧ 0 ≤ reading.value ∧ reading.value ≤ largest then some reading.value
  else none

/-- The first `fee:` line of the settings that holds a fee. -/
def settingsFee (largest fallback : Rat) (feeLines : List Reading) : Rat :=
  (feeLines.findSome? (parseFeeAmount largest)).getD fallback

def apiDefaultTransactionFee (feeLines : List Reading) : Rat :=
  settingsFee apiMaxTransactionFee 0 feeLines

/-- The console reads the same lines. -/
def getDefaultTransactionFee (feeLines : List Reading) : Rat :=
  settingsFee maxTransactionFee 0 feeLines

theorem parseFeeAmount_nonneg {largest fee : Rat} {reading : Reading}
    (read : parseFeeAmount largest reading = some fee) : 0 ≤ fee := by
  unfold parseFeeAmount at read
  split at read
  · rename_i bounds
    rw [← Option.some.inj read]
    exact bounds.2.1
  · cases read

theorem settingsFee_nonneg (largest : Rat) (feeLines : List Reading) :
    0 ≤ settingsFee largest 0 feeLines := by
  unfold settingsFee
  cases found : feeLines.findSome? (parseFeeAmount largest) with
  | none => exact le_refl 0
  | some fee =>
      obtain ⟨reading, -, read⟩ := List.exists_of_findSome?_eq_some found
      exact parseFeeAmount_nonneg read

/-! ### The requests -/

inductive EntryPoint where
  | walletSend
  | exchangeWithdraw
  | cliSend
  deriving DecidableEq

/-- The key pair of the wallet file. -/
structure Wallet where
  publicKey : Text
  signMessage : Text → Text

/-- A request for a transfer, with the settings, the clock at each call that reads
it, the earlier calls of the ledger, and what the scan of the console starts from. -/
structure SpendRequest where
  entry : EntryPoint
  exchangeApiKey : Text
  apiKey : Text
  recipient : Text
  amount : Reading
  fee : Option Reading
  feeLines : List Reading
  balanceTimeBlock : Int
  pendingTimeBlock : Int
  nonceTimeBlock : Int
  noncePendingTimeBlock : Int
  queueTimeBlock : Int
  epoch : Int
  balanceQueries : List Query
  nonceQueries : List Query
  blankBlock : Block
  scannedBlock : Block
  scanRounds : Nat

/-- The record that is queued for a request. -/
def sendRecord (env : Env) (wallet : Wallet) (request : SpendRequest) (fee : Rat) (nonce : Int) :
    Record :=
  let unsigned : Record :=
    { network := "main".toList
      time := ofLong request.epoch
      transactionType := .transferCurrency
      nonce := nonce
      amount := request.amount.value
      fee := fee
      senderPublicKey := wallet.publicKey
      recipientPublicKey := request.recipient
      hash := []
      signature := []
      name := []
      value := [] }
  let hash := getRecordHash env unsigned
  { unsigned with hash := hash, signature := wallet.signMessage hash }

/-- The error text of a record that is not queued. -/
def queueAndBroadcastRecord (env : Env) (currentBlock : Int) (store : PendingStore)
    (record : Record) : Except String Unit × PendingStore :=
  if isRecordSizeValid env record = false then (.error (recordSizeError env record), store)
  else if isExpiredHeartbeatRecord record currentBlock then (.ok (), store)
  else
    let (returned, after) := addToQueue env currentBlock true store record
    (if returned = 0 then .error "unable to queue record" else .ok (), after)

/-- The common end of the three entry points: the nonce, the record and the queue. -/
def queueTransfer (env : Env) (wallet : Wallet) (request : SpendRequest) (failure : String)
    (fee : Rat) (store : PendingStore) : Except Text Record × PendingStore :=
  let (nonce, read) := nextTransferNonce env (cacheAfter env store.db request.nonceQueries)
    request.nonceTimeBlock request.noncePendingTimeBlock true store wallet.publicKey
  let record := sendRecord env wallet request fee nonce
  let (queued, after) := queueAndBroadcastRecord env request.queueTimeBlock read record
  match queued with
  | .error reason => (.error (failure.toList ++ reason.toList ++ ".".toList), after)
  | .ok () => (.ok record, after)

/-- The checks of the two API endpoints on the recipient and the amount. -/
def submittedError (request : SpendRequest) : Option String :=
  if request.recipient.length = 0 then some "Recipient address is required."
  else if request.amount.whole = false ∨ request.amount.value ≤ 0 then
    some "Amount must be greater than zero."
  else none

/-- The fee of a request to the API, or none for a fee text that is refused. -/
def submittedFee (request : SpendRequest) : Option Rat :=
  match request.fee with
  | none => some (apiDefaultTransactionFee request.feeLines)
  | some reading => parseFeeAmount apiMaxTransactionFee reading

def exchangeApiAuthorized (request : SpendRequest) : Bool :=
  decide (0 < request.exchangeApiKey.length ∧ 0 < request.apiKey.length ∧
    request.apiKey = request.exchangeApiKey)

def walletSend (env : Env) (wallet : Wallet) (request : SpendRequest) (store : PendingStore) :
    Except Text Record × PendingStore :=
  match submittedError request with
  | some message => (.error message.toList, store)
  | none =>
      let (spendableBalance, read) :=
        spendableConfirmedBalance env (cacheAfter env store.db request.balanceQueries)
          request.balanceTimeBlock request.pendingTimeBlock true store wallet.publicKey
      match submittedFee request with
      | none => (.error "Fee must be zero or greater.".toList, read)
      | some fee =>
          let totalDebit := request.amount.value + fee
          if spendableBalance < totalDebit then
            (.error ("Insufficient balance. Amount plus fee is ".toList ++
              env.doubleText totalDebit ++ " SFR. Available confirmed balance is ".toList ++
              env.doubleText spendableBalance ++ " SFR.".toList), read)
          else queueTransfer env wallet request "Unable to send transfer: " fee read

/-- The balance that is checked here is that of the ledger at the tip. -/
def exchangeWithdraw (env : Env) (wallet : Wallet) (request : SpendRequest)
    (store : PendingStore) : Except Text Record × PendingStore :=
  if request.exchangeApiKey.length = 0 then
    (.error ("Exchange withdrawal API is disabled. Add exchange_api_key:<secret> " ++
      "to settings.dat to enable it.").toList, store)
  else if exchangeApiAuthorized request = false then
    (.error "Invalid or missing exchange API key.".toList, store)
  else
    match submittedError request with
    | some message => (.error message.toList, store)
    | none =>
        match submittedFee request with
        | none => (.error "Fee must be zero or greater.".toList, store)
        | some fee =>
            let totalDebit := request.amount.value + fee
            let walletState := (build env store.db
              (cacheAfter env store.db request.balanceQueries) request.balanceTimeBlock
              wallet.publicKey (-1)).1
            if walletState.walletBalance < totalDebit then
              (.error ("Insufficient balance. Amount plus fee is ".toList ++
                env.doubleText totalDebit ++ " SFR.".toList), store)
            else queueTransfer env wallet request "Unable to send exchange withdrawal: " fee store

/-- The `send` command after the scan. It takes whatever `atof` reads, and any
destination. -/
def cliTransfer (env : Env) (wallet : Wallet) (request : SpendRequest) (store : PendingStore) :
    Except Text Record × PendingStore :=
  let fee := getDefaultTransactionFee request.feeLines
  let totalDebit := request.amount.value + fee
  if request.amount.value ≤ 0 then
    (.error "Invalid amount. Unable to send transfer request. ".toList, store)
  else
    let (spendable, read) :=
      spendableConfirmedBalance env (cacheAfter env store.db request.balanceQueries)
        request.balanceTimeBlock request.pendingTimeBlock true store wallet.publicKey
    if spendable < totalDebit then
      (.error ("Insuficient balance. Unable to send transfer request. Amount plus fee is ".toList ++
        env.doubleText totalDebit ++ " sfr.".toList), read)
    else queueTransfer env wallet request " Record not sent: " fee read

/-- The `send` command scans the chain first, and gives no reply while the scan goes on. -/
def cliSend (env : Env) (wallet : Wallet) (request : SpendRequest) (store : PendingStore) :
    Except Text Record × PendingStore :=
  match scanChain env store.db request.blankBlock request.scannedBlock request.scanRounds with
  | none => (.error [], store)
  | some scanned => cliTransfer env wallet request { store with db := scanned }

/-- The reply, or the record of an accepted request, with the mempool after it. -/
def SpendRequest.run (env : Env) (wallet : Wallet) (store : PendingStore)
    (request : SpendRequest) : Except Text Record × PendingStore :=
  match request.entry with
  | .walletSend => walletSend env wallet request store
  | .exchangeWithdraw => exchangeWithdraw env wallet request store
  | .cliSend => cliSend env wallet request store

def spendStep (env : Env) (wallet : Wallet) (store : PendingStore) (request : SpendRequest) :
    PendingStore :=
  (request.run env wallet store).2

/-- The fee that the entry point charges. -/
def SpendRequest.chargedFee (request : SpendRequest) : Option Rat :=
  match request.entry with
  | .walletSend | .exchangeWithdraw => submittedFee request
  | .cliSend => some (getDefaultTransactionFee request.feeLines)

theorem SpendRequest.chargedFee_nonneg {request : SpendRequest} {fee : Rat}
    (charged : request.chargedFee = some fee) : 0 ≤ fee := by
  have submitted : submittedFee request = some fee → 0 ≤ fee := by
    intro taken
    unfold submittedFee at taken
    cases given : request.fee with
    | none =>
        rw [given] at taken
        rw [← Option.some.inj taken]
        exact settingsFee_nonneg _ _
    | some reading =>
        rw [given] at taken
        exact parseFeeAmount_nonneg taken
  unfold SpendRequest.chargedFee at charged
  split at charged
  · exact submitted charged
  · exact submitted charged
  · rw [← Option.some.inj charged]
    exact settingsFee_nonneg _ _

/-! ### What a request does to the mempool -/

section Step

variable {env : Env} {wallet : Wallet} {store : PendingStore} {request : SpendRequest}

/-- What an entry point has checked of a transfer that it queues. -/
structure Passed (env : Env) (wallet : Wallet) (store : PendingStore) (request : SpendRequest)
    (fee : Rat) : Prop where
  charged : request.chargedFee = some fee
  positive : 0 < request.amount.value
  covered : request.entry ≠ .exchangeWithdraw → request.amount.value + fee ≤
    (spendableConfirmedBalance env (cacheAfter env store.db request.balanceQueries)
      request.balanceTimeBlock request.pendingTimeBlock true store wallet.publicKey).1
  paid : request.entry = .exchangeWithdraw → request.amount.value + fee ≤
    (build env store.db (cacheAfter env store.db request.balanceQueries) request.balanceTimeBlock
      wallet.publicKey (-1)).1.walletBalance

theorem submittedError_none (none : submittedError request = none) :
    0 < request.amount.value := by
  unfold submittedError at none
  split at none
  · cases none
  · split at none
    · cases none
    · rename_i amount
      rw [not_or, not_le] at amount
      exact amount.2

theorem walletSend_cases (entry : request.entry = .walletSend) :
    (walletSend env wallet request store).2 = store ∨
      let read := (peekQueueRecords env request.pendingTimeBlock true store).2
      (walletSend env wallet request store).2 = read ∨
        ∃ fee failure, Passed env wallet store request fee ∧
          (walletSend env wallet request store).2 =
            (queueTransfer env wallet request failure fee read).2 := by
  unfold walletSend
  cases checked : submittedError request with
  | some message => exact .inl rfl
  | none =>
      dsimp only
      cases charged : submittedFee request with
      | none => exact .inr (.inl rfl)
      | some fee =>
          dsimp only
          split
          · exact .inr (.inl rfl)
          · rename_i enough
            refine .inr (.inr ⟨fee, _, ⟨?_, submittedError_none checked, ?_, ?_⟩, rfl⟩)
            · rw [SpendRequest.chargedFee, entry]
              exact charged
            · exact fun _ => not_lt.mp enough
            · intro other
              rw [entry] at other
              cases other

theorem exchangeWithdraw_cases (entry : request.entry = .exchangeWithdraw) :
    (exchangeWithdraw env wallet request store).2 = store ∨
      ∃ fee failure, Passed env wallet store request fee ∧
        (exchangeWithdraw env wallet request store).2 =
          (queueTransfer env wallet request failure fee store).2 := by
  unfold exchangeWithdraw
  split
  · exact .inl rfl
  · split
    · exact .inl rfl
    · cases checked : submittedError request with
      | some message => exact .inl rfl
      | none =>
          dsimp only
          cases charged : submittedFee request with
          | none => exact .inl rfl
          | some fee =>
              dsimp only
              split
              · exact .inl rfl
              · rename_i enough
                refine .inr ⟨fee, _, ⟨?_, submittedError_none checked, ?_, ?_⟩, rfl⟩
                · rw [SpendRequest.chargedFee, entry]
                  exact charged
                · exact fun other => absurd entry other
                · exact fun _ => not_lt.mp enough

theorem cliTransfer_cases (entry : request.entry = .cliSend) :
    (cliTransfer env wallet request store).2 = store ∨
      let read := (peekQueueRecords env request.pendingTimeBlock true store).2
      (cliTransfer env wallet request store).2 = read ∨
        ∃ fee failure, Passed env wallet store request fee ∧
          (cliTransfer env wallet request store).2 =
            (queueTransfer env wallet request failure fee read).2 := by
  unfold cliTransfer
  dsimp only
  split
  · exact .inl rfl
  · rename_i positive
    split
    · exact .inr (.inl rfl)
    · rename_i enough
      refine .inr (.inr ⟨_, _, ⟨?_, not_le.mp positive, ?_, ?_⟩, rfl⟩)
      · rw [SpendRequest.chargedFee, entry]
      · exact fun _ => not_lt.mp enough
      · intro other
        rw [entry] at other
        cases other

/-- The scan of the console leaves the database as it is. -/
def ScanKeeps (env : Env) (store : PendingStore) (request : SpendRequest) : Prop :=
  request.entry = .cliSend → ∀ scanned,
    scanChain env store.db request.blankBlock request.scannedBlock request.scanRounds =
      some scanned → scanned = store.db

theorem cliSend_cases (entry : request.entry = .cliSend) (keeps : ScanKeeps env store request) :
    (cliSend env wallet request store).2 = store ∨
      cliSend env wallet request store = cliTransfer env wallet request store := by
  unfold cliSend
  cases scan : scanChain env store.db request.blankBlock request.scannedBlock
      request.scanRounds with
  | none => exact .inl rfl
  | some scanned =>
      rw [keeps entry scanned scan]
      exact .inr rfl

/-- A request leaves the mempool, reads it, or queues a transfer after reading it. -/
theorem spendStep_cases (request : SpendRequest) (keeps : ScanKeeps env store request) :
    ∃ read, (read = store ∨
        read = (peekQueueRecords env request.pendingTimeBlock true store).2) ∧
      (spendStep env wallet store request = read ∨
        ∃ fee failure, Passed env wallet store request fee ∧
          spendStep env wallet store request =
            (queueTransfer env wallet request failure fee read).2) := by
  unfold spendStep SpendRequest.run
  cases entry : request.entry with
  | walletSend =>
      cases @walletSend_cases env wallet store request entry with
      | inl kept => exact ⟨store, .inl rfl, .inl kept⟩
      | inr read => exact ⟨_, .inr rfl, read⟩
  | exchangeWithdraw =>
      exact ⟨store, .inl rfl, @exchangeWithdraw_cases env wallet store request entry⟩
  | cliSend =>
      cases @cliSend_cases env wallet store request entry keeps with
      | inl kept => exact ⟨store, .inl rfl, .inl kept⟩
      | inr scanned =>
          dsimp only
          rw [scanned]
          cases @cliTransfer_cases env wallet store request entry with
          | inl kept => exact ⟨store, .inl rfl, .inl kept⟩
          | inr read => exact ⟨_, .inr rfl, read⟩

/-- A record that is queued is usable and not in the accepted chain. -/
theorem queueAndBroadcastRecord_cases (currentBlock : Int) (record : Record) :
    (queueAndBroadcastRecord env currentBlock store record).2 = store ∨
      isRecordSizeValid env record = true ∧
        recordExistsInAcceptedChain env store.db record.hash = false ∧
        (queueAndBroadcastRecord env currentBlock store record).2 =
          { store with db := writeQueued env store.db (nextSequence store.db) record } := by
  unfold queueAndBroadcastRecord
  split
  · exact .inl rfl
  · rename_i sized
    split
    · exact .inl rfl
    · rw [addToQueue_eq]
      dsimp only
      by_cases admitted : admits env currentBlock true store record = true
      · rw [if_pos admitted, queued_opened]
        refine .inr ⟨by simpa using sized, ?_, rfl⟩
        unfold admits at admitted
        by_cases hashed : 0 < record.hash.length
        · rw [decide_eq_true hashed] at admitted
          simp only [Bool.and_eq_true, Bool.true_and, Bool.not_eq_true'] at admitted
          exact admitted.1.2
        · have empty : record.hash.length = 0 := by omega
          rw [recordExistsInAcceptedChain, if_pos empty]
      · rw [if_neg admitted]
        exact .inl rfl

theorem sameChain_queueTransfer (failure : String) (fee : Rat) :
    SameChain store.db (queueTransfer env wallet request failure fee store).2.db := by
  have read := sameChain_peekQueueRecords env request.noncePendingTimeBlock true store
  unfold queueTransfer
  dsimp only
  have after : ∀ record, SameChain store.db (queueAndBroadcastRecord env request.queueTimeBlock
      (peekQueueRecords env request.noncePendingTimeBlock true store).2 record).2.db := by
    intro record
    cases queueAndBroadcastRecord_cases request.queueTimeBlock record with
    | inl kept =>
        rw [kept]
        exact read
    | inr queued =>
        rw [queued.2.2]
        exact read.trans (sameChain_writeQueued env _ _ record)
  split <;> exact after _

theorem sameChain_spendStep (request : SpendRequest) (keeps : ScanKeeps env store request) :
    SameChain store.db (spendStep env wallet store request).db := by
  obtain ⟨read, reads, outcome⟩ := @spendStep_cases env wallet store request keeps
  have first : SameChain store.db read.db := by
    cases reads with
    | inl same =>
        rw [same]
        exact SameChain.refl store.db
    | inr same =>
        rw [same]
        exact sameChain_peekQueueRecords env _ true store
  cases outcome with
  | inl kept =>
      rw [kept]
      exact first
  | inr sent =>
      obtain ⟨fee, failure, -, same⟩ := sent
      rw [same]
      exact first.trans (sameChain_queueTransfer failure fee)

end Step

/-! ### What every request keeps -/

/-- No stored block follows the last one of the chain. -/
def TipUnfollowed (env : Env) (db : LevelDb) (chain : List Block) : Prop :=
  ∀ tip, chain.getLast? = some tip → (getNextBlock env db tip).number ≤ 0

/-- What the code relies on for the next request: the transfer that it would queue
is a fresh record, the balance covers a withdrawal beside the pending transfers, and
the scan of the console stops at the tip. -/
structure Admissible (env : Env) (wallet : Wallet) (balance : Rat) (nonce : Int)
    (chain : List Block) (store : PendingStore) (request : SpendRequest) : Prop where
  fresh : ∀ fee, request.chargedFee = some fee →
    Fresh env store (sendRecord env wallet request fee
      (nonce + (pendingTransfers env store.db wallet.publicKey).length + 1))
  covers : ∀ fee, request.chargedFee = some fee → request.entry = .exchangeWithdraw →
    ((pendingTransfers env store.db wallet.publicKey).map transferDebit).sum +
      transferDebit (sendRecord env wallet request fee
        (nonce + (pendingTransfers env store.db wallet.publicKey).length + 1)) ≤ balance
  unfollowed : request.entry = .cliSend → TipUnfollowed env store.db chain

section Scan

variable {env : Env} {db : LevelDb} {chain : List Block} {blank : Block}

/-- Where nothing follows the last block the loop ends with it, if it ends. -/
theorem scanLoop_of_links {block : Block} {rest : List Block} {tip : Block}
    (ascending : Ascending (block :: rest))
    (next : ∀ before parent child after, block :: rest = before ++ parent :: child :: after →
      getNextBlock env db parent = child)
    (last : (block :: rest).getLast? = some tip)
    (unfollowed : (getNextBlock env db tip).number ≤ 0) {rounds : Nat} {latestBlock final : Block}
    (ended : scanLoop env db blank rounds block latestBlock = some final) : final = tip := by
  have positive : 0 < block.number := ascending.positive block List.mem_cons_self
  induction rest generalizing block rounds latestBlock with
  | nil =>
      have here : block = tip := Option.some.inj last
      match rounds with
      | 0 => cases ended
      | 1 =>
          rw [scanLoop, if_neg (not_le.mpr positive)] at ended
          cases ended
      | rounds + 2 =>
          have apart : (getNextBlock env db block).number ≠ block.number := by
            rw [here] at positive ⊢
            omega
          have stops : (getNextBlock env db block).number ≤ 0 := by rwa [here]
          rw [scanLoop, if_neg (not_le.mpr positive)] at ended
          dsimp only at ended
          rw [if_neg apart, scanLoop, if_pos stops] at ended
          rw [← Option.some.inj ended, here]
  | cons child rest ih =>
      have link : getNextBlock env db block = child := next [] block child rest rfl
      have above : block.number < child.number :=
        (List.pairwise_cons.mp ascending.sorted).1 child List.mem_cons_self
      have inner : Ascending (child :: rest) :=
        ⟨fun other member => ascending.positive other (List.mem_cons_of_mem _ member),
          (List.pairwise_cons.mp ascending.sorted).2⟩
      cases rounds with
      | zero => cases ended
      | succ rounds =>
          rw [scanLoop, if_neg (not_le.mpr positive)] at ended
          dsimp only at ended
          rw [link, if_neg above.ne'] at ended
          refine ih inner (fun before parent other after place => ?_) ?_ ended
            (inner.positive child List.mem_cons_self)
          · exact next (block :: before) parent other after (by rw [place]; rfl)
          · rwa [List.getLast?_cons_cons] at last

/-- A scan that ends writes nothing where the tip has no stored block after it. -/
theorem scanChain_kept (canonical : CanonicalChain env db chain)
    (unfollowed : TipUnfollowed env db chain) {latestBlock : Block} {rounds : Nat}
    {scanned : LevelDb} (ended : scanChain env db blank latestBlock rounds = some scanned) :
    scanned = db := by
  obtain ⟨genesis, rest, rfl⟩ := List.exists_cons_of_ne_nil canonical.present
  obtain ⟨first, slot⟩ := canonical.first genesis rfl
  have last := List.getLast?_eq_some_getLast (List.cons_ne_nil genesis rest)
  rw [scanChain] at ended
  split at ended
  · exact (Option.some.inj ended).symm
  · rw [first, slot, Option.map_eq_some_iff] at ended
    obtain ⟨final, looped, written⟩ := ended
    have tip := scanLoop_of_links canonical.ascending canonical.next last (unfollowed _ last) looped
    rw [tip, canonical.latest _ last, if_neg (not_not.mpr rfl)] at written
    exact written.symm

end Scan

theorem carryForwardSnapshotMatches_sameChain {env : Env} {db after : LevelDb}
    (same : SameChain db after) :
    LedgerState.carryForwardSnapshotMatches env after =
      LedgerState.carryForwardSnapshotMatches env db := by
  have first := same.getFirstBlockId
  have balances : ∀ checkpoint, balancesThroughBlock env after checkpoint =
      balancesThroughBlock env db checkpoint := by
    intro checkpoint
    unfold balancesThroughBlock
    dsimp only
    rw [← first, ← same.getLatestBlockId, ← same.getBlock, ← same.walk]
  funext record
  unfold LedgerState.carryForwardSnapshotMatches
  dsimp only
  rw [balances]

theorem keyBalance_sameChain {env : Env} {db after : LevelDb} (same : SameChain db after)
    (key : Text) (blocks : List Block) :
    keyBalance env after key blocks = keyBalance env db key blocks := by
  rw [keyBalance, keyBalance, carryForwardSnapshotMatches_sameChain same]

section Keep

variable {env : Env} {wallet : Wallet} {store : PendingStore} {chain : List Block}
variable {request : SpendRequest} {balance : Rat} {nonce : Int} {fee : Rat}

/-- What takes a debit from the account is at least its transfers. -/
theorem transferDebits_le {key : Text} {records : List Record}
    (harmless : ∀ record ∈ records, Harmless key record) :
    ((transfersBy key records).map transferDebit).sum ≤ debitSum key records := by
  induction records with
  | nil => exact le_refl 0
  | cons record rest ih =>
      have later := ih fun other member => harmless other (List.mem_cons_of_mem _ member)
      unfold debitSum at later ⊢
      rw [List.map_cons, List.sum_cons, transfersBy_cons, walletDebit]
      by_cases own : TransferBy key record
      · rw [if_pos own, if_pos (show _ ∧ _ from own), List.map_cons, List.sum_cons]
        linarith
      · rw [if_neg own, if_neg (show ¬ (_ ∧ _) from own)]
        split
        · rename_i votes
          have paid := (harmless record List.mem_cons_self).voted votes.1 votes.2
          linarith
        · linarith

theorem Admissible.scanKeeps (admissible : Admissible env wallet balance nonce chain store request)
    (canonical : CanonicalChain env store.db chain) : ScanKeeps env store request :=
  fun entry _ ended => scanChain_kept canonical (admissible.unfollowed entry) ended

theorem transferDebit_sendRecord (positive : 0 < request.amount.value) (feeLower : 0 ≤ fee)
    (own : Int) :
    0 ≤ transferDebit (sendRecord env wallet request fee own) ∧
      transferDebit (sendRecord env wallet request fee own) ≤ request.amount.value + fee := by
  unfold transferDebit sendRecord
  dsimp only
  split
  · exact ⟨feeLower, by linarith⟩
  · exact ⟨by linarith, le_refl _⟩

theorem harmless_of_peek {key : Text} (spends : Spends env key balance nonce store)
    (currentBlock : Int) :
    ∀ record ∈ (peekQueueRecords env currentBlock true store).1, Harmless key record := by
  intro record member
  rw [peekQueueRecords_records] at member
  exact spends.others record (pending_of_read (mem_of_dedupe member))

/-- The pending debits are at least those of the pending transfers. -/
theorem pendingTransfers_le {key : Text} (spends : Spends env key balance nonce store)
    (currentBlock : Int) :
    ((pendingTransfers env store.db key).map transferDebit).sum ≤
      debitSum key (peekQueueRecords env currentBlock true store).1 := by
  rw [← spends.queue currentBlock]
  exact transferDebits_le (harmless_of_peek spends currentBlock)

/-- An entry point that takes off the pending debits covers the next transfer. -/
theorem covered_of_passed (canonical : CanonicalChain env store.db chain) {state : BranchState}
    (connected : connectChain env chain = .ok state)
    (spends : Spends env wallet.publicKey balance nonce store)
    (ledger : keyBalance env store.db wallet.publicKey (ledgerBlocks (-1) chain) = balance)
    (passed : Passed env wallet store request fee)
    (admissible : Admissible env wallet balance nonce chain store request) :
    ((pendingTransfers env store.db wallet.publicKey).map transferDebit).sum +
      transferDebit (sendRecord env wallet request fee
        (nonce + (pendingTransfers env store.db wallet.publicKey).length + 1)) ≤ balance := by
  have feeLower := SpendRequest.chargedFee_nonneg passed.charged
  by_cases entry : request.entry = .exchangeWithdraw
  · exact admissible.covers fee passed.charged entry
  · have enough := passed.covered entry
    have debit := (@transferDebit_sendRecord env wallet request fee passed.positive feeLower
      (nonce + (pendingTransfers env store.db wallet.publicKey).length + 1)).2
    have transfers := pendingTransfers_le spends request.pendingTimeBlock
    have positive := passed.positive
    cases spendable_le canonical connected request.balanceQueries request.balanceTimeBlock
        request.pendingTimeBlock true wallet.publicKey with
    | inl zero =>
        rw [zero] at enough
        linarith
    | inr bounded =>
        rw [ledger] at bounded
        linarith

/-- The ledger keeps no balance for the empty key, so nothing is sent from it. -/
theorem key_of_passed (canonical : CanonicalChain env store.db chain) {state : BranchState}
    (connected : connectChain env chain = .ok state)
    (spends : Spends env wallet.publicKey balance nonce store)
    (passed : Passed env wallet store request fee) : wallet.publicKey ≠ [] := by
  intro empty
  have none : keyBalance env store.db wallet.publicKey (ledgerBlocks (-1) chain) = 0 := by
    rw [keyBalance, if_pos empty]
  have positive := passed.positive
  have feeLower := SpendRequest.chargedFee_nonneg passed.charged
  by_cases entry : request.entry = .exchangeWithdraw
  · have paid := passed.paid entry
    rw [build_walletBalance canonical.ascending connected canonical, none] at paid
    linarith
  · have enough := passed.covered entry
    cases spendable_le canonical connected request.balanceQueries request.balanceTimeBlock
        request.pendingTimeBlock true wallet.publicKey with
    | inl zero =>
        rw [zero] at enough
        linarith
    | inr bounded =>
        have pending := pendingTransfers_le spends request.pendingTimeBlock
        have debits : 0 ≤ ((pendingTransfers env store.db wallet.publicKey).map transferDebit).sum := by
          apply List.sum_nonneg
          intro debit listed
          obtain ⟨own, member, rfl⟩ := List.mem_map.mp listed
          exact spends.debits own member
        rw [none] at bounded
        linarith

/-- The transfer that is queued has the next nonce. -/
theorem spends_queueTransfer (failure : String)
    (spends : Spends env wallet.publicKey balance nonce store)
    (ledger : (build env store.db (cacheAfter env store.db request.nonceQueries)
      request.nonceTimeBlock [] (-1)).1.nonces.getD wallet.publicKey 0 = nonce)
    (present : wallet.publicKey ≠ [])
    (fresh : Fresh env store (sendRecord env wallet request fee
      (nonce + (pendingTransfers env store.db wallet.publicKey).length + 1)))
    (debit : 0 ≤ transferDebit (sendRecord env wallet request fee
      (nonce + (pendingTransfers env store.db wallet.publicKey).length + 1)))
    (covered : ((pendingTransfers env store.db wallet.publicKey).map transferDebit).sum +
      transferDebit (sendRecord env wallet request fee
        (nonce + (pendingTransfers env store.db wallet.publicKey).length + 1)) ≤ balance) :
    Spends env wallet.publicKey balance nonce
      (queueTransfer env wallet request failure fee store).2 := by
  have chosen := spends.nextNonce ledger request.noncePendingTimeBlock
  have read := spends.peek request.noncePendingTimeBlock
  have transfers :=
    (pendingTransfers_peek env request.noncePendingTimeBlock store wallet.publicKey).2
  have left := fresh.peek request.noncePendingTimeBlock
  unfold queueTransfer
  have state : (nextTransferNonce env (cacheAfter env store.db request.nonceQueries)
      request.nonceTimeBlock request.noncePendingTimeBlock true store wallet.publicKey).2 =
        (peekQueueRecords env request.noncePendingTimeBlock true store).2 := rfl
  dsimp only
  rw [chosen, state]
  generalize recorded : sendRecord env wallet request fee
    (nonce + (pendingTransfers env store.db wallet.publicKey).length + 1) = record at *
  have own : TransferBy wallet.publicKey record := by
    rw [← recorded]
    exact ⟨rfl, rfl⟩
  have queued : Spends env wallet.publicKey balance nonce (queueAndBroadcastRecord env
      request.queueTimeBlock (peekQueueRecords env request.noncePendingTimeBlock true store).2
      record).2 := by
    cases queueAndBroadcastRecord_cases request.queueTimeBlock record with
    | inl kept =>
        rw [kept]
        exact read
    | inr written =>
        obtain ⟨sized, absent, after⟩ := written
        rw [after]
        apply read.snoc left
        · rw [ownedBy_iff]
          refine ⟨own, ?_⟩
          have keyed : 0 < record.senderPublicKey.length := by
            rw [own.2]
            exact List.length_pos_iff.mpr present
          unfold keeps pendingRecordLooksUsable isExpiredHeartbeatRecord
          simp [keyed, sized, absent, own.1]
        · exact debit
        · rw [transfers]
          exact covered
        · rw [transfers, ← recorded]
          rfl
  split <;> exact queued

/-- One request keeps the pending transfers numbered and covered. -/
theorem spends_spendStep (canonical : CanonicalChain env store.db chain) {state : BranchState}
    (connected : connectChain env chain = .ok state)
    (spends : Spends env wallet.publicKey balance nonce store)
    (ledger : keyBalance env store.db wallet.publicKey (ledgerBlocks (-1) chain) = balance)
    (numbered : (foldNonces (ledgerBlocks (-1) chain)).getD wallet.publicKey 0 = nonce)
    (admissible : Admissible env wallet balance nonce chain store request) :
    Spends env wallet.publicKey balance nonce (spendStep env wallet store request) := by
  obtain ⟨read, reads, outcome⟩ := @spendStep_cases env wallet store request
    (admissible.scanKeeps canonical)
  have left : Spends env wallet.publicKey balance nonce read ∧ SameChain store.db read.db ∧
      pendingTransfers env read.db wallet.publicKey =
        pendingTransfers env store.db wallet.publicKey ∧
      ∀ record, Fresh env store record → Fresh env read record := by
    cases reads with
    | inl same =>
        rw [same]
        exact ⟨spends, SameChain.refl store.db, rfl, fun _ fresh => fresh⟩
    | inr same =>
        rw [same]
        exact ⟨spends.peek _, sameChain_peekQueueRecords env _ true store,
          (pendingTransfers_peek env _ store wallet.publicKey).2, fun _ fresh => fresh.peek _⟩
  obtain ⟨kept, same, transfers, stays⟩ := left
  cases outcome with
  | inl unchanged =>
      rw [unchanged]
      exact kept
  | inr sent =>
      obtain ⟨fee, failure, passed, after⟩ := sent
      have covered := covered_of_passed canonical connected spends ledger passed admissible
      have debit := (@transferDebit_sendRecord env wallet request fee passed.positive
        (SpendRequest.chargedFee_nonneg passed.charged)
        (nonce + (pendingTransfers env store.db wallet.publicKey).length + 1)).1
      have present := key_of_passed canonical connected spends passed
      have built := build_nonces (CarryForward.CanonicalChain.sameChain canonical same)
        request.nonceQueries request.nonceTimeBlock [] (-1)
      rw [after]
      apply spends_queueTransfer failure kept _ present
      · rw [transfers]
        exact stays _ (admissible.fresh fee passed.charged)
      · rw [transfers]
        exact debit
      · rw [transfers]
        exact covered
      · rw [built]
        exact numbered

/-- What holds between two requests: the chain is untouched, and the mempool shows
the transfers as they were queued. -/
theorem spends_run (canonical : CanonicalChain env store.db chain) {state : BranchState}
    (connected : connectChain env chain = .ok state) {requests : List SpendRequest}
    (spends : Spends env wallet.publicKey balance nonce store)
    (ledger : keyBalance env store.db wallet.publicKey (ledgerBlocks (-1) chain) = balance)
    (numbered : (foldNonces (ledgerBlocks (-1) chain)).getD wallet.publicKey 0 = nonce)
    (meets : Runs.Meets (spendStep env wallet) (Admissible env wallet balance nonce chain)
      store requests) :
    SameChain store.db (requests.foldl (spendStep env wallet) store).db ∧
      Spends env wallet.publicKey balance nonce (requests.foldl (spendStep env wallet) store) := by
  have keeps : ∀ reached request,
      SameChain store.db reached.db ∧ Spends env wallet.publicKey balance nonce reached →
      Admissible env wallet balance nonce chain reached request →
      SameChain store.db (spendStep env wallet reached request).db ∧
        Spends env wallet.publicKey balance nonce (spendStep env wallet reached request) := by
    intro reached request held admissible
    obtain ⟨same, spends⟩ := held
    have moved := CarryForward.CanonicalChain.sameChain canonical same
    constructor
    · exact same.trans (sameChain_spendStep request (admissible.scanKeeps moved))
    · apply spends_spendStep moved connected spends
      · rw [keyBalance_sameChain same]
        exact ledger
      · exact numbered
      · exact admissible
  exact Runs.invariant keeps ⟨SameChain.refl store.db, spends⟩ meets

/-- The builder starts from the tip with the reward on top. -/
theorem start_funded (canonical : CanonicalChain env store.db chain) {state : BranchState}
    (connected : connectChain env chain = .ok state) (queries : List Query) (now : Int)
    (signMessage : Text → Text) (networkName : Text) (epoch : Int) (creator key : Text) :
    keyBalance env store.db key (ledgerBlocks (-1) chain) ≤
      (Assembly.start (build env store.db (cacheAfter env store.db queries) now []
        (getLatestBlockId store.db)).1 creator
          (blockRewardRecord env signMessage networkName epoch creator)).pending.balances.getD
            key 0 := by
  have tip : ledgerBlocks (getLatestBlockId store.db) chain = ledgerBlocks (-1) chain := by
    rw [ledgerBlocks, blocksAtMost_latest canonical]
    rfl
  rw [Assembly.start, getD_credit, build_balance canonical.ascending connected canonical, tip,
    blockRewardRecord]
  dsimp only
  split
  · linarith
  · linarith

end Keep

/-- Where every withdrawal leaves enough for the transfers that are pending, and no
stored block follows the tip when the console scans, the
queued transfers stay within the balance of the ledger, carry consecutive nonces
and are all taken by the builder. -/
theorem queued_spends_covered (env : Env) (wallet : Wallet) (chain : List Block)
    (start : PendingStore) (requests : List SpendRequest) (accepted : Accepts env chain)
    (canonical : CanonicalChain env start.db chain) (queries : List Query) (now : Int) :
    let ledger := (build env start.db (cacheAfter env start.db queries) now wallet.publicKey (-1)).1
    let balance := ledger.walletBalance
    let nonce := ledger.nonces.getD wallet.publicKey 0
    let reached := requests.foldl (spendStep env wallet) start
    Spends env wallet.publicKey balance nonce start →
    Runs.Meets (spendStep env wallet) (Admissible env wallet balance nonce chain) start requests →
    ∀ currentBlock,
      let queue := (parseQueueRecords env currentBlock true reached).1
      let transfers := transfersBy wallet.publicKey queue
      (transfers.map transferDebit).sum ≤ balance ∧
        transfers.map Record.nonce = Sequence.run nonce transfers.length ∧
        ∀ (buildQueries : List Query) (buildTime : Int) (signMessage : Text → Text)
          (networkName : Text) (epoch : Int) (creator : Text) (before after : List Record)
          (record : Record), queue = before ++ record :: after →
          TransferBy wallet.publicKey record →
          Taken (includeQueue (Assembly.start (build env reached.db
            (cacheAfter env reached.db buildQueries) buildTime [] (getLatestBlockId reached.db)).1
            creator (blockRewardRecord env signMessage networkName epoch creator))
              before).pending record := by
  intro ledger balance nonce reached initial meets currentBlock queue transfers
  obtain ⟨-, state, connected⟩ := accepts_iff.mp accepted
  have funded : keyBalance env start.db wallet.publicKey (ledgerBlocks (-1) chain) = balance :=
    (build_walletBalance canonical.ascending connected canonical queries now wallet.publicKey
      (-1)).symm
  have numbered : (foldNonces (ledgerBlocks (-1) chain)).getD wallet.publicKey 0 = nonce :=
    congrArg (fun nonces : TextMap Int => nonces.getD wallet.publicKey 0)
      (build_nonces canonical queries now wallet.publicKey (-1)).symm
  obtain ⟨same, spends⟩ := spends_run canonical connected initial funded numbered meets
  have moved := CarryForward.CanonicalChain.sameChain canonical same
  have own : transfers = pendingTransfers env reached.db wallet.publicKey :=
    spends.queue currentBlock
  have nonnegative : 0 ≤ nonce := by
    obtain ⟨part, cut⟩ := connected_ledgerBlocks canonical.ascending connected (-1)
    rw [← numbered]
    exact foldNonces_nonneg cut wallet.publicKey
  refine ⟨?_, ?_, ?_⟩
  · rw [own]
    exact spends.covered
  · rw [own]
    exact spends.nonces
  · intro buildQueries buildTime signMessage networkName epoch creator before after record place mine
    apply spends.taken currentBlock _ _ nonnegative mine place
    · rw [← funded, ← keyBalance_sameChain same]
      exact start_funded moved connected buildQueries buildTime signMessage networkName epoch
        creator wallet.publicKey
    · rw [Assembly.start_nonces, build_nonces moved, blocksAtMost_latest moved]
      exact numbered

end Safire.RequestHandler

namespace Safire.Sample

open BlockBuilder ChainValidator LedgerState Mempool RequestHandler Text TransferNonces

/-- The wallet of the sender, whose signature for the spend is known. -/
def senderWallet : Wallet where
  publicKey := sender
  signMessage := fun _ => spend.signature

/-- A request without a fee over one of the entry points. -/
def transferOver (entry : EntryPoint) (recipient : Text) (amount : Rat) : SpendRequest where
  entry := entry
  exchangeApiKey := "secret".toList
  apiKey := "secret".toList
  recipient := recipient
  amount := ⟨amount, true⟩
  fee := none
  feeLines := []
  balanceTimeBlock := 101
  pendingTimeBlock := 101
  nonceTimeBlock := 101
  noncePendingTimeBlock := 101
  queueTimeBlock := 101
  epoch := 2
  balanceQueries := []
  nonceQueries := []
  blankBlock := .missing
  scannedBlock := .missing
  scanRounds := 3

def withdrawal (recipient : Text) (amount : Rat) : SpendRequest :=
  transferOver .exchangeWithdraw recipient amount

/-- An empty mempool on the genesis block with one confirmation. -/
def confirmedNode : PendingStore :=
  ⟨canonicalStore env genesis [emptyBlock], []⟩

def pageRequest : SpendRequest :=
  transferOver .walletSend ['a'] (1 / 4)

def exchangeRequest : SpendRequest :=
  transferOver .exchangeWithdraw ['b'] (1 / 4)

def consoleRequest : SpendRequest :=
  transferOver .cliSend ['c'] (1 / 4)

def pageRecord : Record :=
  sendRecord env senderWallet pageRequest 0 1

def exchangeRecord : Record :=
  sendRecord env senderWallet exchangeRequest 0 2

def consoleRecord : Record :=
  sendRecord env senderWallet consoleRequest 0 3

def pageNode : PendingStore :=
  spendStep env senderWallet confirmedNode pageRequest

def exchangeNode : PendingStore :=
  spendStep env senderWallet pageNode exchangeRequest

/-- The mempool holds the records, in the database and in this order. -/
structure Queued (store : PendingStore) (records : List Record) : Prop where
  stored : storedRecords env store.db = records
  own : pendingTransfers env store.db sender = records
  file : store.queueDat = []
  sequence : nextSequence store.db < longMax

instance (store : PendingStore) (records : List Record) : Decidable (Queued store records) :=
  decidable_of_iff (storedRecords env store.db = records ∧
      pendingTransfers env store.db sender = records ∧ store.queueDat = [] ∧
      nextSequence store.db < longMax)
    ⟨fun parts => ⟨parts.1, parts.2.1, parts.2.2.1, parts.2.2.2⟩,
      fun queued => ⟨queued.stored, queued.own, queued.file, queued.sequence⟩⟩

theorem mixed_transfers :
    (build env confirmedNode.db (cacheAfter env confirmedNode.db []) 101 sender
        (-1)).1.walletBalance = 1 ∧
      (build env confirmedNode.db (cacheAfter env confirmedNode.db []) 101 sender
        (-1)).1.nonces.getD sender 0 = 0 ∧
      Queued confirmedNode [] ∧ Queued pageNode [pageRecord] ∧
      Queued exchangeNode [pageRecord, exchangeRecord] ∧
      (getNextBlock env exchangeNode.db emptyBlock).number ≤ 0 ∧
      (consoleRequest.run env senderWallet exchangeNode).1.isOk = true := by
  decide +kernel

theorem mixed_records :
    (∀ record ∈ [pageRecord, exchangeRecord, consoleRecord], RecordReadable env record) ∧
      [pageRecord, exchangeRecord, consoleRecord].Pairwise (fun earlier later =>
        earlier.hash ≠ later.hash) := by
  decide +kernel

theorem canonical_confirmedNode : CanonicalChain env confirmedNode.db [genesis, emptyBlock] := by
  have stored := storedAs (List.mem_iff_getElem?.mpr ⟨4, rfl⟩) (accepts_child 1 rfl) (by decide)
  unfold confirmedNode
  dsimp only
  exact stored.canonical (ascending_of_accepts (accepts_child 1 rfl)) (List.cons_ne_nil _ _)

theorem Queued.mem_of_pending {store : PendingStore} {records : List Record}
    (queued : Queued store records) {record : Record} (pending : PendingRecord env store record) :
    record ∈ records := by
  cases pending with
  | inl stored =>
      rw [← mem_storedRecords, queued.stored] at stored
      exact stored
  | inr legacy =>
      obtain ⟨line, listed, -⟩ := legacy
      have none : getLines [] = [] := by decide
      rw [queued.file, none] at listed
      cases listed

/-- A request whose record is new to the mempool, with a balance that is large enough. -/
theorem Queued.admissible {store : PendingStore} {records : List Record}
    (queued : Queued store records) {request : SpendRequest} {record : Record}
    (free : request.chargedFee = some 0)
    (sent : sendRecord env senderWallet request 0 (0 + records.length + 1) = record)
    (readable : RecordReadable env record) (new : ∀ other ∈ records, other.hash ≠ record.hash)
    (covers : request.entry = .exchangeWithdraw →
      (records.map transferDebit).sum + transferDebit record ≤ 1)
    (unfollowed : request.entry = .cliSend → TipUnfollowed env store.db [genesis, emptyBlock]) :
    Admissible env senderWallet 1 0 [genesis, emptyBlock] store request := by
  have own : pendingTransfers env store.db senderWallet.publicKey = records := queued.own
  constructor
  · intro fee charged
    rw [← Option.some.inj (free.symm.trans charged), own, sent]
    exact ⟨readable.parse_recordJSON, fun pending held => new pending (queued.mem_of_pending held),
      queued.sequence⟩
  · intro fee charged withdraws
    rw [← Option.some.inj (free.symm.trans charged), own, sent]
    exact covers withdraws
  · exact unfollowed

/-- A transfer from the wallet page, a withdrawal and a transfer from the console. -/
theorem mixed_transfers_covered :
    let reached := [pageRequest, exchangeRequest, consoleRequest].foldl
      (spendStep env senderWallet) confirmedNode
    let transfers := transfersBy sender (parseQueueRecords env 101 true reached).1
    Queued exchangeNode [pageRecord, exchangeRecord] ∧
      (consoleRequest.run env senderWallet exchangeNode).1.isOk = true ∧
      (transfers.map transferDebit).sum ≤ 1 ∧
      transfers.map Record.nonce = Sequence.run 0 transfers.length := by
  obtain ⟨balance, nonce, empty, page, exchange, last, accepted⟩ := mixed_transfers
  obtain ⟨readable, distinct⟩ := mixed_records
  have covered := queued_spends_covered env senderWallet [genesis, emptyBlock] confirmedNode
    [pageRequest, exchangeRequest, consoleRequest] (accepts_child 1 rfl) canonical_confirmedNode
    [] 101
  dsimp only at covered
  have wallet : senderWallet.publicKey = sender := rfl
  rw [wallet, balance, nonce] at covered
  have start : Spends env sender 1 0 confirmedNode :=
    spends_of_harmless 0 (by decide) fun pending held =>
      absurd (empty.mem_of_pending held) List.not_mem_nil
  have first : Admissible env senderWallet 1 0 [genesis, emptyBlock] confirmedNode pageRequest :=
    empty.admissible rfl rfl (readable pageRecord (by simp)) (by simp) (fun other => nomatch other)
      (fun other => nomatch other)
  have second : Admissible env senderWallet 1 0 [genesis, emptyBlock] pageNode exchangeRequest := by
    refine page.admissible rfl rfl (readable exchangeRecord (by simp)) ?_ ?_
      (fun other => nomatch other)
    · intro other member
      rw [List.mem_singleton.mp member]
      exact (List.pairwise_cons.mp distinct).1 exchangeRecord (by simp)
    · intro _
      decide +kernel
  have third : Admissible env senderWallet 1 0 [genesis, emptyBlock] exchangeNode
      consoleRequest := by
    refine exchange.admissible rfl rfl (readable consoleRecord (by simp)) ?_
      (fun other => nomatch other) ?_
    · intro other member
      obtain ⟨before, rest⟩ := List.pairwise_cons.mp distinct
      rcases List.mem_pair.mp member with rfl | rfl
      · exact before consoleRecord (by simp)
      · exact (List.pairwise_cons.mp rest).1 consoleRecord (by simp)
    · intro _ tip same
      rw [← Option.some.inj same]
      exact last
  obtain ⟨sum, nonces, -⟩ := covered start ⟨first, second, third, trivial⟩ 101
  exact ⟨exchange, accepted, sum, nonces⟩

/-! ### Two withdrawals -/

theorem sample_withdrawals :
    (build env genesisNode.db (cacheAfter env genesisNode.db []) 101 sender (-1)).1.walletBalance =
        1 ∧
      (let first := (withdrawal recipient (1 / 2)).run env senderWallet genesisNode
        let second := (withdrawal "bank".toList 1).run env senderWallet first.2
        first.1.isOk = true ∧ second.1.isOk = true ∧
          ((transfersBy sender (parseQueueRecords env 101 true second.2).1).map transferDebit).sum =
            3 / 2) := by
  decide +kernel

/-- Two withdrawals within the balance overdraw it together. -/
theorem withdrawals_overdraw :
    let first := (withdrawal recipient (1 / 2)).run env senderWallet genesisNode
    let second := (withdrawal "bank".toList 1).run env senderWallet first.2
    Accepts env [genesis] ∧ CanonicalChain env genesisNode.db [genesis] ∧
      first.1.isOk = true ∧ second.1.isOk = true ∧
      (build env genesisNode.db (cacheAfter env genesisNode.db []) 101 sender
        (-1)).1.walletBalance = 1 ∧
      ((transfersBy sender (parseQueueRecords env 101 true second.2).1).map transferDebit).sum =
        3 / 2 := by
  obtain ⟨balance, first, second, spent⟩ := sample_withdrawals
  exact ⟨accepts_genesis, canonical_genesisNode, first, second, balance, spent⟩

end Safire.Sample
