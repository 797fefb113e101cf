/-
Which chains keep the validator's balances finite.

A refused comparison bounds an amount from one side, and only where it is a number.
So an infinite amount is caught by the balance of the sender, except in a transfer to
oneself, whose debit is the fee; an amount that is not a number is never caught.
-/

import Safire.DoubleAmounts

namespace Safire.Doubles

open Text Ieee Loop ChainValidator

variable {env : Env} {doubles : DoubleText} {block : DoubleBlock} {record : DoubleRecord}

/-- The amounts that the balance update reads. A carry-forward pays a fixed reward. -/
def usedAmounts (record : DoubleRecord) : List Double :=
  match record.transactionType with
  | .issueCurrency => [record.amount]
  | .transferCurrency => [record.amount, record.fee]
  | .vote => [record.fee]
  | _ => []

def UsesFinite (record : DoubleRecord) : Prop :=
  ∀ amount ∈ usedAmounts record, amount.IsFinite

def BalancesFinite (balances : TextMap Double) : Prop :=
  ∀ (key : Text) (balance : Double), balances[key]? = some balance → balance.IsFinite

/-- Every used amount is finite, and every balance after every record. -/
structure OnlyReal (env : Env) (doubles : DoubleText) (chain : List DoubleBlock) : Prop where
  amounts : ∀ block ∈ chain, ∀ record ∈ block.records, UsesFinite record
  balances : ∀ before block after records rest state, chain = before ++ block :: after →
    block.records = records ++ rest →
    stateAfterRecords env doubles before block records = .ok state → BalancesFinite state.balances

/-- The used amounts are numbers, and a transfer to its own sender is not infinite. -/
structure Harmless (record : DoubleRecord) : Prop where
  numbers : ∀ amount ∈ usedAmounts record, amount ≠ .nan
  own : record.transactionType = .transferCurrency →
    record.senderPublicKey = record.recipientPublicKey → record.amount ≠ .posInf

/-! ### Balances -/

theorem balancesFinite_empty : BalancesFinite ∅ := by
  intro key balance found
  rw [Std.ExtTreeMap.getElem?_empty] at found
  cases found

theorem BalancesFinite.getD {balances : TextMap Double} (finite : BalancesFinite balances)
    (key : Text) : (balances.getD key (.finite 0)).IsFinite := by
  rw [Std.ExtTreeMap.getD_eq_getD_getElem?]
  cases found : balances[key]? with
  | none => exact trivial
  | some balance => exact finite key balance found

theorem BalancesFinite.credit {balances : TextMap Double} (finite : BalancesFinite balances)
    (key : Text) {amount : Double} (real : amount.IsFinite) :
    BalancesFinite (Doubles.credit balances key amount) := by
  intro other balance found
  rw [Doubles.credit, Std.ExtTreeMap.getElem?_insert] at found
  split at found
  · rw [← Option.some.inj found]
    exact Number.isFinite_add_iff.mpr ⟨finite.getD key, real⟩
  · exact finite other balance found

/-! ### One record -/

section Typed

variable {state next : BranchState} (finite : BalancesFinite state.balances)
include finite

/-- With a finite balance a debit that passes the check is not infinite. -/
theorem debit_ne_posInf {debit : Double} (covered : overspends state record debit = false) :
    debit ≠ .posInf := by
  obtain ⟨balance, held⟩ := Number.isFinite_iff.mp (finite.getD record.senderPublicKey)
  unfold overspends BranchState.balance at covered
  rw [held] at covered
  exact Number.ne_posInf_of_not_lt covered

theorem connectIssue_finite (number : record.amount ≠ .nan)
    (connected : connectIssue block state record = .ok next) :
    record.amount.IsFinite ∧ BalancesFinite next.balances := by
  unfold connectIssue at connected
  split at connected
  · cases connected
  · rename_i range
    split at connected
    · cases connected
    · rw [not_or, Bool.not_eq_true, Bool.not_eq_true] at range
      have real := Number.isFinite_of_not_lt number range.1 range.2
      cases connected
      exact ⟨real, finite.credit _ real⟩

theorem applyTransfer_finite (amount : record.amount.IsFinite) (fee : record.fee.IsFinite) :
    BalancesFinite (applyTransfer block record state.balances) := by
  have debit : (record.amount.add record.fee).neg.IsFinite :=
    Number.isFinite_neg_iff.mpr (Number.isFinite_add_iff.mpr ⟨amount, fee⟩)
  exact ((finite.credit _ amount).credit _ debit).credit _ fee

theorem connectTransfer_finite (amountNumber : record.amount ≠ .nan) (feeNumber : record.fee ≠ .nan)
    (own : record.senderPublicKey = record.recipientPublicKey → record.amount ≠ .posInf)
    (connected : connectTransfer block state record = .ok next) :
    (record.amount.IsFinite ∧ record.fee.IsFinite) ∧ BalancesFinite next.balances := by
  unfold connectTransfer at connected
  split at connected
  · cases connected
  · rename_i signs
    split at connected
    · cases connected
    · split at connected
      · cases connected
      · rename_i covered
        rw [not_or, Bool.not_eq_true, Bool.not_eq_true] at signs
        rw [Bool.not_eq_true] at covered
        have amountAbove := Number.ne_negInf_of_not_le signs.1
        have feeAbove := Number.ne_negInf_of_not_lt signs.2
        have real : record.amount.IsFinite ∧ record.fee.IsFinite := by
          have bounded := debit_ne_posInf finite covered
          unfold transferDebit at bounded
          split at bounded
          · rename_i same
            exact ⟨Number.isFinite_of_ne amountNumber amountAbove (own same),
              Number.isFinite_of_ne feeNumber feeAbove bounded⟩
          · exact Number.isFinite_of_add_ne_posInf amountNumber feeNumber amountAbove feeAbove
              bounded
        cases connected
        exact ⟨real, applyTransfer_finite finite real.1 real.2⟩

theorem connectVote_finite (number : record.fee ≠ .nan)
    (connected : connectVote block state record = .ok next) :
    record.fee.IsFinite ∧ BalancesFinite next.balances := by
  unfold connectVote at connected
  split at connected
  · cases connected
  · rename_i refused
    rw [not_or, Bool.not_eq_true, Bool.not_eq_true] at refused
    have real := Number.isFinite_of_ne number (Number.ne_negInf_of_not_lt refused.1)
      (debit_ne_posInf finite refused.2)
    cases connected
    exact ⟨real, (finite.credit _ (Number.isFinite_neg_iff.mpr real)).credit _ real⟩

theorem connectCarryForward_finite (connected : connectCarryForward block state record = .ok next) :
    BalancesFinite next.balances := by
  unfold connectCarryForward at connected
  dsimp only at connected
  split at connected
  · cases connected
  · split at connected
    · cases connected
      exact finite.credit _ trivial
    · cases connected
      exact finite

theorem keepBalances_finite {rest : Except String ChainValidator.BranchState}
    (connected : keepBalances state rest = .ok next) : BalancesFinite next.balances := by
  obtain ⟨kept, -, same⟩ := map_ok_iff.mp connected
  rw [← same]
  exact finite

/-- An accepted harmless record uses finite amounts and keeps the balances finite. -/
theorem connectTyped_finite {isGenesis : Bool} (harmless : Harmless record)
    (connected : connectTyped block isGenesis state record = .ok next) :
    UsesFinite record ∧ BalancesFinite next.balances := by
  obtain ⟨numbers, own⟩ := harmless
  unfold connectTyped at connected
  unfold UsesFinite
  unfold usedAmounts at numbers ⊢
  cases kind : record.transactionType with
  | issueCurrency =>
      rw [kind] at connected numbers
      have real := connectIssue_finite finite (numbers _ (by simp)) connected
      exact ⟨by simpa using real.1, real.2⟩
  | transferCurrency =>
      rw [kind] at connected numbers
      have real := connectTransfer_finite finite (numbers _ (by simp)) (numbers _ (by simp))
        (own kind) connected
      exact ⟨by simpa using real.1, real.2⟩
  | vote =>
      rw [kind] at connected numbers
      have real := connectVote_finite finite (numbers _ (by simp)) connected
      exact ⟨by simpa using real.1, real.2⟩
  | joinNetwork =>
      rw [kind] at connected
      exact ⟨by simp, keepBalances_finite finite connected⟩
  | updateName =>
      rw [kind] at connected
      exact ⟨by simp, keepBalances_finite finite connected⟩
  | heartBeat =>
      rw [kind] at connected
      exact ⟨by simp, keepBalances_finite finite connected⟩
  | carryForward =>
      rw [kind] at connected
      exact ⟨by simp, connectCarryForward_finite finite connected⟩
  | periodSummary =>
      rw [kind] at connected
      cases connected

end Typed

/-! ### The loops -/

theorem connectRecord_ok {isGenesis : Bool} {state next : BranchState} {hashes : TextSet}
    (connected : connectRecord env doubles block isGenesis state hashes record = .ok next) :
    connectTyped block isGenesis (state.markHash record.hash) record = .ok next := by
  unfold connectRecord at connected
  obtain ⟨-, -, signed⟩ := bind_ok_iff.mp connected
  obtain ⟨-, -, typed⟩ := bind_ok_iff.mp signed
  exact typed

theorem connectRecords_finite {isGenesis : Bool} {state next : BranchState}
    {records : List DoubleRecord} (finite : BalancesFinite state.balances)
    (harmless : ∀ record ∈ records, Harmless record)
    (connected : connectRecords env doubles block isGenesis state records = .ok next) :
    (∀ record ∈ records, UsesFinite record) ∧ BalancesFinite next.balances := by
  unfold connectRecords at connected
  obtain ⟨progress, run, same⟩ := bind_ok_iff.mp connected
  rw [← pure_ok_iff.mp same]
  -- What the consumed records leave; the next one meets finite balances.
  apply run_invariant (fun done (progress : BranchState × TextSet) =>
    (∀ record ∈ done, UsesFinite record) ∧ BalancesFinite progress.1.balances) _ records _ progress run
  · exact ⟨by simp, finite⟩
  · intro done record rest progress later place held stepped
    unfold recordStep at stepped
    obtain ⟨reached, recorded, pushed⟩ := bind_ok_iff.mp stepped
    rw [← pure_ok_iff.mp pushed]
    have marked : BalancesFinite (progress.1.markHash record.hash).balances := held.2
    have typed := connectTyped_finite marked (harmless record (by simp [place]))
      (connectRecord_ok recorded)
    refine ⟨fun other member => ?_, typed.2⟩
    cases List.mem_append.mp member with
    | inl earlier => exact held.1 other earlier
    | inr own =>
        rw [List.mem_singleton.mp own]
        exact typed.1

def ChainHarmless (chain : List DoubleBlock) : Prop :=
  ∀ block ∈ chain, ∀ record ∈ block.records, Harmless record

theorem connectChain_finite {chain : List DoubleBlock} {state : BranchState}
    (harmless : ChainHarmless chain) (connected : connectChain env doubles chain = .ok state) :
    (∀ block ∈ chain, ∀ record ∈ block.records, UsesFinite record) ∧
      BalancesFinite state.balances := by
  unfold connectChain at connected
  obtain ⟨progress, run, same⟩ := bind_ok_iff.mp connected
  rw [← pure_ok_iff.mp same]
  apply run_invariant (fun done (progress : List DoubleBlock × BranchState) =>
    (∀ block ∈ done, ∀ record ∈ block.records, UsesFinite record) ∧
      BalancesFinite progress.2.balances) _ chain _ progress run
  · exact ⟨by simp, balancesFinite_empty⟩
  · intro done block rest progress later place held stepped
    unfold blockStep at stepped
    obtain ⟨reached, extended, pushed⟩ := bind_ok_iff.mp stepped
    rw [← pure_ok_iff.mp pushed]
    unfold connectBlock at extended
    obtain ⟨-, -, recorded⟩ := bind_ok_iff.mp extended
    obtain ⟨after, applied, snapped⟩ := bind_ok_iff.mp recorded
    rw [← pure_ok_iff.mp snapped]
    have records := connectRecords_finite held.2 (harmless block (by simp [place])) applied
    refine ⟨fun other member => ?_, records.2⟩
    cases List.mem_append.mp member with
    | inl earlier => exact held.1 other earlier
    | inr own =>
        rw [List.mem_singleton.mp own]
        exact records.1

/-! ### The condition -/

theorem UsesFinite.harmless (uses : UsesFinite record) : Harmless record := by
  constructor
  · intro amount used same
    have real := uses amount used
    rw [same] at real
    exact real
  · intro kind own infinite
    have used : record.amount ∈ usedAmounts record := by
      rw [usedAmounts, kind]
      exact List.mem_cons_self
    have real := uses record.amount used
    rw [infinite] at real
    exact real

/-- An accepted chain brings only finite numbers into the ledger if and only if its
records are harmless. -/
theorem only_real_iff (env : Env) (doubles : DoubleText) (chain : List DoubleBlock)
    (accepted : Accepts env doubles chain) :
    OnlyReal env doubles chain ↔ ChainHarmless chain := by
  constructor
  · intro real block member record listed
    exact (real.amounts block member record listed).harmless
  · intro harmless
    have whole : ∃ state, connectChain env doubles chain = .ok state := by
      unfold Accepts validateConnectedChain at accepted
      split at accepted
      · cases accepted
      · obtain ⟨state, connected, -⟩ := map_ok_iff.mp accepted
        exact ⟨state, connected⟩
    obtain ⟨finish, connected⟩ := whole
    constructor
    · exact (connectChain_finite harmless connected).1
    · intro before block after records rest state place split partway
      unfold stateAfterRecords at partway
      obtain ⟨parentState, below, headed⟩ := bind_ok_iff.mp partway
      obtain ⟨-, -, recorded⟩ := bind_ok_iff.mp headed
      have early : ChainHarmless before := by
        intro other member
        exact harmless other (by simp [place, member])
      have own : ∀ record ∈ records, Harmless record := by
        intro record member
        exact harmless block (by simp [place]) record (by simp [split, member])
      exact (connectRecords_finite (connectChain_finite early below).2 own recorded).2

end Safire.Doubles

/-! ### A genesis block whose reward is not a number -/

namespace Safire.Sample

open Text Ieee Doubles

/-- `printf` and `atof` on the values that are no numbers. -/
def doubles : DoubleText where
  print := fun amount =>
    match amount with
    | .finite value => Sample.env.doubleText value
    | .posInf => "inf".toList
    | .negInf => "-inf".toList
    | .nan => "nan".toList
  atof := fun text =>
    if text = "inf".toList then .posInf
    else if text = "-inf".toList then .negInf
    else if text = "nan".toList then .nan
    else .finite (Sample.env.atof text)

def strangeRewardHash : Text :=
  hexText 64 0x576cc59a19a2c943021544efa43e44294a8b7983110b027e17f4c65179d7e410

def strangeReward : DoubleRecord :=
  { ofRecord issueRecord with
    amount := .nan
    hash := strangeRewardHash
    signature := upperHexText 128
      0x04ea12b2ad6320786647ca76caa57756df0bc23608544572759699d767f47962416f86faea25b57b1983106f6143cd6e207b0d0f7168139e67cf2eed73adcc50 }

def strangeRoot : Text :=
  hexText 64 0xc9e3c3e90d1ef90886cc0c81ca2fddbf387bffa35273393f4f33979e58ea57d8

def strangeGenesis : DoubleBlock :=
  { ofBlock genesis with
    recordsMerkleRoot := strangeRoot
    hash := hexText 64 0x9ed4f68731549b38b2b90ea4c85c4007cabbb856410d18f5a20146a0355925ec
    signature := upperHexText 128
      0x627e007e7770cc1ea18d38de48d9babbfee50da370e94abce71b645e50cfaa78379714b189443384c8dc7242da60949c41290569a7f5308ceb2554c2a0034ac5
    records := [ofRecord joinRecord, strangeReward] }

def strangeDigests : List (Text × Text) :=
  [(recordContent issueRecord "nan", strangeRewardHash),
   (joinRecordHash ++ strangeRewardHash, strangeRoot),
   (blockContent strangeGenesis.plain, strangeGenesis.hash)]

def strangeSignatures : List (Text × Text × Text) :=
  [(strangeReward.hash, strangeReward.signature, sender),
   (strangeGenesis.hash, strangeGenesis.signature, sender)]

local instance openSigned_lawfulBEq : LawfulBEq (Text × Text × Text) := inferInstance

/-- A network without a fixed genesis block. -/
def openEnv : Env :=
  { Sample.env with
    sha256 := fun content => (strangeDigests.lookup content).getD (Sample.env.sha256 content)
    verifyMessageCompressed := fun message signature publicKey =>
      if (message, signature, publicKey) ∈ strangeSignatures then 1
      else Sample.env.verifyMessageCompressed message signature publicKey
    config := { Sample.env.config with strictGenesis := false } }

theorem accepts_strangeGenesis : Doubles.Accepts openEnv doubles [strangeGenesis] ∧
    ∀ record ∈ strangeGenesis.records,
      Doubles.parseRecordJson openEnv doubles (Doubles.recordJSON doubles record) = record := by
  decide +kernel

/-- The block is accepted and read back from its text, and the reward is no number. -/
theorem strange_reward_accepted :
    Doubles.Accepts openEnv doubles [strangeGenesis] ∧
      (∀ record ∈ strangeGenesis.records,
        Doubles.parseRecordJson openEnv doubles (Doubles.recordJSON doubles record) = record) ∧
      ¬ OnlyReal openEnv doubles [strangeGenesis] := by
  refine ⟨accepts_strangeGenesis.1, accepts_strangeGenesis.2, fun real => ?_⟩
  have finite := real.amounts strangeGenesis List.mem_cons_self strangeReward (by
    rw [strangeGenesis]
    simp) .nan List.mem_cons_self
  exact finite

theorem only_real_strangeGenesis_iff :
    OnlyReal openEnv doubles [strangeGenesis] ↔ ChainHarmless [strangeGenesis] :=
  only_real_iff openEnv doubles [strangeGenesis] accepts_strangeGenesis.1

end Safire.Sample
