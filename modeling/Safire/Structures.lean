/-
Records, blocks and the services the node takes from outside the repository.

The fields are those of `CFunctions::record_structure`, `block_structure` and
`CNetworkConfig` that the ledger, the validators and the block store read.
Amounts and fees are exact rationals.
-/

import Safire.Text

namespace Safire

inductive TransactionType where
  | joinNetwork
  | issueCurrency
  | transferCurrency
  | carryForward
  | periodSummary
  | vote
  | heartBeat
  | updateName
  deriving DecidableEq, Repr

/-- The enumerator's value, as `lexical_cast` prints it. -/
def TransactionType.code : TransactionType → Int
  | .joinNetwork => 0
  | .issueCurrency => 1
  | .transferCurrency => 2
  | .carryForward => 3
  | .periodSummary => 4
  | .vote => 5
  | .heartBeat => 6
  | .updateName => 7

structure Record where
  network : Text
  time : Text
  transactionType : TransactionType
  nonce : Int
  amount : Rat
  fee : Rat
  senderPublicKey : Text
  recipientPublicKey : Text
  hash : Text
  signature : Text
  name : Text
  value : Text
  deriving DecidableEq

structure Block where
  network : Text
  number : Int
  time : Text
  previousBlockId : Int
  previousBlockHash : Text
  recordsMerkleRoot : Text
  creatorKey : Text
  hash : Text
  signature : Text
  records : List Record
  deriving DecidableEq

/-- A `block_structure` that a lookup leaves unfilled: `number` is set to -1,
the strings are empty, and no caller reads the other fields. -/
def Block.missing : Block where
  network := []
  number := -1
  time := []
  previousBlockId := 0
  previousBlockHash := []
  recordsMerkleRoot := []
  creatorKey := []
  hash := []
  signature := []
  records := []

structure NetworkConfig where
  genesisBlock : Int
  genesisHash : Text
  recoveryPublicKey : Text
  strictGenesis : Bool

namespace NetworkConfig

def hasExpectedGenesis (config : NetworkConfig) : Bool :=
  config.strictGenesis && decide (0 < config.genesisBlock) && decide (0 < config.genesisHash.length)

def genesisMatches (config : NetworkConfig) (blockNumber : Int) (blockHash : Text) : Bool :=
  if config.hasExpectedGenesis = false then true
  else decide (config.genesisBlock = blockNumber) && decide (config.genesisHash = blockHash)

end NetworkConfig

/-- What the code calls but does not define: the hexadecimal SHA-256 digest and
the ECDSA check of OpenSSL, the printing and reading of a `double`, and the
parsed `safire.conf`. `unsetType` is the value of a `transaction_type` that
`parseRecordJson` leaves unassigned. -/
structure Env where
  sha256 : Text → Text
  verifyMessageCompressed : Text → Text → Text → Int
  doubleText : Rat → Text
  atof : Text → Rat
  unsetType : TransactionType
  config : NetworkConfig

def heartbeatValidBlocks : Int := 5760
def heartbeatRenewBlocks : Int := 5520
def carryForwardPeriodBlocks : Int := 172800
def carryForwardReward : Rat := 1
def maxRecordNameBytes : Nat := 64
def maxRecordValueBytes : Nat := 256
def maxRecordNetworkBytes : Nat := 32
def maxRecordTimeBytes : Nat := 32
def maxRecordKeyBytes : Nat := 256
def maxRecordHashBytes : Nat := 128
def maxRecordSignatureBytes : Nat := 512
def maxRecordJsonBytes : Nat := 2048
def maxBlockRecords : Nat := 1000
def maxBlockJsonBytes : Nat := 131072

/-- The slack that every balance comparison allows. -/
def balanceTolerance : Rat := 1 / 1000000

end Safire
