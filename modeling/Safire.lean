import Safire.BlockBuilder
import Safire.Convergence
import Safire.HashBinding
import Safire.Issuance
import Safire.PublicNames
import Safire.RecoveryRuns
import Safire.Library.Runs
import Safire.IndexIntegrity
import Safire.Lineage
import Safire.PeerAdoption
import Safire.TipHash
import Safire.SlotLookups
import Safire.InstalledWalk
import Safire.AdoptedWalk
import Safire.CheckpointShortcut
import Safire.LedgerCache
import Safire.Library.Journal
import Safire.ResumedAdd
import Safire.DoubleAmounts
import Safire.RealAmounts
import Safire.Mempool
import Safire.MempoolReads
import Safire.MempoolRuns
import Safire.BestPathOrder
import Safire.LedgerCoverage
import Safire.LedgerDeltas
import Safire.WalletHistory
import Safire.AccountBalances
import Safire.CarryForward
import Safire.ForkCounts
import Safire.NextLookup
import Safire.RebuildTwice
import Safire.WalkedTip
import Safire.BlockAssembly
import Safire.Library.OrderedKeys
import Safire.Library.Sequence
import Safire.PendingSpends
import Safire.SpendableBalance
import Safire.WalletRequests
import Safire.ExchangeRecords
import Safire.Handoff
import Safire.HeartbeatAge
import Safire.Library.PairTree
import Safire.MerkleRoots
import Safire.QueueRuns
import Safire.RequestTransport
import Safire.CheckpointRuns
import Safire.CreatorEligibility
import Safire.ForkTally
import Safire.Library.Turns
import Safire.MigratedChain
import Safire.ParserBounds
import Safire.PeerSync
import Safire.PoppedChain
import Safire.RecordJourney
import Safire.UserIndex
import Safire.Wallet
import Safire.WalletRuns
import Safire.CreatorSchedule
import Safire.ScanChain
import Safire.ScanRuns
import Safire.AdmittedBlocks
import Safire.Connection
import Safire.PeerPulls
import Safire.PullBudget
import Safire.AcceptedTip
