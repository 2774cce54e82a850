import VeloChain.Consensus.Execution
import VeloChain.Consensus.SealEncodings
import VeloChain.GameEngine.Combat
import VeloChain.GameEngine.CompletionSweep
import VeloChain.GameEngine.CraftConservation
import VeloChain.GameEngine.DropTable
import VeloChain.GameEngine.EventSchedule
import VeloChain.GameEngine.GroundItems
import VeloChain.GameEngine.QuestDeadEnds
import VeloChain.GameEngine.ShopAccounting
import VeloChain.GameEngine.Skills
import VeloChain.GameEngine.SpawnAccounting
import VeloChain.GameEngine.SupplyAndDemand
import VeloChain.GameEngine.Terrain
import VeloChain.GameEngine.TradeConsent
import VeloChain.GameEngine.WorldQueries
import VeloChain.Network.BanPermanence
import VeloChain.Network.Connections
import VeloChain.Network.PhaseEnds
import VeloChain.Network.Releases
import VeloChain.Network.ScoreDecay
import VeloChain.Node.BufferOverflow
import VeloChain.Node.ClusterAgreement
import VeloChain.Node.ConcurrentApply
import VeloChain.Node.CrashConsistency
import VeloChain.Node.FailedReorg
import VeloChain.Node.Fees
import VeloChain.Node.ForeignChain
import VeloChain.Node.ForkDetection
import VeloChain.Node.GasSelection
import VeloChain.Node.Genesis
import VeloChain.Node.HeaderCommitments
import VeloChain.Node.ReorgConvergence
import VeloChain.Node.RoundRobin
import VeloChain.Node.Shutdown
import VeloChain.Node.SingleDatabase
import VeloChain.Node.SnapshotImport
import VeloChain.Node.SubmittedActions
import VeloChain.Rpc.ExplorerWalk
import VeloChain.Rpc.SessionSafety
import VeloChain.Sdk.ConnectCalls
import VeloChain.Sdk.ConnectionView
import VeloChain.Sdk.Delivery
import VeloChain.Sdk.HashCorrectness
import VeloChain.Sdk.Reconnects
import VeloChain.Sdk.SessionRest
import VeloChain.Sdk.SigningAgreement
import VeloChain.State.FailedCommit
import VeloChain.Storage.BoundedCache
import VeloChain.Storage.PruningCoverage
import VeloChain.Storage.PruningRegressions
import VeloChain.Storage.WriteBatch
import VeloChain.TxPool.Counters
import VeloChain.TxPool.Interleaving
