import Exchange.Types
import Exchange.OrderedMap
import Exchange.Reflection
import Exchange.Runs
import Exchange.Components
import Exchange.Fairness
import Exchange.Greedy
import Exchange.BigEndian
import Exchange.ByteMemory
import Exchange.ObjectPool
import Exchange.LinkedPool
import Exchange.PoolLayout
import Exchange.PoolMemory
import Exchange.PoolRefinement
import Exchange.SymbolTable
import Exchange.Matching
import Exchange.PriceLevels
import Exchange.MatchWalk
import Exchange.EngineSteps
import Exchange.EngineInvariant
import Exchange.OrderIndex
import Exchange.SymbolIsolation
import Exchange.PriceTimePriority
import Exchange.VolumeLedger
import Exchange.SelfTrading
import Exchange.OnePass
import Exchange.FillOrKill
import Exchange.BestExecution
import Exchange.LiquidityScan
import Exchange.Json
import Exchange.JsonRoundTrip
import Exchange.JsonPrefix
import Exchange.JsonGrammar
import Exchange.JsonAcceptance
import Exchange.TornDocument
import Exchange.Checksum
import Exchange.BitwiseCrc
import Exchange.ByteErrors
import Exchange.Recovery
import Exchange.WalLog
import Exchange.Snapshot
import Exchange.Sharded
import Exchange.TornTail
import Exchange.GroupCommit
import Exchange.WalDamage
import Exchange.ShardedSteps
import Exchange.ShardComponents
import Exchange.IngressReplay
import Exchange.RiskOnBook
import Exchange.TradeLimits
import Exchange.NotionalLimit
import Exchange.Twins
import Exchange.EventNumbers
import Exchange.OutputBound
import Exchange.Mirror
import Exchange.SnapshotRestore
import Exchange.SnapshotValidation
import Exchange.LiveIndex
import Exchange.ShardReplay
import Exchange.CrashRecovery
import Exchange.SnapshotContinuation
import Exchange.ReplayedCounter
import Exchange.Restart
import Exchange.RestartReplay
import Exchange.SnapshotCrash
import Exchange.Market
import Exchange.Follower
import Exchange.NodePool
import Exchange.ShardTransparency
import Exchange.SpscQueue
import Exchange.SpscSteps
import Exchange.Pipeline
import Exchange.PipelineInbound
import Exchange.PipelineOutbound
import Exchange.PipelineLinear
import Exchange.PipelineCapacity
import Exchange.PipelineProgress
import Exchange.PipelineCrash
import Exchange.PipelineMarket
import Exchange.Gateway
import Exchange.Sequencing
import Exchange.Protocol
import Exchange.WireFormat
import Exchange.OrderEntry
import Exchange.StreamReader
import Exchange.Frames
import Exchange.FrameIntegrity
import Exchange.BurstErrors
import Exchange.Reassembly
import Exchange.Sessions
import Exchange.Venue
