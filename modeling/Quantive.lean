import Quantive.ReadCommitted.Prog
import Quantive.ReadCommitted.World
import Quantive.ReadCommitted.Wp
import Quantive.ReadCommitted.Triple
import Quantive.ReadCommitted.Alone
import Quantive.ReadCommitted.Locking
import Quantive.ReadCommitted.Replay
import Quantive.Clock
import Quantive.Candles.Schema
import Quantive.Candles.Statements
import Quantive.Candles.Ingestion
import Quantive.PriorityRegister
import Quantive.Candles.Finality
import Quantive.Candles.Leases
import Quantive.Candles.CaggRefresh
import Quantive.Candles.Binance
import Quantive.Candles.GapRepair
import Quantive.Candles.HistoricalMerge
import Quantive.Candles.Fencing
import Quantive.Candles.DurableJobs
import Quantive.Candles.DurableWorkers
import Quantive.Candles.Coverage
import Quantive.Candles.RangeMerging
import Quantive.Candles.RevisionLedger
import Quantive.Candles.WriterLocks
import Quantive.Candles.Tolerance
import Quantive.Candles.HttpRequests
import Quantive.Candles.HistoricalSync
import Quantive.Candles.Offers
import Quantive.Candles.Promotion
import Quantive.Candles.StagedPath
import Quantive.Candles.BatchesAlone
import Quantive.Candles.Exchange
import Quantive.Candles.OpenKlines
import Quantive.Keyset
import Quantive.Intervals
import Quantive.Monitoring.Contracts
import Quantive.Monitoring.Incidents
import Quantive.Monitoring.Grouping
import Quantive.Monitoring.StateIncidents
import Quantive.Monitoring.RuntimeFailure
import Quantive.Monitoring.Recovery
import Quantive.Monitoring.IncidentLedger
import Quantive.Monitoring.HealthCause
import Quantive.Monitoring.Rebinding
import Quantive.Monitoring.ComparisonWindows
import Quantive.LiveStrategy.Contracts
import Quantive.LiveStrategy.Service
import Quantive.LiveStrategy.Runs
import Quantive.LiveStrategy.Positions
import Quantive.LiveStrategy.Contiguity
import Quantive.LiveStrategy.Health
import Quantive.WsSharding.Events
import Quantive.WsSharding.Batching
import Quantive.Exports.Schema
import Quantive.Exports.Jobs
import Quantive.Exports.Calls
import Quantive.Exports.Lifecycle
import Quantive.Exports.Worker
import Quantive.Exports.Artifacts
import Quantive.ReadCommitted.Embed
import Quantive.WsSharding.Lease
import Quantive.WsSharding.PersistenceFence
import Quantive.RaisingSort
import Quantive.PythonTuple
import Quantive.KeyedPairing
import Quantive.DecimalContext
import Quantive.Divergence.Contracts
import Quantive.Divergence.Compare
import Quantive.Divergence.Findings
import Quantive.Divergence.EvidenceOrder
import Quantive.Divergence.Removal
import Quantive.Divergence.Service
import Quantive.Divergence.EventStream
import Quantive.ReadCommitted.Tally
import Quantive.Candles.MergeRetries
import Quantive.Json.Text
import Quantive.Json.Stored
import Quantive.Strategies.Contracts
import Quantive.Strategies.Identity
import Quantive.Strategies.StoredModels
import Quantive.Strategies.Catalog
import Quantive.GreedyPlacement
import Quantive.Sha256
import Quantive.WsSharding.Assignment
import Quantive.Connectors.RateLimiter
import Quantive.Backtests.Contracts
import Quantive.SpacedIntervals
import Quantive.Candles.NormalForm
import Quantive.Candles.GapDetection
import Quantive.Candles.Scheduling
import Quantive.Candles.KlinePagination
import Quantive.Connectors.Normalizer
import Quantive.WsSharding.Pipeline
import Quantive.WsSharding.QueueAccounting
import Quantive.Candles.BucketAlignment
import Quantive.CursorRotation
import Quantive.LiveStrategy.Rotation
import Quantive.FairDispatch
import Quantive.LiveStrategy.Dispatch
import Quantive.CappedScan
import Quantive.Candles.GapScan
import Quantive.Backtests.Results
import Quantive.Backtests.Costs
import Quantive.Backtests.Payloads
import Quantive.Backtests.Identity
import Quantive.WsSharding.Conservation
import Quantive.Candles.RepairRuns
import Quantive.WsSharding.Custody
import Quantive.Monitoring.ExactlyOnce
import Quantive.ReadCommitted.Outcomes
import Quantive.Backtests.Acceptance
import Quantive.Backtests.Persistence
import Quantive.Backtests.OneResult
