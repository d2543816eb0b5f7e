import Collector.Lib.Table
import Collector.Lib.Machine
import Collector.Lib.Lease
import Collector.Lib.Delivery
import Collector.Lib.Commuting
import Collector.Lib.Sorting
import Collector.Lib.Pairing
import Collector.Lib.JsonText
import Collector.Lib.Bson
import Collector.Lib.Json
import Collector.Lib.JsonRoundTrip
import Collector.Lib.JsonOrder
import Collector.Lib.Kernel
import Collector.Lib.TokenBucket
import Collector.Lib.ReadCommitted
import Collector.Lib.Outcomes
import Collector.Lib.RelyGuarantee
import Collector.Lib.WatchedRow
import Collector.Lib.GrantedRuns
import Collector.Lib.Schedule
import Collector.Persistence.Core
import Collector.Persistence.AuditLog
import Collector.Persistence.Pools
import Collector.Persistence.Instances
import Collector.Workers.ClaimPass
import Collector.Workers.RoundRobin
import Collector.Workers.FleetFrames
import Collector.Workers.RuntimeConfig
import Collector.Workers.Heartbeat
import Collector.Workers.SelfFencing
import Collector.Workers.LateFence
import Collector.Workers.ScaleDiscipline
import Collector.Workers.ScaleVerified
import Collector.Workers.ScaleRequests
import Collector.Workers.ScaleRuns
import Collector.Workers.InstanceRows
import Collector.Workers.DrainBarrier
import Collector.Workers.DrainIntent
import Collector.Workers.ActiveTasks
import Collector.Workers.AttemptTracking
import Collector.Persistence.LeaseColumns
import Collector.Persistence.LeaseRuns
import Collector.Persistence.Queue
import Collector.Persistence.QueueEffect
import Collector.Persistence.QueueRuns
import Collector.Persistence.UploadClaims
import Collector.Persistence.UploadFencing
import Collector.Persistence.Projection.Rows
import Collector.Persistence.Projection.Contracts
import Collector.Persistence.Projection.Parse
import Collector.Persistence.Projection.Tasks
import Collector.Persistence.Projection.Acknowledge
import Collector.Persistence.Projection.Outbox
import Collector.Persistence.Projection.Machine
import Collector.Persistence.Projection.TaskEffect
import Collector.Persistence.Projection.Change
import Collector.Persistence.Projection.Writes
import Collector.Persistence.Projection.Commit
import Collector.Persistence.Projection.Versions
import Collector.Persistence.Projection.Confirmation
import Collector.Persistence.Projection.VersionRuns
import Collector.Persistence.Projection.Contents
import Collector.Persistence.Projection.Commands
import Collector.Persistence.Projection.Delivery
import Collector.Persistence.Projection.DeliveryRuns
import Collector.Persistence.Projection.Receipts
import Collector.Persistence.Projection.ExactlyOnce
import Collector.Persistence.Mongo.ReceiptDocuments
import Collector.Persistence.Mongo.ReceiptReplay
import Collector.Persistence.Projection.Observed
import Collector.Persistence.Projection.OrderIndependence
import Collector.Persistence.Projection.TaskLeases
import Collector.Persistence.Fencing
import Collector.Persistence.Limiter
import Collector.Persistence.LimiterEffect
import Collector.Persistence.LimiterRuns
import Collector.Persistence.LimiterSafety
import Collector.Persistence.LimiterClock
import Collector.Persistence.LimiterPolling
import Collector.Persistence.Cursors
import Collector.Persistence.CursorChain
import Collector.Storage.Upload
import Collector.Storage.UploadInvariant
import Collector.Storage.UploadSafety
import Collector.Contracts.Temporal
import Collector.Contracts.Bitemporal
import Collector.Contracts.Resolution
import Collector.Contracts.Supersession
import Collector.Contracts.Membership
import Collector.Contracts.Replay
import Collector.Contracts.ReplayOrder
import Collector.Contracts.Blocks
import Collector.Contracts.Canonical
import Collector.Contracts.CanonicalForm
import Collector.Contracts.Equality
import Collector.Contracts.Dump
import Collector.Contracts.Release
import Collector.Contracts.ReleaseFields
import Collector.Contracts.ReleaseImmutable
import Collector.Lib.Script
import Collector.Lib.Ipv4Text
import Collector.Lib.Labels
import Collector.Fetch.Urls
import Collector.Fetch.Ssrf
import Collector.Fetch.Guard
import Collector.Fetch.Classify
import Collector.Fetch.Config
import Collector.Fetch.Decoding
import Collector.Lib.Processes
import Collector.Fetch.Records
import Collector.Fetch.Handler
import Collector.Fetch.RouteFailures
import Collector.Fetch.RouteCircuit
import Collector.Fetch.BodyBounds
import Collector.Fetch.BodyOverrun
import Collector.Fetch.Client
import Collector.Fetch.GuardedRequests
import Collector.Fetch.RateLimited
import Collector.Fetch.ReaderCodes
import Collector.Fetch.RawCommits
import Collector.Fetch.HeaderWidths
import Collector.Fetch.PermitLeaks
import Collector.Fetch.NumericLabels
import Collector.Fetch.NumericHosts
import Collector.Lib.KeysetScan
import Collector.Persistence.Projection.EntityScan
import Collector.Lib.Regex
import Collector.Translation.Text
import Collector.Translation.Segments
import Collector.Translation.Patterns
import Collector.Translation.Preservation
import Collector.Translation.Brackets
import Collector.Translation.Masking
import Collector.Translation.Smuggling
import Collector.Translation.ChunkPairs
import Collector.Translation.Segmenter
import Collector.Translation.SegmentText
import Collector.Translation.TrimmedRuns
import Collector.Translation.RoundTrip
import Collector.Contracts.Uuid7
import Collector.Contracts.Intervals
import Collector.Contracts.ReplayIndexes
import Collector.Contracts.ReleaseStates
import Collector.Contracts.SupersessionCycles
import Collector.Contracts.IdentityHash
import Collector.Lib.Cancellation
import Collector.Persistence.Projection.EventRows
import Collector.Persistence.Projection.CommandJson
import Collector.Persistence.Projection.Replays
import Collector.Lib.Decimal
import Collector.Lib.DecimalText
import Collector.Contracts.DecimalFormat
import Collector.Lib.Rounding
import Collector.Persistence.LimiterRetry
import Collector.Lib.Dict
import Collector.Translation.Memory
import Collector.Translation.Planner
import Collector.Translation.Pipeline
import Collector.Translation.PlanRuns
import Collector.Translation.AllOrNothing
import Collector.Translation.Retries
import Collector.Fetch.DenylistLines
import Collector.Lib.RegexRuns
import Collector.Workers.Redaction
import Collector.Workers.RedactedPasswords
import Collector.Lib.UrlText
import Collector.Workers.AppliedCapacity
import Collector.Lib.LookAheadScan
import Collector.Persistence.Mongo.ReceiptPages
import Collector.Translation.NumberFormats
import Collector.Persistence.Mongo.ValidationSwitch
import Collector.Translation.PlaceholderScan
import Collector.Translation.Unmasking
import Collector.Lib.Nesting
import Collector.Translation.TagStructure
import Collector.Translation.RunTexts
import Collector.Translation.RunMoves
import Collector.Translation.VisibleText
import Collector.Persistence.Mongo.Validators
import Collector.Persistence.Mongo.SupportedSchemas
import Collector.Persistence.Mongo.ProducedEntries
import Collector.Persistence.Mongo.ValidatorMeaning
import Collector.Lib.LabelledRuns
import Collector.Workers.SchedulerLease
import Collector.Workers.SchedulerSessions
import Collector.Workers.SingletonScheduler
import Collector.Persistence.Mongo.Migrations
import Collector.Persistence.Mongo.MigrationRuns
import Collector.Persistence.Mongo.MigrationFiles
import Collector.Persistence.Sources
import Collector.Persistence.SourceRevisions
import Collector.Persistence.Partitions
import Collector.Persistence.PartitionRows
import Collector.Persistence.PartitionRuns
import Collector.Persistence.Projection.Reconciliation
import Collector.Persistence.CrawlRuns
