import Memorial.Library.Rollback
import Memorial.Library.VectorMap
import Memorial.Library.Sorting
import Memorial.Library.RankedPrefix
import Memorial.Library.Lexicographic
import Memorial.Library.Counting
import Memorial.Library.Runs
import Memorial.Library.Simulation
import Memorial.Library.FallibleLoop
import Memorial.Library.LastMatch
import Memorial.Library.Bitemporal
import Memorial.Library.PrefixCode
import Memorial.Library.CodeUpTo
import Memorial.Library.OneDifference
import Memorial.Library.Rounding
import Memorial.Library.FloatingPoint
import Memorial.Library.InterchangeFormat
import Memorial.Runtime.Identity
import Memorial.Runtime.EventLog
import Memorial.Runtime.EventLogRuns
import Memorial.Runtime.Replay
import Memorial.Runtime.ReplayResume
import Memorial.Runtime.CheckpointChains
import Memorial.Runtime.MemoryHistory
import Memorial.Runtime.ThenKnown
import Memorial.Runtime.Chronicle
import Memorial.Runtime.Isolation
import Memorial.Runtime.Worldline
import Memorial.Runtime.WorldlineForest
import Memorial.Runtime.WorldlineTree
import Memorial.Runtime.CanonicalHash
import Memorial.Runtime.CanonicalEncoding
import Memorial.Runtime.CanonicalFloats
import Memorial.Runtime.HashedHistories
import Memorial.Runtime.DigestSensitivity
import Memorial.Schema.GraphSchema
import Memorial.Schema.SchemaValidation
import Memorial.Schema.JournalSchema
import Memorial.Schema.CppTypes
import Memorial.Schema.MemorialSchema
import Memorial.Storage.Columns
import Memorial.Storage.NodeStore
import Memorial.Storage.DeltaNodeStore
import Memorial.Storage.SelectionIndex
import Memorial.Storage.Histogram
import Memorial.Storage.StoreRuns
import Memorial.Storage.AdjacencyStore
import Memorial.Storage.DeltaStore
import Memorial.Storage.Snapshot
import Memorial.Storage.SnapshotReads
import Memorial.Storage.Session
import Memorial.Storage.DeltaInvariants
import Memorial.Storage.EdgeWorldlines
import Memorial.Storage.OpenEnded
import Memorial.Storage.SelectivityEstimates
import Memorial.Storage.HistogramCasts
import Memorial.Storage.TraversalEstimates
import Memorial.Storage.FailedNodeAppend
import Memorial.Storage.FailedEdgeAppend
import Memorial.Storage.EdgeRuns
import Memorial.Storage.History
import Memorial.Storage.HistoryReads
import Memorial.Storage.ColumnAgreement
import Memorial.Storage.ContentAgreement
import Memorial.Storage.ExactDegrees
import Memorial.Storage.ReadAgreement
import Memorial.Storage.BranchTransparency
import Memorial.Storage.Ancestry
import Memorial.Storage.ChainIntegrity
import Memorial.Query.Ast
import Memorial.Query.Executor
import Memorial.Query.Scan
import Memorial.Query.Ranking
import Memorial.Query.Signature
import Memorial.Query.SignatureReading
import Memorial.Query.SignatureCollisions
import Memorial.Query.Reference
import Memorial.Query.Optimizer
import Memorial.Query.NormalForm
import Memorial.Query.TemporalScope
import Memorial.Query.FailureCondition
import Memorial.Query.UnseenFailures
import Memorial.Query.HistoryQueries
import Memorial.Query.Walks
import Memorial.Query.UnusedKinds
import Memorial.Query.BranchQueries
import Memorial.Query.Explain
import Memorial.Query.PlanEstimates
import Memorial.Query.Answers
import Memorial.Query.RequiredColumns
