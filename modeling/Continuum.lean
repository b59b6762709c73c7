import Continuum.Library.TransitionSystem
import Continuum.Library.Table
import Continuum.Library.Outcome
import Continuum.Library.LeaseLog
import Continuum.Library.RoundRobin
import Continuum.Library.Cycles
import Continuum.Library.Components
import Continuum.Library.Peeling
import Continuum.Library.JsonString
import Continuum.Library.MemoSearch
import Continuum.Library.Tiling
import Continuum.Library.Naming
import Continuum.Library.StableSort
import Continuum.Library.Lineage
import Continuum.Library.Threads
import Continuum.Library.Worklist
import Continuum.Library.Latest
import Continuum.Library.SelfMeasure
import Continuum.Library.Tally
import Continuum.Library.StreamDecoder
import Continuum.Json
import Continuum.Queue.Job
import Continuum.Text
import Continuum.TextOrder
import Continuum.Queue.Enqueue
import Continuum.Queue.Claim
import Continuum.Queue.Lease
import Continuum.Queue.Reclaim
import Continuum.Queue.Reconcile
import Continuum.Queue.Authority
import Continuum.Queue.Conservation
import Continuum.Queue.Holder
import Continuum.Queue.Rows
import Continuum.Scroll
import Continuum.Worker.Receipts
import Continuum.Worker.World
import Continuum.Worker.Scribe
import Continuum.Worker.Process
import Continuum.Worker.Effect
import Continuum.Worker.Fencing
import Continuum.Worker.Shape
import Continuum.Worker.Soundness
import Continuum.Worker.Notification
import Continuum.Planner.Evidence
import Continuum.Planner.Packing
import Continuum.Planner.Reach
import Continuum.Planner.Law
import Continuum.Planner.Packet
import Continuum.Planner.Direct
import Continuum.Planner.DirectLaw
import Continuum.Recall.BookVisibility
import Continuum.Recall.Operational
import Continuum.Segments.Metadata
import Continuum.Segments.Catalog
import Continuum.Segments.Transactions
import Continuum.Segments.Effects
import Continuum.Segments.Tiling
import Continuum.Knowledge.Record
import Continuum.Knowledge.Files
import Continuum.Knowledge.Coordination
import Continuum.Knowledge.Experience
import Continuum.Knowledge.Workspaces
import Continuum.Knowledge.Commit
import Continuum.Knowledge.Versions
import Continuum.Knowledge.Lineages
import Continuum.Knowledge.Leases
import Continuum.Knowledge.Heads
import Continuum.Knowledge.Codec
import Continuum.Knowledge.TemporalFacts
import Continuum.Knowledge.Corrections
import Continuum.Knowledge.Staleness
import Continuum.Knowledge.Propagation
import Continuum.Authority.Card
import Continuum.Authority.Catalog
import Continuum.Authority.Integrity
import Continuum.Authority.Boundary
import Continuum.Authority.Topology
import Continuum.Authority.Agreement
import Continuum.Authority.Components
import Continuum.Atomic.RoundTrip
import Continuum.Context.Messages
import Continuum.Context.Grouping
import Continuum.Context.Selection
import Continuum.Library.HashChain
import Continuum.Operations.Payload
import Continuum.Operations.Ledger
import Continuum.Operations.Recovery
import Continuum.Operations.Chain
import Continuum.Operations.Receipts
import Continuum.Operations.Crash
import Continuum.Operations.Replay
import Continuum.Archive.Runs
import Continuum.Recall.Packets
import Continuum.Recall.Fitting
import Continuum.Recall.Excerpts
import Continuum.Recall.Windows
import Continuum.Bundle.Member
import Continuum.Bundle.MemberLaw
import Continuum.Bundle.Publication
import Continuum.Bundle.PublicationLaw
import Continuum.Review.Validation
import Continuum.Review.ValidationLaw
import Continuum.Review.DiffEvidence
import Continuum.Review.DiffLaw
import Continuum.ToolOutputs.Slices
import Continuum.LocalModel.Circuit
import Continuum.LocalModel.CircuitLaw
import Continuum.Books.Tiering
import Continuum.Books.TieringLaw
import Continuum.Bundle.Names
import Continuum.Bundle.NamesLaw
import Continuum.Config.Optimize
import Continuum.Config.SizeLaw
import Continuum.Config.OptimizeLaw
import Continuum.Queue.Fairness
import Continuum.Library.Bisection
import Continuum.Library.JsonText
import Continuum.LocalModel.Request
import Continuum.LocalModel.RequestLaw
import Continuum.Queue.Bypass
import Continuum.Knowledge.Import
import Continuum.Knowledge.ImportLaw
import Continuum.Knowledge.ImportRuns
import Continuum.Writer.Claim
import Continuum.Writer.ClaimLaw
import Continuum.Review.Ingest
import Continuum.Review.IngestLaw
import Continuum.Graph.Edges
import Continuum.Graph.EdgesLaw
