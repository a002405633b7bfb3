import TrustFramework.Json.Reader
import TrustFramework.Json.Writer
import TrustFramework.Time.Timestamp
import TrustFramework.Digest.Sha256
import TrustFramework.Processing
import TrustFramework.Settings.Reading
import TrustFramework.Trace.Flow
import TrustFramework.Ingest.LogRecord
import TrustFramework.Command.Run
import TrustFramework.Main
import TrustFramework.Proofs.Entity.Collection
import TrustFramework.Proofs.Inheritance.Cycles
import TrustFramework.Proofs.Ingest.Stitching
import TrustFramework.Proofs.Ingest.Sessions
import TrustFramework.Proofs.Trace.Run
import TrustFramework.Proofs.Trace.Header
import TrustFramework.Proofs.Trace.Registry
import TrustFramework.Proofs.Trace.Groups
import TrustFramework.Proofs.Trace.Orchestration
import TrustFramework.Proofs.Inheritance.Order
import TrustFramework.Proofs.Trace.Filing
import TrustFramework.Proofs.Trace.Succession
import TrustFramework.Proofs.Trace.Repetition
import TrustFramework.Proofs.Trace.Absorption
import TrustFramework.Proofs.Consolidation
import TrustFramework.Proofs.Union
import TrustFramework.Proofs.Trace.Visits
import TrustFramework.Proofs.Trace.Failures
import TrustFramework.Proofs.Trace.Statebag
import TrustFramework.Proofs.Trace.Verdicts
import TrustFramework.Proofs.Trace.Interactions
import TrustFramework.Proofs.Trace.Executions
import TrustFramework.Proofs.Trace.Arrival
import TrustFramework.Proofs.Inheritance.Resolved
import TrustFramework.Proofs.Inheritance.Ancestry
import TrustFramework.Proofs.Inheritance.Lookup
import TrustFramework.Proofs.Policy.Definitions
import TrustFramework.Proofs.Policy.BuildingBlocks
import TrustFramework.Proofs.Policy.RoundTrip
import TrustFramework.Proofs.Inheritance.Chain
import TrustFramework.Proofs.Processing.Files
import TrustFramework.Proofs.Processing.Arrival
import TrustFramework.Proofs.Processing.Isolation
import TrustFramework.Proofs.Processing.Settled
import TrustFramework.Proofs.Processing.Overriding
import TrustFramework.Proofs.Trace.Flows
import TrustFramework.Proofs.Trace.Nodes
import TrustFramework.Proofs.Graph.Names
import TrustFramework.Proofs.Graph.Shape
import TrustFramework.Proofs.Recorder.Clips
import TrustFramework.Proofs.Trace.Independence
import TrustFramework.Proofs.Trace.FlowLogs
import TrustFramework.Proofs.Policy.Acceptance
import TrustFramework.Proofs.Recorder.Groups
import TrustFramework.Proofs.Entity.Associativity
import TrustFramework.Proofs.Policy.Merged
import TrustFramework.Proofs.Policy.Repeating
import TrustFramework.Proofs.Entity.Extraction
import TrustFramework.Proofs.Trace.Responses
import TrustFramework.Proofs.Trace.Pauses
import TrustFramework.Proofs.Trace.Distinctness
import TrustFramework.Proofs.Time.Rendering
import TrustFramework.Proofs.Inheritance.Hierarchy
import TrustFramework.Proofs.Trace.Selections
import TrustFramework.Proofs.Trace.Namesakes
import TrustFramework.Proofs.Graph.MainGraph
import TrustFramework.Proofs.Ingest.Blocks
import TrustFramework.Proofs.Policy.Conversion
import TrustFramework.Proofs.Trace.Notes
import TrustFramework.Proofs.Policy.Wrapping
