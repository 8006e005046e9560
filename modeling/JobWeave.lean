import JobWeave.Body
import JobWeave.Body.Argument
import JobWeave.Body.Effect
import JobWeave.Body.Shared
import JobWeave.Body.Spelling
import JobWeave.Body.Validate
import JobWeave.Bytes.Reader
import JobWeave.Bytes.Writer
import JobWeave.Chain.Analysis
import JobWeave.Chain.Basic
import JobWeave.Codec.Decode
import JobWeave.Codec.Encode
import JobWeave.Command.Arguments
import JobWeave.Command.Config
import JobWeave.Command.FileReport
import JobWeave.Command.Help
import JobWeave.Command.Path
import JobWeave.Command.Run
import JobWeave.Command.Task
import JobWeave.Command.Toml
import JobWeave.Command.Toml.Entry
import JobWeave.Command.Toml.Scalar
import JobWeave.Command.Toml.Text
import JobWeave.Decimal.Float
import JobWeave.Decimal.Read
import JobWeave.Decimal.Shortest
import JobWeave.Decimal.Style
import JobWeave.Diagnostic.Basic
import JobWeave.Diagnostic.Catalog
import JobWeave.Document.Cbor
import JobWeave.Document.Indented
import JobWeave.Document.Json
import JobWeave.Document.Read
import JobWeave.Document.Script
import JobWeave.Document.Show
import JobWeave.Document.ShowJob
import JobWeave.Document.Yaml
import JobWeave.Emitter
import JobWeave.Failure
import JobWeave.Flow.Cursor
import JobWeave.Flow.Delegate
import JobWeave.Flow.Origin
import JobWeave.Framework.Draft
import JobWeave.Framework.Library
import JobWeave.Framework.Names
import JobWeave.Instr
import JobWeave.Listing
import JobWeave.Main
import JobWeave.Member
import JobWeave.Module
import JobWeave.Opcode
import JobWeave.Pass.Report
import JobWeave.Pass.Run
import JobWeave.Pass.Transform
import JobWeave.Plan.Basic
import JobWeave.Plan.Captures
import JobWeave.Plan.Closure
import JobWeave.Plan.Components
import JobWeave.Plan.Entry
import JobWeave.Plan.Lambda
import JobWeave.Plan.Markers
import JobWeave.Plan.Parameters
import JobWeave.Plan.Query
import JobWeave.Plan.Synthesis
import JobWeave.Plan.SystemCalls
import JobWeave.Sample.Basic
import JobWeave.Sample.Chain
import JobWeave.Sample.Scenario
import JobWeave.Sample.Tick
import JobWeave.Splice.CallSite
import JobWeave.Splice.Closure
import JobWeave.Splice.Hook
import JobWeave.Text.Caseless
import JobWeave.Text.Category
import JobWeave.Text.Cluster
import JobWeave.Text.Moment
import JobWeave.Text.Numeral
import JobWeave.Text.Place
import JobWeave.Text.Quoted
import JobWeave.Text.Record
import JobWeave.Text.Runs
import JobWeave.Text.Screen
import JobWeave.Text.Template
import JobWeave.TypeRef
import JobWeave.Workspace.Basic
import JobWeave.Workspace.Import
import JobWeave.Workspace.Universe
import JobWeave.Workspace.Weave
import JobWeave.Workspace.World
import JobWeave.Proofs.Body.Heights
import JobWeave.Proofs.Chain.Supplier
import JobWeave.Proofs.Chain.Thread
import JobWeave.Proofs.Codec.RoundTrip
import JobWeave.Proofs.Pass.Module
import JobWeave.Proofs.Pass.Return
import JobWeave.Proofs.Body.Stores
import JobWeave.Proofs.Plan.Stores
import JobWeave.Proofs.Plan.Fields
import JobWeave.Proofs.Splice.Editing
import JobWeave.Proofs.Workspace.Development
import JobWeave.Proofs.Splice.Development
import JobWeave.Proofs.Splice.Conversion
import JobWeave.Proofs.Splice.Allocation
import JobWeave.Proofs.Pass.Again
import JobWeave.Proofs.Codec.Parts
import JobWeave.Proofs.Codec.Acceptance
import JobWeave.Proofs.Workspace.Index
import JobWeave.Proofs.Workspace.Retention
import JobWeave.Proofs.Workspace.Keys
import JobWeave.Proofs.Workspace.TypeNames
import JobWeave.Proofs.World.Splicing
import JobWeave.Proofs.World.Planning
import JobWeave.Proofs.Workspace.BuiltIn
import JobWeave.Proofs.World.Trust
import JobWeave.Proofs.World.Restoring
import JobWeave.Proofs.Flow.Runs
import JobWeave.Proofs.Body.Straight
import JobWeave.Proofs.Pass.Creation
import JobWeave.Proofs.Plan.Cloning
import JobWeave.Proofs.Plan.Captures
import JobWeave.Proofs.Plan.QueryCode
import JobWeave.Proofs.Splice.Confinement
import JobWeave.Proofs.Plan.Markers
import JobWeave.Proofs.Splice.Stack
import JobWeave.Proofs.Body.Emission
import JobWeave.Proofs.Body.Spelling
import JobWeave.Proofs.Objects.Independence
import JobWeave.Proofs.Plan.EntityLoop
import JobWeave.Proofs.Codec.Narrowing
import JobWeave.Proofs.Flow.Erasing
import JobWeave.Proofs.Flow.Computation
import JobWeave.Proofs.Workspace.Walks
import JobWeave.Proofs.Workspace.Lookups
import JobWeave.Proofs.Bytes.Primitives
import JobWeave.Proofs.Codec.Extent
import JobWeave.Proofs.World.Showing
import JobWeave.Proofs.Splice.Bindings
import JobWeave.Proofs.Pass.Clearing
