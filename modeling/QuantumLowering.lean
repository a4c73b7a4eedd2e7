import QuantumLowering.Compliance.Json
import QuantumLowering.Compliance.Report
import QuantumLowering.Compliance.Rules
import QuantumLowering.Compliance.Validator
import QuantumLowering.Configuration.Basic
import QuantumLowering.Configuration.Document
import QuantumLowering.Configuration.Load
import QuantumLowering.Context
import QuantumLowering.Document
import QuantumLowering.Double.Basic
import QuantumLowering.Double.Shortest
import QuantumLowering.Double.Text
import QuantumLowering.Failure
import QuantumLowering.Intrinsics
import QuantumLowering.Json.Basic
import QuantumLowering.Json.Reader
import QuantumLowering.Json.Writer
import QuantumLowering.Log
import QuantumLowering.Lowering.Qubits
import QuantumLowering.Lowering.Removal
import QuantumLowering.Lowering.Requirements
import QuantumLowering.Lowering.Results
import QuantumLowering.Lowering.Site
import QuantumLowering.Lowering.Stock
import QuantumLowering.Lowering.Substitution
import QuantumLowering.Lowering.Sweep
import QuantumLowering.Pass.Basic
import QuantumLowering.Pass.Checks
import QuantumLowering.Pass.Hook
import QuantumLowering.Pass.Registry
import QuantumLowering.Pass.Schedule
import QuantumLowering.Pipeline.Element
import QuantumLowering.Pipeline.Parser
import QuantumLowering.Pipeline.Token
import QuantumLowering.Profile.Basic
import QuantumLowering.Profile.Builder
import QuantumLowering.Profile.Json
import QuantumLowering.Program.Basic
import QuantumLowering.Program.Builder
import QuantumLowering.Program.ControlFlow
import QuantumLowering.Program.Defect
import QuantumLowering.Program.Function
import QuantumLowering.Program.Instruction
import QuantumLowering.Program.Json
import QuantumLowering.Program.Text
import QuantumLowering.Program.Value
import QuantumLowering.Program.Verify
import QuantumLowering.Proofs.Commute.Functions
import QuantumLowering.Proofs.Commute.Kinds
import QuantumLowering.Proofs.Commute.Passes
import QuantumLowering.Proofs.Commute.Programs
import QuantumLowering.Proofs.Commute.Steps
import QuantumLowering.Proofs.Commute.Sweeps
import QuantumLowering.Proofs.Compliance.Annotation
import QuantumLowering.Proofs.Compliance.Assembly
import QuantumLowering.Proofs.Compliance.Base
import QuantumLowering.Proofs.Compliance.Coverage
import QuantumLowering.Proofs.Compliance.Limits
import QuantumLowering.Proofs.Compliance.Needs
import QuantumLowering.Proofs.Compliance.Passes
import QuantumLowering.Proofs.Compliance.Rules
import QuantumLowering.Proofs.Compliance.Static
import QuantumLowering.Proofs.ControlFlow.Dominance
import QuantumLowering.Proofs.ControlFlow.Order
import QuantumLowering.Proofs.ControlFlow.Search
import QuantumLowering.Proofs.ControlFlow.Stack
import QuantumLowering.Proofs.ControlFlow.Walk
import QuantumLowering.Proofs.Custody.Arrays
import QuantumLowering.Proofs.Custody.Basic
import QuantumLowering.Proofs.Custody.Elements
import QuantumLowering.Proofs.Custody.Ranges
import QuantumLowering.Proofs.Custody.Reentry
import QuantumLowering.Proofs.Custody.Refusal
import QuantumLowering.Proofs.Custody.ReleaseTwice
import QuantumLowering.Proofs.Custody.Reuse
import QuantumLowering.Proofs.Custody.Tracking
import QuantumLowering.Proofs.Demand.Aliasing
import QuantumLowering.Proofs.Demand.Basic
import QuantumLowering.Proofs.Demand.Exact
import QuantumLowering.Proofs.Demand.Lowering
import QuantumLowering.Proofs.Demand.Pool
import QuantumLowering.Proofs.Demand.Reuse
import QuantumLowering.Proofs.Demand.Steps
import QuantumLowering.Proofs.Execution.Allocation
import QuantumLowering.Proofs.Execution.Basic
import QuantumLowering.Proofs.Execution.Lowering
import QuantumLowering.Proofs.Execution.Simulation
import QuantumLowering.Proofs.Json.Decoding
import QuantumLowering.Proofs.Json.RoundTrip
import QuantumLowering.Proofs.Lowering.Abort
import QuantumLowering.Proofs.Lowering.Dominance
import QuantumLowering.Proofs.Lowering.Joins
import QuantumLowering.Proofs.Lowering.Qubits
import QuantumLowering.Proofs.Lowering.Removal
import QuantumLowering.Proofs.Lowering.Renumbering
import QuantumLowering.Proofs.Lowering.Results
import QuantumLowering.Proofs.Lowering.Rewriting
import QuantumLowering.Proofs.Lowering.Run
import QuantumLowering.Proofs.Lowering.Tracing
import QuantumLowering.Proofs.Lowering.Unused
import QuantumLowering.Proofs.Lowering.Visit
import QuantumLowering.Proofs.Lowering.WellFormed
import QuantumLowering.Proofs.Pass.Accounts
import QuantumLowering.Proofs.Pass.Parameters
import QuantumLowering.Proofs.Pass.Resolution
import QuantumLowering.Proofs.Pass.Run
import QuantumLowering.Proofs.Pass.Sequence
import QuantumLowering.Proofs.Pass.Skipping
import QuantumLowering.Proofs.Pass.Soundness
import QuantumLowering.Proofs.Pass.Transparency
import QuantumLowering.Proofs.Pass.Twice
import QuantumLowering.Proofs.Pipeline.Formatting
import QuantumLowering.Proofs.Pipeline.Grammar
import QuantumLowering.Proofs.Pipeline.Lexing
import QuantumLowering.Proofs.Pipeline.Parsing
import QuantumLowering.Proofs.Profile.Hooks
import QuantumLowering.Proofs.Profile.Lifecycle
import QuantumLowering.Proofs.Program.Building
import QuantumLowering.Proofs.Program.Defects
import QuantumLowering.Proofs.Program.Functions
import QuantumLowering.Proofs.Program.RoundTrip
import QuantumLowering.Proofs.Program.WellFormed
import QuantumLowering.Proofs.Resource.Binding
import QuantumLowering.Proofs.Resource.History
import QuantumLowering.Proofs.Resource.Live
import QuantumLowering.Proofs.Resource.Peak
import QuantumLowering.Proofs.Resource.Table
import QuantumLowering.Resource.Basic
import QuantumLowering.Resource.Json
import QuantumLowering.Resource.Pool
import QuantumLowering.Resource.Tracker
import QuantumLowering.SortedMap
import QuantumLowering.Text.Digits
import QuantumLowering.Text.Quoted
import QuantumLowering.Text.Shapeless
import QuantumLowering.Text.Trim
import QuantumLowering.Yaml.Basic
import QuantumLowering.Yaml.Folding
import QuantumLowering.Yaml.Number
import QuantumLowering.Yaml.Reader
import QuantumLowering.Yaml.Source
import QuantumLowering.Yaml.Token.Basic
import QuantumLowering.Yaml.Token.Property
import QuantumLowering.Yaml.Token.Scalar
import QuantumLowering.Yaml.Token.Scan
import QuantumLowering.Yaml.Writer
