import PointerTriage.BoundCheck.Estimate
import PointerTriage.BoundCheck.Score
import PointerTriage.BoundCheck.Search
import PointerTriage.CallGraph
import PointerTriage.CommandLine.Arguments
import PointerTriage.CommandLine.Run
import PointerTriage.Context
import PointerTriage.ControlFlow.Basic
import PointerTriage.ControlFlow.Build
import PointerTriage.Decimal.Binary64
import PointerTriage.Decimal.Shortest
import PointerTriage.Decimal.Text
import PointerTriage.Failure
import PointerTriage.Files
import PointerTriage.Graph.Edges
import PointerTriage.Graph.Layers
import PointerTriage.Graph.Unfold
import PointerTriage.HostFacts
import PointerTriage.IdMap
import PointerTriage.IdSet
import PointerTriage.Ir.Basic
import PointerTriage.Ir.Json
import PointerTriage.Ir.Tables
import PointerTriage.Ir.Text
import PointerTriage.Json.Basic
import PointerTriage.Json.Decode
import PointerTriage.Json.Number
import PointerTriage.Json.Reader
import PointerTriage.Json.Token
import PointerTriage.Json.Writer
import PointerTriage.Main
import PointerTriage.Outcome.Basic
import PointerTriage.Outcome.Json
import PointerTriage.PointsTo.Basic
import PointerTriage.PointsTo.Constraint
import PointerTriage.PointsTo.Solver
import PointerTriage.Program.Basic
import PointerTriage.Program.Draft
import PointerTriage.Proofs.BoundCheck.Agreement
import PointerTriage.Proofs.BoundCheck.Guards
import PointerTriage.Proofs.BoundCheck.Indirection
import PointerTriage.Proofs.BoundCheck.Nearest
import PointerTriage.Proofs.BoundCheck.Paths
import PointerTriage.Proofs.ControlFlow.Depths
import PointerTriage.Proofs.ControlFlow.Points
import PointerTriage.Proofs.ControlFlow.Refinement
import PointerTriage.Proofs.ControlFlow.Transfers
import PointerTriage.Proofs.Decimal.Digits
import PointerTriage.Proofs.Decimal.Nearest
import PointerTriage.Proofs.Decimal.Order
import PointerTriage.Proofs.Decimal.Writing
import PointerTriage.Proofs.Graph.Collection
import PointerTriage.Proofs.Graph.Distance
import PointerTriage.Proofs.Graph.Edges
import PointerTriage.Proofs.Graph.Reachability
import PointerTriage.Proofs.Ir.DirectUsers
import PointerTriage.Proofs.Ir.Redirection
import PointerTriage.Proofs.Ir.Sound
import PointerTriage.Proofs.Json.Lexing
import PointerTriage.Proofs.Json.Reading
import PointerTriage.Proofs.Json.Settling
import PointerTriage.Proofs.Outcome.Enabling
import PointerTriage.Proofs.Outcome.Order
import PointerTriage.Proofs.Outcome.Provenance
import PointerTriage.Proofs.Outcome.Selection
import PointerTriage.Proofs.Outcome.Statistics
import PointerTriage.Proofs.PointsTo.Derivation
import PointerTriage.Proofs.PointsTo.Objects
import PointerTriage.Proofs.PointsTo.Passes
import PointerTriage.Proofs.PointsTo.Traces
import PointerTriage.Proofs.PointsTo.Updates
import PointerTriage.Proofs.Program.Allocations
import PointerTriage.Proofs.Program.Callees
import PointerTriage.Proofs.Program.CrossLinks
import PointerTriage.Proofs.Program.Extension
import PointerTriage.Proofs.Program.Parts
import PointerTriage.Proofs.Program.Redirection
import PointerTriage.Proofs.Program.Stores
import PointerTriage.Proofs.Ranking.Coverage
import PointerTriage.Proofs.Ranking.Entries
import PointerTriage.Proofs.Ranking.Invariance
import PointerTriage.Proofs.Ranking.Merging
import PointerTriage.Proofs.Rules.UnboundedAlloc
import PointerTriage.Proofs.Saturation
import PointerTriage.Proofs.Sets
import PointerTriage.Proofs.Settings.Building
import PointerTriage.Proofs.Settings.Fields
import PointerTriage.Proofs.Settings.Grammar
import PointerTriage.Proofs.Settings.RoundTrip
import PointerTriage.Proofs.Shape.Marks
import PointerTriage.Proofs.Shape.Settling
import PointerTriage.Proofs.Shape.Sizes
import PointerTriage.Proofs.Snapshot.Acceptance
import PointerTriage.Proofs.Snapshot.Directing
import PointerTriage.Proofs.Snapshot.Facts
import PointerTriage.Proofs.Snapshot.Faithful
import PointerTriage.Proofs.Snapshot.FirstPass
import PointerTriage.Proofs.Snapshot.Layout
import PointerTriage.Proofs.Snapshot.Linking
import PointerTriage.Proofs.Snapshot.Names
import PointerTriage.Proofs.Snapshot.RoundTrip
import PointerTriage.Proofs.Snapshot.Scopes
import PointerTriage.Proofs.Snapshot.SecondPass
import PointerTriage.Proofs.Snapshot.Soundness
import PointerTriage.Proofs.Taint.Closure
import PointerTriage.Proofs.Taint.Monotone
import PointerTriage.Proofs.Taint.Rules
import PointerTriage.Proofs.Taint.Seeding
import PointerTriage.Proofs.Taint.Soundness
import PointerTriage.Proofs.Taint.Worklist
import PointerTriage.Proofs.Users
import PointerTriage.Proofs.ValueFlow.Definitions
import PointerTriage.Proofs.ValueFlow.Flows
import PointerTriage.Proofs.Yaml.Blocks
import PointerTriage.Proofs.Yaml.Glyphs
import PointerTriage.Proofs.Yaml.Layout
import PointerTriage.Proofs.Yaml.Plain
import PointerTriage.Proofs.Yaml.Quoting
import PointerTriage.Proofs.Yaml.Reading
import PointerTriage.Proofs.Yaml.Scanning
import PointerTriage.Proofs.Yaml.Values
import PointerTriage.Protection
import PointerTriage.Ranking.Basic
import PointerTriage.Ranking.Rank
import PointerTriage.Relation
import PointerTriage.Report
import PointerTriage.Rules.Check
import PointerTriage.Rules.Findings
import PointerTriage.Settings.Draft
import PointerTriage.Settings.Error
import PointerTriage.Settings.Functions
import PointerTriage.Settings.Json
import PointerTriage.Settings.Rule
import PointerTriage.Settings.Stages
import PointerTriage.Settings.Yaml
import PointerTriage.Shape.Basic
import PointerTriage.Shape.Json
import PointerTriage.Snapshot.Basic
import PointerTriage.Snapshot.Build
import PointerTriage.Snapshot.Json
import PointerTriage.Snapshot.Passes
import PointerTriage.Summary
import PointerTriage.Taint.Basic
import PointerTriage.Taint.Propagate
import PointerTriage.Text.Blank
import PointerTriage.Text.Printable
import PointerTriage.Text.Quoted
import PointerTriage.Users
import PointerTriage.ValueFlow.Basic
import PointerTriage.ValueFlow.Build
import PointerTriage.Yaml.Basic
import PointerTriage.Yaml.Core
import PointerTriage.Yaml.Decode
import PointerTriage.Yaml.Glyph
import PointerTriage.Yaml.Reader
import PointerTriage.Yaml.Scalar
import PointerTriage.Yaml.Token
import PointerTriage.Yaml.Writer
