import ScriptModules.Collection.OrderedMap
import ScriptModules.Collection.Table
import ScriptModules.Text.Blank
import ScriptModules.Text.Case
import ScriptModules.Text.CaseTable
import ScriptModules.Text.Quoted
import ScriptModules.Text.Search
import ScriptModules.Text.ShapelessTable
import ScriptModules.Number.Binary64
import ScriptModules.Number.Read
import ScriptModules.Number.Shortest
import ScriptModules.Number.Text
import ScriptModules.Json.Basic
import ScriptModules.Json.Printer
import ScriptModules.Json.Reader
import ScriptModules.Grammar.Cursor
import ScriptModules.Grammar.Match
import ScriptModules.Grammar.Pattern
import ScriptModules.Grammar.Script
import ScriptModules.Syntax.Build
import ScriptModules.Syntax.Escape
import ScriptModules.Syntax.Parse
import ScriptModules.Syntax.Precedence
import ScriptModules.Syntax.Tree
import ScriptModules.Resource.Basic
import ScriptModules.Resource.Directory
import ScriptModules.Resource.Memory
import ScriptModules.Resource.Path
import ScriptModules.Resource.Repository
import ScriptModules.Value.Basic
import ScriptModules.Value.Bindings
import ScriptModules.Value.Convert
import ScriptModules.Value.Describe
import ScriptModules.Value.Error
import ScriptModules.Value.Picture
import ScriptModules.Host.Action
import ScriptModules.Host.Blueprint
import ScriptModules.Host.Make
import ScriptModules.World.Basic
import ScriptModules.World.Cell
import ScriptModules.World.Run
import ScriptModules.World.Scope
import ScriptModules.Eval.Builtin
import ScriptModules.Eval.Expression
import ScriptModules.Eval.Member
import ScriptModules.Eval.Operator
import ScriptModules.Loop.Container
import ScriptModules.Loop.Queue
import ScriptModules.Machine.Basic
import ScriptModules.Machine.Fuel
import ScriptModules.Machine.Routine
import ScriptModules.Machine.Timer
import ScriptModules.Module.Engine
import ScriptModules.Module.Environment
import ScriptModules.Module.Exports
import ScriptModules.Module.Names
import ScriptModules.Module.Resolve
import ScriptModules.Module.Run
import ScriptModules.Module.Use
import ScriptModules.Render.Configuration
import ScriptModules.Render.Provision
import ScriptModules.CommandLine.Arguments
import ScriptModules.CommandLine.Report
import ScriptModules.Main
import ScriptModules.Proofs.Runs
import ScriptModules.Proofs.Quiet
import ScriptModules.Proofs.QuietBuiltin
import ScriptModules.Proofs.Evaluator
import ScriptModules.Proofs.Fuel
import ScriptModules.Proofs.Invariant
import ScriptModules.Proofs.Steps
import ScriptModules.Proofs.QueueOrder
import ScriptModules.Proofs.Load
import ScriptModules.Proofs.HostRuns
import ScriptModules.Proofs.Scheduling
import ScriptModules.Proofs.ContainerLife
import ScriptModules.Proofs.Nesting
import ScriptModules.Proofs.Accounts
import ScriptModules.Proofs.Gathering
import ScriptModules.Proofs.Sessions
import ScriptModules.Proofs.Use
import ScriptModules.Proofs.CleanPaths
import ScriptModules.Proofs.Inquiries
import ScriptModules.Proofs.Confinement
import ScriptModules.Proofs.Arguments
import ScriptModules.Proofs.Chains
import ScriptModules.Proofs.Periods
import ScriptModules.Proofs.Lifecycle
import ScriptModules.Proofs.Provision
import ScriptModules.Proofs.Deferral
import ScriptModules.Proofs.RoundTrip
import ScriptModules.Proofs.Heaps
import ScriptModules.Proofs.Effects
import ScriptModules.Proofs.CallDepth
import ScriptModules.Proofs.Supertypes
import ScriptModules.Proofs.Additions
import ScriptModules.Proofs.Resolution
import ScriptModules.Proofs.ScopeChains
import ScriptModules.Proofs.Twins
import ScriptModules.Proofs.HeapLife
import ScriptModules.Proofs.Conversions
import ScriptModules.Proofs.Likeness
import ScriptModules.Proofs.LikeSteps
import ScriptModules.Proofs.LikeRuns
import ScriptModules.Proofs.Isolation
import ScriptModules.Proofs.Stories
import ScriptModules.Proofs.Faults
import ScriptModules.Proofs.Lexemes
import ScriptModules.Proofs.Shapes
import ScriptModules.Proofs.Agreement
import ScriptModules.Proofs.Writings
import ScriptModules.Proofs.Conduct
import ScriptModules.Proofs.ConductRuns
import ScriptModules.Proofs.Reserved
import ScriptModules.Proofs.Upkeep
import ScriptModules.Proofs.Callers
import ScriptModules.Proofs.Precedence
import ScriptModules.Proofs.Passages
import ScriptModules.Proofs.ListGrowth
import ScriptModules.Proofs.Hoisting
import ScriptModules.Proofs.LazyBindings
import ScriptModules.Proofs.Indices
import ScriptModules.Proofs.Escapes
import ScriptModules.Proofs.Variables
import ScriptModules.Proofs.Constants
import ScriptModules.Proofs.Compounds
import ScriptModules.Proofs.Numerals
import ScriptModules.Proofs.NumericKeys
import ScriptModules.Proofs.NamesAbove
import ScriptModules.Proofs.SupertypeWalks
import ScriptModules.Proofs.Reconciliation
import ScriptModules.Proofs.ModuleResults
import ScriptModules.Proofs.ListVisits
import ScriptModules.Proofs.Declarations
import ScriptModules.Proofs.Cycles
import ScriptModules.Proofs.JsonStability
import ScriptModules.Proofs.FurthestFailure
import ScriptModules.Proofs.FaultPlaces
import ScriptModules.Proofs.PathAlgebra
import ScriptModules.Proofs.NumericIndices
import ScriptModules.Proofs.TextPositions
import ScriptModules.Proofs.ParsingEnds
