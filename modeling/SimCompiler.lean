import SimCompiler.Analysis.Binding
import SimCompiler.Analysis.CallGraph
import SimCompiler.Analysis.Capabilities
import SimCompiler.Analysis.Locals
import SimCompiler.Analysis.Returns
import SimCompiler.Analysis.Session
import SimCompiler.Analysis.Typing
import SimCompiler.Analysis.Work
import SimCompiler.Annotation.Table
import SimCompiler.Command.Options
import SimCompiler.Command.Run
import SimCompiler.Command.Workspace
import SimCompiler.Decimal.Notation
import SimCompiler.Decimal.Shortest
import SimCompiler.Emit.Generator
import SimCompiler.Emit.Renderer
import SimCompiler.Emit.Request
import SimCompiler.Emit.Target
import SimCompiler.Error
import SimCompiler.Json.Cursor
import SimCompiler.Json.Problem
import SimCompiler.Json.Scalar
import SimCompiler.Json.Schema
import SimCompiler.Json.Skip
import SimCompiler.Json.Value
import SimCompiler.Main
import SimCompiler.Position
import SimCompiler.Proofs.Agreement
import SimCompiler.Proofs.Analyses
import SimCompiler.Proofs.Annotated
import SimCompiler.Proofs.Blame
import SimCompiler.Proofs.Calls
import SimCompiler.Proofs.ClosedOutput
import SimCompiler.Proofs.CommonTypes
import SimCompiler.Proofs.Constants
import SimCompiler.Proofs.Conversion
import SimCompiler.Proofs.Declarations
import SimCompiler.Proofs.DirectTyping
import SimCompiler.Proofs.DistinctNames
import SimCompiler.Proofs.ErrorPositions
import SimCompiler.Proofs.Events
import SimCompiler.Proofs.ExprCode
import SimCompiler.Proofs.FileEffects
import SimCompiler.Proofs.Footprints
import SimCompiler.Proofs.FrameContents
import SimCompiler.Proofs.FunctionNames
import SimCompiler.Proofs.FunctionNotes
import SimCompiler.Proofs.Generation
import SimCompiler.Proofs.Images
import SimCompiler.Proofs.IntegerConversion
import SimCompiler.Proofs.InternalErrors
import SimCompiler.Proofs.ItemOrder
import SimCompiler.Proofs.Lowering
import SimCompiler.Proofs.NameBinding
import SimCompiler.Proofs.NestedFrames
import SimCompiler.Proofs.NestingLimit
import SimCompiler.Proofs.Nodes
import SimCompiler.Proofs.Outcomes
import SimCompiler.Proofs.Passes
import SimCompiler.Proofs.Paths
import SimCompiler.Proofs.PlanRuns
import SimCompiler.Proofs.Plans
import SimCompiler.Proofs.PostOrder
import SimCompiler.Proofs.Reachability
import SimCompiler.Proofs.Refusals
import SimCompiler.Proofs.RelocatedAnalyses
import SimCompiler.Proofs.RelocatedNotes
import SimCompiler.Proofs.RelocatedOutput
import SimCompiler.Proofs.Repetition
import SimCompiler.Proofs.Replay
import SimCompiler.Proofs.Resolution
import SimCompiler.Proofs.ScalarText
import SimCompiler.Proofs.SchemaText
import SimCompiler.Proofs.Slots
import SimCompiler.Proofs.SourceOrder
import SimCompiler.Proofs.Subtrees
import SimCompiler.Proofs.TreeText
import SimCompiler.Proofs.TypingInvariant
import SimCompiler.Proofs.TypingRefinement
import SimCompiler.Proofs.Walking
import SimCompiler.Scope.Builtin
import SimCompiler.Scope.Declaration
import SimCompiler.Scope.Frames
import SimCompiler.Syntax.Decode
import SimCompiler.Syntax.Encode
import SimCompiler.Syntax.Outline
import SimCompiler.Syntax.Path
import SimCompiler.Syntax.Schema
import SimCompiler.Syntax.Tree
import SimCompiler.Syntax.Walk
import SimCompiler.Text.Unprintable
import SimCompiler.Types.Lattice
import SimCompiler.Types.Name
import SimCompiler.Types.Rules
import SimCompiler.Proofs.CallGraphs
import SimCompiler.Proofs.Lexemes
import SimCompiler.Proofs.Rechecking
import SimCompiler.Proofs.Unambiguity
