import EntityScript.Main
import EntityScript.Session.Operation
import EntityScript.Proofs.Registry
import EntityScript.Proofs.Lifecycle
import EntityScript.Proofs.Broadcast
import EntityScript.Proofs.FramePhases
import EntityScript.Proofs.Composition
import EntityScript.Proofs.Termination
import EntityScript.Proofs.Unfolding
import EntityScript.Proofs.Tracing
import EntityScript.Proofs.Activities
import EntityScript.Proofs.CallDepth
import EntityScript.Proofs.Failures
import EntityScript.Proofs.Constructions
import EntityScript.Proofs.Faithfulness
import EntityScript.Expr.Printer
import EntityScript.Proofs.ExpressionRules
import EntityScript.Proofs.Arity
import EntityScript.Proofs.Reaching
import EntityScript.Block.Printer
import EntityScript.Proofs.Accounts
import EntityScript.Proofs.BlockCompleteness
import EntityScript.Proofs.BlockSoundness
import EntityScript.Proofs.UnitCompleteness
import EntityScript.Proofs.UnitSoundness
import EntityScript.Proofs.Lexing
import EntityScript.Proofs.ProblemPlaces
import EntityScript.Proofs.BlockRefilling
import EntityScript.Proofs.UnitRefilling
import EntityScript.Proofs.PayloadBoundaries
import EntityScript.Proofs.Finishes
import EntityScript.Proofs.Relowering
import EntityScript.Proofs.Annotations
import EntityScript.Proofs.Assignments
import EntityScript.Proofs.Distinctness
import EntityScript.Proofs.Translation
import EntityScript.Proofs.Declarations
import EntityScript.Proofs.Loads
import EntityScript.Proofs.Scopes
import EntityScript.Proofs.References
import EntityScript.Proofs.StatementEnds
import EntityScript.Proofs.CountingLoops
import EntityScript.Proofs.FailingCalls
import EntityScript.Proofs.Choices
import EntityScript.Proofs.DeclarationOrder
import EntityScript.Proofs.FixedRuns
import EntityScript.Proofs.Comparisons
import EntityScript.Proofs.NestedSpans
import EntityScript.Proofs.SettingsFiles
import EntityScript.Proofs.TickDeltas
import EntityScript.Proofs.TrailingBlanks
import EntityScript.Proofs.TrailingComments
import EntityScript.Proofs.HeldKeys
import EntityScript.Proofs.Drawing
import EntityScript.Proofs.HexColors
import EntityScript.Proofs.ColorRanges
import EntityScript.Proofs.FramePeriods
import EntityScript.Proofs.BlankedComments
import EntityScript.Proofs.IndexedBlocks
