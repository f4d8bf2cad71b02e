import ShaderPipeline.Category.Basic
import ShaderPipeline.Category.Rules
import ShaderPipeline.Constant
import ShaderPipeline.Decimal.Shortest
import ShaderPipeline.Decimal.Single
import ShaderPipeline.Decimal.Style
import ShaderPipeline.Declaration
import ShaderPipeline.Dependents
import ShaderPipeline.Expr
import ShaderPipeline.Failure
import ShaderPipeline.Gathering
import ShaderPipeline.Invariance
import ShaderPipeline.Journal
import ShaderPipeline.Layout
import ShaderPipeline.Lowering
import ShaderPipeline.Name
import ShaderPipeline.Program
import ShaderPipeline.Proofs.CategoryRun
import ShaderPipeline.Proofs.CategoryStep
import ShaderPipeline.Proofs.Dependents
import ShaderPipeline.Proofs.Frames
import ShaderPipeline.Proofs.GatherRun
import ShaderPipeline.Proofs.Gathering
import ShaderPipeline.Proofs.Layout
import ShaderPipeline.Proofs.LoweringSafety
import ShaderPipeline.Proofs.Orderly
import ShaderPipeline.Proofs.Outcome
import ShaderPipeline.Proofs.Program
import ShaderPipeline.Proofs.Pruning
import ShaderPipeline.Proofs.Returns
import ShaderPipeline.Proofs.Semantics.Eval
import ShaderPipeline.Proofs.Semantics.Run
import ShaderPipeline.Proofs.Semantics.Simulation
import ShaderPipeline.Proofs.Semantics.Value
import ShaderPipeline.Proofs.Tables
import ShaderPipeline.Proofs.Threading.Locals
import ShaderPipeline.Proofs.Threading.Main
import ShaderPipeline.Proofs.Threading.Program
import ShaderPipeline.Proofs.Threading.Run
import ShaderPipeline.Proofs.Threading.Simultaneous
import ShaderPipeline.Proofs.Threading.Update
import ShaderPipeline.Proofs.Tree
import ShaderPipeline.Proofs.Types
import ShaderPipeline.Proofs.Validity.Bodies
import ShaderPipeline.Proofs.Validity.Conversion
import ShaderPipeline.Proofs.Validity.Entry
import ShaderPipeline.Proofs.Validity.Grounded
import ShaderPipeline.Proofs.Validity.Moves
import ShaderPipeline.Proofs.Validity.Occurrences
import ShaderPipeline.Proofs.Validity.Pruned
import ShaderPipeline.Proofs.Validity.Returning
import ShaderPipeline.Proofs.Validity.Rules
import ShaderPipeline.Proofs.Validity.Threaded
import ShaderPipeline.Proofs.Validity.Typing
import ShaderPipeline.Prune
import ShaderPipeline.Reflection
import ShaderPipeline.Scoped
import ShaderPipeline.Session.Request
import ShaderPipeline.Session.Run
import ShaderPipeline.Shader
import ShaderPipeline.Shape
import ShaderPipeline.Stmt
import ShaderPipeline.Tables
import ShaderPipeline.Text.Program
import ShaderPipeline.Text.Type
import ShaderPipeline.Threading.Basic
import ShaderPipeline.Threading.Entry
import ShaderPipeline.Threading.Main
import ShaderPipeline.Threading.Program
import ShaderPipeline.Threading.Texture
import ShaderPipeline.Tree.Rebuild
import ShaderPipeline.Tree.Replace
import ShaderPipeline.Tree.Script
import ShaderPipeline.Tree.Substitution
import ShaderPipeline.Tree.Walk
import ShaderPipeline.Type
import ShaderPipeline.Typing
import ShaderPipeline.Validity
import ShaderPipeline.Proofs.Evolution
import ShaderPipeline.Proofs.LoweringRun
import ShaderPipeline.Proofs.Remaining
import ShaderPipeline.Proofs.Classification
import ShaderPipeline.Proofs.OrderlyRun
import ShaderPipeline.Proofs.Alignment
import ShaderPipeline.Proofs.Signatures
import ShaderPipeline.Proofs.Composition
import ShaderPipeline.Proofs.References
import ShaderPipeline.Proofs.Statements
import ShaderPipeline.Proofs.Exits
import ShaderPipeline.Proofs.Handover
import ShaderPipeline.Proofs.Outputs
import ShaderPipeline.Proofs.Arguments
import ShaderPipeline.Proofs.WellTyped
import ShaderPipeline.Proofs.WellTypedRun
import ShaderPipeline.Proofs.Samplers
import ShaderPipeline.Proofs.Semantics.Calls
import ShaderPipeline.Proofs.Semantics.Agreement
import ShaderPipeline.Proofs.Semantics.Pruned
import ShaderPipeline.Proofs.Semantics.Entry
import ShaderPipeline.Proofs.Semantics.Interface
import ShaderPipeline.Proofs.CallChains
import ShaderPipeline.Proofs.Appending
import ShaderPipeline.Proofs.Parts
import ShaderPipeline.Proofs.Flattening
import ShaderPipeline.Proofs.InvariantFields
import ShaderPipeline.Proofs.Journal
import ShaderPipeline.Proofs.KeptTypes
import ShaderPipeline.Proofs.Session
import ShaderPipeline.Proofs.RequiredLayout
import ShaderPipeline.Proofs.Semantics.RoundTrip
import ShaderPipeline.Proofs.Validity.WellFormed
import ShaderPipeline.Proofs.ExactPruning
import ShaderPipeline.Proofs.Threading.Recording
import ShaderPipeline.Proofs.TextureEntry
import ShaderPipeline.Proofs.TextureParams
import ShaderPipeline.Proofs.Text.Program
import ShaderPipeline.Proofs.Layering
import ShaderPipeline.Proofs.CarefulSession
import ShaderPipeline.Proofs.Rebuild.Coverage
import ShaderPipeline.Proofs.Text.Comparison
import ShaderPipeline.Proofs.Rebuild.Asked
import ShaderPipeline.Proofs.Threading.Rebuilding
