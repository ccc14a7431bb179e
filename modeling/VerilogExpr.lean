import VerilogExpr.Workspace
import VerilogExpr.Proofs.Outcomes
import VerilogExpr.Proofs.Arena.Evolution
import VerilogExpr.Proofs.Arena.Imposition
import VerilogExpr.Proofs.Arena.Construction
import VerilogExpr.Proofs.Arena.Operands
import VerilogExpr.Proofs.Arena.Invariants
import VerilogExpr.Proofs.Arena.Reachable
import VerilogExpr.Proofs.BitRange
import VerilogExpr.Proofs.Bits
import VerilogExpr.Proofs.Evaluation.Locality
import VerilogExpr.Proofs.Evaluation.Soundness
import VerilogExpr.Proofs.Elaboration.Outcomes
import VerilogExpr.Proofs.Evaluation.Stability
import VerilogExpr.Proofs.Elaborator.Moves
import VerilogExpr.Proofs.Workspace.Frozen
import VerilogExpr.Proofs.Arena.Reach
import VerilogExpr.Proofs.Arena.Text
import VerilogExpr.Proofs.Elaboration.Safety
import VerilogExpr.Proofs.Elaborator.Checks
import VerilogExpr.Proofs.Elaborator.TreeShaped
import VerilogExpr.Proofs.Workspace.TreeShaped
import VerilogExpr.Proofs.Bits.Modular
import VerilogExpr.Proofs.Evaluation.Unbounded
import VerilogExpr.Proofs.Evaluation.Modular
import VerilogExpr.Proofs.Arena.Recorded
import VerilogExpr.Proofs.Evaluation.Required
import VerilogExpr.Proofs.Arena.SharedWidth
import VerilogExpr.Proofs.Evaluation.ZeroExtension
import VerilogExpr.Proofs.Elaborator.Folding
import VerilogExpr.Proofs.Evaluation.Lossless
import VerilogExpr.Proofs.Elaborator.ContextWidth
import VerilogExpr.Proofs.Elaboration.Protocol
import VerilogExpr.Proofs.Elaborator.Reports
import VerilogExpr.Proofs.Elaborator.Protocol
import VerilogExpr.Proofs.Workspace.History
import VerilogExpr.Proofs.Workspace.Protocol
import VerilogExpr.Proofs.Elaboration.Alike
import VerilogExpr.Proofs.Elaborator.Options
import VerilogExpr.Proofs.Workspace.Options
import VerilogExpr.Proofs.Arena.Recursion
import VerilogExpr.Proofs.Workspace.Ordered
import VerilogExpr.Proofs.Arena.Effect
import VerilogExpr.Proofs.Arena.OwnType
import VerilogExpr.Proofs.Bits.Positions
import VerilogExpr.Proofs.Evaluation.Selects
import VerilogExpr.Proofs.Evaluation.References
import VerilogExpr.Proofs.Elaboration.Warnings
import VerilogExpr.Proofs.Elaborator.SelectRange
import VerilogExpr.Proofs.Evaluation.Concatenation
import VerilogExpr.Proofs.Evaluation.Shifts
import VerilogExpr.Proofs.Evaluation.Division
import VerilogExpr.Proofs.BitRange.Offsets
import VerilogExpr.Proofs.Dimensions
import VerilogExpr.Proofs.Evaluation.Elements
import VerilogExpr.Proofs.Bits.Reductions
import VerilogExpr.Proofs.Evaluation.Reductions
import VerilogExpr.Proofs.BitRange.IndexedSelects
import VerilogExpr.Proofs.Arena.OperatorTrees
import VerilogExpr.Proofs.Evaluation.Failures
import VerilogExpr.Proofs.Evaluation.Constancy
import VerilogExpr.Proofs.Text.Characters
import VerilogExpr.Proofs.Text.Spelling
import VerilogExpr.Proofs.Text.Structure
import VerilogExpr.Proofs.Text.Unambiguous
import VerilogExpr.Proofs.Arena.Listing
import VerilogExpr.Proofs.Text.Dump
import VerilogExpr.Proofs.Conversion
