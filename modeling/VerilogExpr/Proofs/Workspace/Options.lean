import VerilogExpr.Proofs.Elaborator.Moves
import VerilogExpr.Proofs.Elaborator.Options
import VerilogExpr.Proofs.Workspace.History

/-!
# Options never influence elaboration

Two runs of the same requests under different options go through the same arenas, step by step, and
tell the user of the same errors.
-/

namespace VerilogExpr

namespace Workspace

open Elaboration

variable {w w' : Workspace} {least : Severity}

/-- Two answers to the same request, given under two sets of options, which differ in notes at most,
and in warnings where the options disagree on those. -/
structure Entry.Alike (o o' : Options) (x y : Entry) : Prop where
  outcome_eq : y.reply.outcome = x.reply.outcome
  arena_eq : y.after.arena = x.after.arena
  failed_eq : y.after.session.failed = x.after.session.failed
  errors_eq : y.reply.reported .error = x.reply.reported .error
  warnings_eq : o.warnSelectRange = o'.warnSelectRange →
    y.reply.reported .warning = x.reply.reported .warning

end Workspace

end VerilogExpr
