import VerilogExpr.Elaboration.Rejection
import VerilogExpr.Event
import VerilogExpr.Session

/-!
# Outcomes of elaboration

A step of elaboration yields a result or stops, and reports diagnostics and events on the way.  It
stops either with a violation or because the user's input was rejected, which a diagnostic has
explained by then.
-/

namespace VerilogExpr

/-- What ends a step of elaboration. -/
inductive Stop where
  | violation (v : Violation)
  | rejected
deriving DecidableEq

/-- The outcome of a step of elaboration, with what it reported. -/
structure Elaboration (α : Type) where
  outcome : Except Stop α
  diagnostics : List Diagnostic
  events : List Event

namespace Elaboration

def lift {α : Type} (outcome : Except Stop α) : Elaboration α := ⟨outcome, [], []⟩

def report (d : Diagnostic) : Elaboration Unit := ⟨.ok (), [d], []⟩

/-- Reports a diagnostic if an option asks for it. -/
def reportIf (wanted : Bool) (d : Diagnostic) : Elaboration Unit :=
  if wanted then report d else lift (.ok ())

def reject {α : Type} (r : Rejection) : Elaboration α := ⟨.error .rejected, [r.diagnostic], []⟩

def log (events : List Event) : Elaboration Unit := ⟨.ok (), [], events⟩

/-- Continues with the result of a step, if there is one. -/
def andThen {α β : Type} (x : Elaboration α) (next : α → Elaboration β) : Elaboration β :=
  match x.outcome with
  | .ok result =>
    ⟨(next result).outcome, x.diagnostics ++ (next result).diagnostics,
      x.events ++ (next result).events⟩
  | .error stop => ⟨.error stop, x.diagnostics, x.events⟩

instance : Monad Elaboration where
  pure result := lift (.ok result)
  bind := andThen

instance : MonadLift (Except Violation) Elaboration where
  monadLift outcome := lift (outcome.mapError .violation)

/-- Takes both of two steps, also when the first one rejects its input, so that the user learns of
both problems.  Only a violation keeps the second step from being taken. -/
def both {α β : Type} (x : Elaboration α) (y : Elaboration β) : Elaboration (α × β) :=
  match x.outcome with
  | .error (.violation v) => ⟨.error (.violation v), x.diagnostics, x.events⟩
  | .error .rejected =>
    ⟨match y.outcome with
      | .error (.violation v) => .error (.violation v)
      | _ => .error .rejected,
      x.diagnostics ++ y.diagnostics, x.events ++ y.events⟩
  | .ok first =>
    ⟨y.outcome.map fun second => (first, second), x.diagnostics ++ y.diagnostics,
      x.events ++ y.events⟩

/-- Checks every member of a list, also behind one that is rejected. -/
def checkAll {α : Type} (check : α → Elaboration Unit) : List α → Elaboration Unit
  | [] => return ()
  | member :: members => do
    let _ ← both (check member) (checkAll check members)
    return ()

/-- An evaluation as a step: a failure rejects the input. -/
def ofEvaluation {α : Type} (x : Evaluation α) : Elaboration α := do
  log (Event.ofFound x.found)
  match x.outcome with
  | .ok result => return result
  | .error (.violation v) => lift (.error (.violation v))
  | .error (.failure f) => reject (.evaluation f)

end Elaboration

end VerilogExpr
