import VerilogExpr.Elaborator.Step

/-!
# Workspaces

A workspace is the state of one unit: the options, the session and the arena.  Requests come either
through the elaborator, which checks what the user wrote, or go to the arena directly, where a
mistake is a violation.
-/

namespace VerilogExpr

structure Workspace where
  options : Options
  session : Session
  arena : Arena

inductive Request where
  /-- A step of elaboration. -/
  | elaborate (step : Elaborator.Step)
  /-- An action on the arena, without checks of the user's input. -/
  | act (action : Arena.Action)
  /-- The value of an expression, without reports of constants. -/
  | evaluate (id : ExprId)
  /-- Empties the session. -/
  | takeDiagnostics

namespace Workspace

def fresh (options : Options) : Workspace := ⟨options, .fresh, .empty⟩

def actionEvents (before after : Arena) : Arena.Action → List Event
  | .add _ => Event.ofBuilding before after
  | .impose id _ => Event.ofSizing before after id
  | .settle id => Event.ofSizing before after id

def actionAnswer (before : Arena) : Arena.Action → Elaborator.Answer
  | .add _ => .expr before.size
  | .impose _ _ => .done
  | .settle _ => .done

/-- The answer to a request with the arena after it. -/
def answer (w : Workspace) : Request → Elaboration (Elaborator.Answer × Arena)
  | .elaborate step => (Elaborator.mk w.options w.arena).step step
  | .act action => do
    let arena ← (w.arena.act action : Except Violation Arena)
    Elaboration.log (actionEvents w.arena arena action)
    return (actionAnswer w.arena action, arena)
  | .evaluate id => do
    let value ← Elaboration.ofEvaluation (w.arena.eval id)
    return (.value value, w.arena)
  | .takeDiagnostics => return (.done, w.arena)

/-- The workspace after a request with the given outcome.  The arena stays as it is unless the
request succeeded. -/
def absorb (w : Workspace) (request : Request) (x : Elaboration (Elaborator.Answer × Arena)) :
    Workspace where
  options := w.options
  session :=
    match request with
    | .takeDiagnostics => w.session.taken
    | _ => w.session.emitAll x.diagnostics
  arena :=
    match x.outcome with
    | .ok (_, arena) => arena
    | .error _ => w.arena

def after (w : Workspace) (request : Request) : Workspace := w.absorb request (w.answer request)

/-- The outcomes of a list of requests, up to and including the first violation, and the workspace
in the end. -/
def run (w : Workspace) : List Request → List (Except Stop Elaborator.Answer) × Workspace
  | [] => ([], w)
  | request :: requests =>
    match (w.answer request).outcome with
    | .error (.violation v) => ([.error (.violation v)], w.after request)
    | .error .rejected =>
      let (outcomes, final) := (w.after request).run requests
      (.error .rejected :: outcomes, final)
    | .ok (reply, _) =>
      let (outcomes, final) := (w.after request).run requests
      (.ok reply :: outcomes, final)

end Workspace

end VerilogExpr
