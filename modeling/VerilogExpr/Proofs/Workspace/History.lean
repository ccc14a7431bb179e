import VerilogExpr.Workspace

/-!
# Histories

`Workspace.run` keeps the outcomes of its requests and the workspace in the end.  The history keeps
everything on the way: what each request was answered with, reports included, and the workspace
after it.  A session has failed in the end if it had failed before, or if something in the history
was a failure, whatever has been taken out of the session since.
-/

namespace VerilogExpr

theorem Session.failed_emitAll (s : Session) (ds : List Diagnostic) :
    (s.emitAll ds).failed = (s.failed || ds.any (·.severity.isFailure)) := by
  induction ds generalizing s with
  | nil => exact (Bool.or_false s.failed).symm
  | cons d ds ih =>
      calc (s.emitAll (d :: ds)).failed
          = ((s.failed || d.severity.isFailure) || ds.any (·.severity.isFailure)) := ih (s.emit d)
        _ = (s.failed || (d :: ds).any (·.severity.isFailure)) := by
          rw [List.any_cons, Bool.or_assoc]

namespace Workspace

structure Entry where
  reply : Elaboration (Elaborator.Answer × Arena)
  after : Workspace

/-- What happens in a run, up to and including the first violation. -/
def history (w : Workspace) : List Request → List Entry
  | [] => []
  | request :: requests =>
    ⟨w.answer request, w.after request⟩ ::
      match (w.answer request).outcome with
      | .error (.violation _) => []
      | _ => (w.after request).history requests

variable {w : Workspace} {requests : List Request}

/-- What holds of every answer holds of all answers of a run. -/
theorem forall_history {P : Entry → Prop}
    (h : ∀ (w : Workspace) (request : Request), P ⟨w.answer request, w.after request⟩) :
    ∀ entry ∈ w.history requests, P entry := by
  induction requests generalizing w with
  | nil => simp [history]
  | cons request requests ih =>
      intro entry hmem
      rcases List.mem_cons.mp hmem with rfl | hrest
      · exact h w request
      · split at hrest
        · cases hrest
        · exact ih entry hrest

/-- Taking the diagnostics out of a session reports none. -/
theorem failed_after (w : Workspace) (request : Request) :
    (w.after request).session.failed =
      (w.session.failed || (w.answer request).diagnostics.any (·.severity.isFailure)) := by
  cases request with
  | takeDiagnostics => exact (Bool.or_false w.session.failed).symm
  | elaborate step => exact Session.failed_emitAll _ _
  | act action => exact Session.failed_emitAll _ _
  | evaluate id => exact Session.failed_emitAll _ _

/-- A session remembers whether anything it has reported was a failure. -/
theorem failed_run :
    (w.run requests).2.session.failed =
      (w.session.failed || (w.history requests).any fun entry =>
        entry.reply.diagnostics.any (·.severity.isFailure)) := by
  induction requests generalizing w with
  | nil => exact (Bool.or_false w.session.failed).symm
  | cons request requests ih =>
      have hafter := failed_after w request
      unfold run history
      cases houtcome : (w.answer request).outcome with
      | error stop =>
          cases stop with
          | violation v => simpa using hafter
          | rejected => simp [ih, hafter, Bool.or_assoc]
      | ok answer => simp [ih, hafter, Bool.or_assoc]

end Workspace

end VerilogExpr
