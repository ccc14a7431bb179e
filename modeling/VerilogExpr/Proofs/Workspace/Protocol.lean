import VerilogExpr.Proofs.Arena.Reachable
import VerilogExpr.Proofs.Elaborator.Protocol
import VerilogExpr.Proofs.Workspace.History

/-!
# Errors and what they leave behind

For the user an error is a diagnostic, for the caller of a step it is a rejection, and for the
session it is the mark of failure.  The three always go together, and a rejection leaves nothing
else behind.
-/

namespace VerilogExpr

theorem Severity.isFailure_iff {s : Severity} (h : s ≠ .bug) : s.isFailure = true ↔ s = .error := by
  cases s <;> simp_all [isFailure, rank]

namespace Workspace

open Elaborator Elaboration

variable {w : Workspace} {step : Step}

structure KeepsProtocol (w : Workspace) (step : Step) : Prop where
  rejected_iff : (w.answer (.elaborate step)).outcome = .error .rejected ↔
    ∃ d ∈ (w.answer (.elaborate step)).diagnostics, d.severity = .error
  single_error : step.purpose = .evaluating →
    (w.answer (.elaborate step)).outcome = .error .rejected →
      ((w.answer (.elaborate step)).reported .error).length = 1
  /-- Nothing is built or sized before a rejection, and nothing is left of it. -/
  unchanged : (w.answer (.elaborate step)).outcome = .error .rejected →
    (∀ event ∈ (w.answer (.elaborate step)).events, event.isFound = true) ∧
      (w.after (.elaborate step)).arena = w.arena
  one_more : step.purpose = .building → ∀ answer arena,
    (w.answer (.elaborate step)).outcome = .ok (answer, arena) →
      answer = .expr w.arena.size ∧ arena.size = w.arena.size + 1 ∧
        (w.after (.elaborate step)).arena = arena

/-- Where no internal failure is reported, the failures are the errors. -/
theorem any_isFailure_iff {α : Type} {P : α → Prop} {x : Elaboration α} (h : x.Guarded P) :
    x.diagnostics.any (·.severity.isFailure) = true ↔
      ∃ d ∈ x.diagnostics, d.severity = .error := by
  rw [List.any_eq_true]
  exact exists_congr fun d => and_congr_right fun hmem => Severity.isFailure_iff (h.no_bug d hmem)

theorem exists_error_iff {α : Type} {P : α → Prop} {x : Elaboration α} (h : x.Guarded P) :
    (∃ d ∈ x.diagnostics, d.severity = .error) ↔ x.reported .error ≠ [] := by
  rw [← any_isFailure_iff h, reported, ne_eq, List.filter_eq_nil_iff]
  simp [Severity.isFailure]

theorem length_reported_of_evaluating (w : Workspace) (h : step.purpose = .evaluating) :
    ((w.answer (.elaborate step)).reported .error).length ≤ 1 := by
  cases step with
  | evaluate id =>
      refine (checks_evaluate id).length_bind_le_one (length_reported_evaluate id) fun v => ?_
      exact Nat.zero_le 1
  | evaluateIndex id =>
      refine (checks_evaluateIndex id).length_bind_le_one (length_reported_evaluateIndex id)
        fun i => ?_
      exact Nat.zero_le 1
  | _ => simp [Step.purpose] at h

theorem keepsProtocol (w : Workspace) (step : Step)
    (hsafe : ∀ v, (w.answer (.elaborate step)).outcome ≠ .error (.violation v)) :
    w.KeepsProtocol step := by
  have hguarded : (w.answer (.elaborate step)).Guarded (Effect w.arena step.purpose) :=
    guarded_step (e := ⟨w.options, w.arena⟩) step
  constructor
  case rejected_iff =>
    rw [exists_error_iff hguarded]
    constructor
    · intro h
      exact (hguarded.rejected h).1
    · intro herrors
      cases houtcome : (w.answer (.elaborate step)).outcome with
      | ok answer => exact absurd (hguarded.ok answer houtcome).1 herrors
      | error stop =>
          cases stop with
          | violation v => exact absurd houtcome (hsafe v)
          | rejected => rfl
  case single_error =>
    intro hpurpose h
    have hsome := List.length_pos_iff.mpr (hguarded.rejected h).1
    exact Nat.le_antisymm (length_reported_of_evaluating w hpurpose) hsome
  case unchanged =>
    intro h
    refine ⟨(hguarded.rejected h).2, ?_⟩
    simp only [after, absorb, h]
  case one_more =>
    intro hpurpose answer arena h
    obtain ⟨-, heffect⟩ := hguarded.ok _ h
    rw [hpurpose] at heffect
    obtain ⟨hanswer, expr, hadd⟩ := heffect
    refine ⟨hanswer, (Arena.add_eq_ok_iff.mp hadd).size_eq, ?_⟩
    simp only [after, absorb, h]

/-- No request reports an internal failure as a diagnostic. -/
theorem guarded_answer (w : Workspace) (request : Request) :
    (w.answer request).Guarded fun _ => True := by
  cases request with
  | elaborate step =>
      have hguarded := guarded_step (e := ⟨w.options, w.arena⟩) step
      exact ⟨hguarded.no_bug, fun answer h => ⟨(hguarded.ok answer h).1, trivial⟩,
        hguarded.rejected⟩
  | act action =>
      have hsilent : (w.answer (.act action)).Silent :=
        (silent_monadLift _).bind fun _ => (silent_log _).bind fun _ => silent_pure _
      exact hsilent.guarded fun _ _ => trivial
  | evaluate id => exact (checks_ofEvaluation _).guards fun _ _ => guarded_pure trivial
  | takeDiagnostics => exact guarded_pure trivial

/-- **The protocol of errors.** A step that is no violation rejects its input exactly if it reports
an error, and an evaluation then reports exactly one.  A rejected step leaves the arena as it was,
and has built and sized nothing on the way.  A step that builds an expression, and is not rejected,
adds one expression and answers with its handle.  After any run of requests, also one that has taken
diagnostics out of the session, the session has failed exactly if an error was ever reported. -/
theorem rejected_iff_error :
    (∀ (w : Workspace) (step : Step),
      (∀ v, (w.answer (.elaborate step)).outcome ≠ .error (.violation v)) →
        w.KeepsProtocol step) ∧
    ∀ (options : Options) (requests : List Request),
      ((fresh options).run requests).2.session.failed = true ↔
        ∃ entry ∈ (fresh options).history requests,
          ∃ d ∈ entry.reply.diagnostics, d.severity = .error := by
  refine ⟨keepsProtocol, fun options requests => ?_⟩
  have hreplies : ∀ entry ∈ (fresh options).history requests,
      (entry.reply.diagnostics.any (·.severity.isFailure) = true ↔
        ∃ d ∈ entry.reply.diagnostics, d.severity = .error) :=
    forall_history fun w request => any_isFailure_iff (guarded_answer w request)
  rw [failed_run]
  change (false || _) = true ↔ _
  rw [Bool.false_or, List.any_eq_true]
  constructor
  · rintro ⟨entry, hmem, hany⟩
    exact ⟨entry, hmem, (hreplies entry hmem).mp hany⟩
  · rintro ⟨entry, hmem, herror⟩
    exact ⟨entry, hmem, (hreplies entry hmem).mpr herror⟩

def realOperands : List Request :=
  [.elaborate (.integerLiteral 1), .elaborate (.reference (.plain "r" .real))]

/-- The real operand of a concatenation is found only after the integral one, and is still no reason
to touch that. -/
theorem rejected_iff_error_realOperands :
    let w := ((fresh .standard).run realOperands).2
    (∃ d ∈ (w.answer (.elaborate (.concat [0, 1]))).diagnostics, d.severity = .error) ∧
      (w.after (.elaborate (.concat [0, 1]))).arena = w.arena ∧
      ∃ entry ∈ (fresh .standard).history
          (realOperands ++ [.elaborate (.concat [0, 1]), .takeDiagnostics]),
        ∃ d ∈ entry.reply.diagnostics, d.severity = .error := by
  intro w
  have hrejected : (w.answer (.elaborate (.concat [0, 1]))).outcome = .error .rejected := by
    have hmap : ((w.answer (.elaborate (.concat [0, 1]))).outcome.map fun _ => ()) =
        .error .rejected := by decide +kernel
    cases houtcome : (w.answer (.elaborate (.concat [0, 1]))).outcome with
    | ok answer => simp [houtcome, Except.map] at hmap
    | error stop => simpa [houtcome, Except.map] using hmap
  have hprotocol := rejected_iff_error.1 w (.concat [0, 1]) (by simp [hrejected])
  have hfailed := (rejected_iff_error.2 .standard
    (realOperands ++ [.elaborate (.concat [0, 1]), .takeDiagnostics])).mp (by decide +kernel)
  exact ⟨hprotocol.rejected_iff.mp hrejected, (hprotocol.unchanged hrejected).2, hfailed⟩

end Workspace

end VerilogExpr
