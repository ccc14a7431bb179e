import VerilogExpr.Proofs.Arena.Evolution
import VerilogExpr.Proofs.Elaboration.Protocol

/-!
# Warnings of steps

Only few of the reports of a step are warnings: errors reject the input, and notes show what an
option asks for.  So it can be told exactly what a step warns of if the few warnings are known and
everything around them warns of nothing.
-/

namespace VerilogExpr.Elaboration

variable {α β : Type} {x : Elaboration α} {next : α → Elaboration β}
  {Q : β → List Diagnostic → Prop}

def warnings (x : Elaboration α) : List Diagnostic :=
  x.diagnostics.filter fun d => d.severity = .warning

def Unwarned (x : Elaboration α) : Prop := ∀ d ∈ x.diagnostics, d.severity ≠ .warning

def Warns (Q : α → List Diagnostic → Prop) (x : Elaboration α) : Prop :=
  ∀ result, x.outcome = .ok result → Q result x.warnings

theorem Unwarned.warnings_eq_nil (h : x.Unwarned) : x.warnings = [] :=
  List.filter_eq_nil_iff.mpr fun d hmem => by simpa using h d hmem

theorem warnings_bind_of_ok {result : α} (h : x.outcome = .ok result) :
    (x >>= next).warnings = x.warnings ++ (next result).warnings := by
  rw [bind_of_ok h]
  exact List.filter_append ..

/-! ### Steps that warn of nothing -/

theorem unwarned_pure (result : α) : (pure result : Elaboration α).Unwarned :=
  fun _ hmem => absurd hmem List.not_mem_nil

theorem unwarned_monadLift (demand : Except Violation α) :
    (monadLift demand : Elaboration α).Unwarned :=
  fun _ hmem => absurd hmem List.not_mem_nil

theorem unwarned_log (events : List Event) : (log events).Unwarned :=
  fun _ hmem => absurd hmem List.not_mem_nil

theorem unwarned_report {d : Diagnostic} (h : d.severity ≠ .warning) : (report d).Unwarned := by
  intro other hmem
  rwa [List.mem_singleton.mp hmem]

theorem unwarned_reject (r : Rejection) : (reject r : Elaboration α).Unwarned := by
  intro other hmem
  rw [List.mem_singleton.mp hmem, r.severity_diagnostic]
  decide

theorem Unwarned.bind (hx : x.Unwarned) (hnext : ∀ result, (next result).Unwarned) :
    (x >>= next).Unwarned := by
  cases h : x.outcome with
  | error stop =>
      rw [bind_of_error h]
      exact hx
  | ok result =>
      rw [bind_of_ok h]
      exact List.forall_mem_append.mpr ⟨hx, hnext result⟩

theorem unwarned_both {y : Elaboration β} (hx : x.Unwarned) (hy : y.Unwarned) :
    (both x y).Unwarned := by
  have hboth := List.forall_mem_append.mpr ⟨hx, hy⟩
  unfold both
  split
  · exact hx
  · exact hboth
  · exact hboth

theorem unwarned_ofEvaluation (evaluation : Evaluation α) : (ofEvaluation evaluation).Unwarned := by
  refine (unwarned_log _).bind fun _ => ?_
  split
  · exact unwarned_pure _
  · exact unwarned_monadLift (.error _)
  · exact unwarned_reject _

/-! ### Steps around a warning -/

theorem warns_reject (Q : α → List Diagnostic → Prop) (r : Rejection) :
    (reject r : Elaboration α).Warns Q := by
  intro result h
  cases h

/-- What comes first warns of nothing. -/
theorem Unwarned.warns_bind (hx : x.Unwarned)
    (hnext : ∀ result, x.outcome = .ok result → (next result).Warns Q) :
    (x >>= next).Warns Q := by
  intro last h
  rw [outcome_bind, bind_eq_ok_iff] at h
  obtain ⟨result, hresult, hlast⟩ := h
  rw [warnings_bind_of_ok hresult, hx.warnings_eq_nil, List.nil_append]
  exact hnext result hresult last hlast

theorem Warns.bind_pure {f : α → β} (hx : x.Warns fun result => Q (f result)) :
    (x >>= fun result => pure (f result)).Warns Q := by
  intro last h
  rw [outcome_bind, bind_eq_ok_iff] at h
  obtain ⟨result, hresult, hlast⟩ := h
  cases hlast
  rw [warnings_bind_of_ok hresult, (unwarned_pure _).warnings_eq_nil, List.append_nil]
  exact hx result hresult

/-- What comes last warns of nothing. -/
theorem warns_of_bind {y : Elaboration β} {R : β → Prop} {x : Elaboration Unit} (hy : y.Unwarned)
    (hyields : y.Yields R) : (x >>= fun _ => y).Warns fun result warned =>
      R result ∧ warned = x.warnings := by
  intro last h
  rw [outcome_bind, bind_eq_ok_iff] at h
  obtain ⟨⟨⟩, hfirst, hlast⟩ := h
  refine ⟨hyields last hlast, ?_⟩
  rw [warnings_bind_of_ok hfirst, hy.warnings_eq_nil, List.append_nil]

end VerilogExpr.Elaboration
