import VerilogExpr.Proofs.Elaboration.Outcomes
import VerilogExpr.Proofs.Evaluation.Soundness

/-!
# Steps without violations

What a step of elaboration ensures: that it is no violation, and that its result, if there is one,
has some property.  Each way to put steps together comes with the rule that goes with it.
-/

namespace VerilogExpr

def Stop.IsRejection : Stop → Prop
  | .violation _ => False
  | .rejected => True

namespace Elaboration

variable {α β : Type} {P : α → Prop} {Q : β → Prop} {x : Elaboration α}

/-- No violation, and a result with the given property if there is one. -/
abbrev Ensures (P : α → Prop) (x : Elaboration α) : Prop := Concludes P Stop.IsRejection x.outcome

theorem Ensures.ne_violation (hx : Ensures P x) (v : Violation) :
    x.outcome ≠ .error (.violation v) :=
  fun h => hx.of_eq_error h

theorem Ensures.bind {next : α → Elaboration β} (hx : Ensures P x)
    (hnext : ∀ result, P result → Ensures Q (next result)) : Ensures Q (x >>= next) := by
  rw [Ensures, outcome_bind]
  exact Concludes.bind hx hnext

theorem Ensures.pure {result : α} (h : P result) :
    Ensures P (Pure.pure result : Elaboration α) := h

theorem ensures_reject (r : Rejection) : Ensures P (reject r : Elaboration α) := trivial

theorem ensures_monadLift {demand : Except Violation α} {result : α} (h : demand = .ok result)
    (hresult : P result) : Ensures P (monadLift demand : Elaboration α) := by
  subst h
  exact hresult

/-- A demand that is met is no violation. -/
theorem Ensures.bind_of_ok {demand : Except Violation α} {result : α} {next : α → Elaboration β}
    (hdemand : demand = .ok result) (h : Ensures Q (next result)) :
    Ensures Q ((monadLift demand : Elaboration α) >>= next) := by
  refine (ensures_monadLift (P := (· = result)) hdemand rfl).bind fun other heq => ?_
  rwa [heq]

theorem ensures_log (events : List Event) : Ensures (fun _ => True) (log events) := trivial

theorem ensures_reportIf (wanted : Bool) (d : Diagnostic) :
    Ensures (fun _ => True) (reportIf wanted d) := by
  unfold reportIf
  split <;> trivial

theorem ensures_both {y : Elaboration β} (hx : Ensures P x) (hy : Ensures Q y) :
    Ensures (fun result => P result.1 ∧ Q result.2) (both x y) := by
  unfold Ensures both at *
  cases hfirst : x.outcome with
  | ok first =>
      rw [hfirst] at hx
      cases hsecond : y.outcome with
      | ok second =>
          rw [hsecond] at hy
          exact ⟨hx, hy⟩
      | error stop =>
          rw [hsecond] at hy
          exact hy
  | error stop =>
      cases stop with
      | violation v => exact False.elim (hx.of_eq_error hfirst)
      | rejected =>
          cases hsecond : y.outcome with
          | ok second => trivial
          | error stop =>
              cases stop with
              | violation v => exact False.elim (hy.of_eq_error hsecond)
              | rejected => trivial

theorem ensures_checkAll {check : α → Elaboration Unit} {members : List α}
    (h : ∀ member ∈ members, Ensures (fun _ => P member) (check member)) :
    Ensures (fun _ => ∀ member ∈ members, P member) (checkAll check members) := by
  induction members with
  | nil => exact .pure (by simp)
  | cons member members ih =>
      have hrest := ih fun other hmem => h other (List.mem_cons_of_mem member hmem)
      refine (ensures_both (h member List.mem_cons_self) hrest).bind fun _ hboth => .pure ?_
      exact List.forall_mem_cons.mpr hboth

theorem ensures_forM {step : α → Elaboration Unit} {members : List α}
    (h : ∀ member ∈ members, Ensures (fun _ => True) (step member)) :
    Ensures (fun _ => True) (members.forM step) := by
  induction members with
  | nil => trivial
  | cons member members ih =>
      exact (h member List.mem_cons_self).bind fun _ _ =>
        ih fun other hmem => h other (List.mem_cons_of_mem member hmem)

/-- An evaluation that is no violation rejects the input if it fails. -/
theorem outcome_ofEvaluation {evaluation : Evaluation α}
    (h : VerilogExpr.Ensures P evaluation.outcome) :
    (ofEvaluation evaluation).outcome = orRejected evaluation.outcome.toOption := by
  have hlog : (log (Event.ofFound evaluation.found)).outcome = .ok () := rfl
  unfold ofEvaluation
  rw [outcome_bind, hlog]
  cases houtcome : evaluation.outcome with
  | ok result => rfl
  | error fault =>
      rw [houtcome] at h
      cases fault with
      | violation v => exact h.elim
      | failure f => rfl

theorem ensures_of_ok {result : α} (h : x.outcome = .ok result) (hresult : P result) :
    Ensures P x := by
  unfold Ensures
  rwa [h]

theorem ensures_of_outcome {result? : Option α} (h : x.outcome = orRejected result?) :
    Ensures (fun _ => True) x := by
  unfold Ensures
  rw [h]
  cases result? <;> trivial

end Elaboration

end VerilogExpr
