import VerilogExpr.Elaborator.Step
import VerilogExpr.Proofs.Arena.Reach
import VerilogExpr.Proofs.Arena.Reachable
import VerilogExpr.Proofs.Arena.Text
import VerilogExpr.Proofs.Elaboration.Safety
import VerilogExpr.Proofs.Elaborator.Reports

/-!
# What the checks ensure

The checks of the elaborator are no violations on expressions that exist, and what passes them is
admissible.  Building an expression and imposing a context then need nothing more than operands
that are not used yet.
-/

namespace VerilogExpr

structure Arena.Usable (a : Arena) (used ids : List ExprId) : Prop where
  unshared : a.Unshared used
  exist : ∀ id ∈ ids, id < a.size
  unused : ∀ id ∈ ids, id ∉ used
  nodup : ids.Nodup

/-- The operators that need bits are those whose operands are checked. -/
theorem BinaryOp.admits_of_integral {op : BinaryOp} {t u : DataType}
    (h : (op.rejectsReal || op.isComparison) = true → t.isReal = false ∧ u.isReal = false) :
    op.Admits t u := by
  cases op with
  | bitwise f => exact h rfl
  | arith f =>
      intro hrejects
      exact h (by simp [hrejects])
  | power => trivial
  | shift f => exact (h rfl).1
  | compare f => exact h rfl
  | logic f => trivial

namespace Elaborator

open Elaboration

variable {e : Elaborator} {id : ExprId} {d : Declaration} {operands used : List ExprId}

/-! ### Reports -/

theorem outcome_reportValue (h : e.arena.Ordered) (hid : id < e.arena.size) (v : Value) :
    (e.reportValue id v).outcome = .ok () := by
  have hquiet : (e.reportValue id v).Quiet .error := quiet_reportValue h hid (by decide) v
  exact hquiet.outcome_eq

theorem ensures_reportContext (h : e.arena.Ordered) (hid : id < e.arena.size)
    (required : DataType) : (e.reportContext id required).Ensures fun _ => True := by
  have hquiet : (e.reportContext id required).Quiet .error :=
    quiet_reportContext h hid (by decide) required
  exact ensures_of_ok hquiet.outcome_eq trivial

theorem ensures_reportType {arena : Arena} (h : arena.Ordered) (hid : id < arena.size) :
    (e.reportType arena id).Ensures fun _ => True := by
  have hquiet : (e.reportType arena id).Quiet .error := quiet_reportType h hid (by decide)
  exact ensures_of_ok hquiet.outcome_eq trivial

theorem outcome_rejectExpr {α : Type} (h : e.arena.Ordered) (hid : id < e.arena.size)
    (reason : String → Rejection) :
    (e.rejectExpr id reason : Elaboration α).outcome = .error .rejected := by
  obtain ⟨s, hs⟩ := h.exists_text hid
  simp only [rejectExpr, text, hs, outcome_bind, outcome_monadLift]
  rfl

theorem ensures_rejectExpr {α : Type} {P : α → Prop} (h : e.arena.Ordered)
    (hid : id < e.arena.size) (reason : String → Rejection) :
    (e.rejectExpr id reason).Ensures P := by
  unfold Elaboration.Ensures
  rw [outcome_rejectExpr h hid]
  trivial

/-! ### Checks of types -/

theorem ensures_demandIntegral (h : e.arena.Ordered) (hid : id < e.arena.size)
    (role : OperandRole) :
    (e.demandIntegral role id).Ensures fun _ => (e.arena.typeAt id).isReal = false := by
  have htype : e.arena.type id = .ok (e.arena.typeAt id) := Arena.type_eq_ok_iff.mpr ⟨hid, rfl⟩
  refine .bind_of_ok htype ?_
  cases hreal : (e.arena.typeAt id).isReal with
  | true => exact ensures_rejectExpr h hid _
  | false => exact .pure rfl

theorem ensures_demandSelectable (d : Declaration) :
    (demandSelectable d).Ensures fun _ => d.isReal = false := by
  unfold demandSelectable
  cases hreal : d.isReal with
  | true => exact ensures_reject _
  | false => exact .pure rfl

theorem ensures_demandUnary (h : e.arena.Ordered) (hid : id < e.arena.size) (op : UnaryOp) :
    (e.demandUnary op id).Ensures fun _ => (Expr.unary op id).Admissible e.arena.typeAt := by
  unfold demandUnary
  cases hop : op.rejectsReal with
  | true => exact (ensures_demandIntegral h hid _).mono fun _ hreal _ => hreal
  | false =>
      refine .pure fun hrejects => ?_
      simp [hop] at hrejects

theorem ensures_demandBinary {left right : ExprId} (h : e.arena.Ordered)
    (hids : ∀ id ∈ [left, right], id < e.arena.size) (op : BinaryOp) :
    (e.demandBinary op left right).Ensures fun _ =>
      (Expr.binary op left right).Admissible e.arena.typeAt := by
  unfold demandBinary
  cases hop : op.rejectsReal || op.isComparison with
  | true =>
      refine (ensures_checkAll fun id hmem => ensures_demandIntegral h (hids id hmem) _).mono ?_
      intro _ hreal
      exact BinaryOp.admits_of_integral fun _ => ⟨hreal left (by simp), hreal right (by simp)⟩
  | false =>
      refine .pure (BinaryOp.admits_of_integral fun hrejects => ?_)
      simp [hop] at hrejects

theorem ensures_demandPieces (h : e.arena.Ordered) (hids : ∀ id ∈ operands, id < e.arena.size) :
    (e.demandPieces operands).Ensures fun _ =>
      (Expr.concat operands).Admissible e.arena.typeAt := by
  unfold demandPieces
  cases operands with
  | nil => exact ensures_reject _
  | cons x xs =>
      refine (ensures_checkAll fun id hmem => ensures_demandIntegral h (hids id hmem) _).mono ?_
      exact fun _ hreal => ⟨List.cons_ne_nil x xs, hreal⟩

/-! ### Warnings and values -/

theorem ensures_warnSelect (d : Declaration) (indices : List Int) :
    (e.warnSelect d indices).Ensures fun _ => True := by
  unfold warnSelect
  split
  · exact ensures_reportIf _ _
  · exact .pure trivial

theorem outcome_evaluate (h : e.arena.Sound) (hid : id < e.arena.size) :
    (e.evaluate id).outcome = orRejected (e.arena.eval id).outcome.toOption := by
  unfold evaluate
  simp only [outcome_bind, outcome_ofEvaluation (h.ensures_eval hid),
    outcome_reportValue h.ordered hid, outcome_pure]
  cases (e.arena.eval id).outcome with
  | ok v => rfl
  | error fault => rfl

theorem outcome_evaluateIndex (h : e.arena.Sound) (hid : id < e.arena.size) :
    (e.evaluateIndex id).outcome =
      orRejected ((e.arena.eval id).outcome.toOption.bind Value.toIndex?) := by
  unfold evaluateIndex
  rw [outcome_bind, outcome_evaluate h hid]
  refine orRejected_bind fun v _ => ?_
  cases v.toIndex? with
  | none => exact outcome_rejectExpr h.ordered hid _
  | some i => rfl

theorem ensures_evaluate (h : e.arena.Sound) (hid : id < e.arena.size) :
    (e.evaluate id).Ensures fun _ => True :=
  ensures_of_outcome (outcome_evaluate h hid)

theorem ensures_evaluateIndex (h : e.arena.Sound) (hid : id < e.arena.size) :
    (e.evaluateIndex id).Ensures fun _ => True :=
  ensures_of_outcome (outcome_evaluateIndex h hid)

theorem ensures_isConstant (h : e.arena.Ordered) (hid : id < e.arena.size) :
    (e.isConstant id).Ensures fun _ => True := by
  obtain ⟨result, hresult⟩ := h.exists_isConstant hid
  exact ensures_monadLift hresult trivial

theorem ensures_constantIndex (h : e.arena.Sound) (hid : id < e.arena.size)
    (role : OperandRole) : (e.constantIndex role id).Ensures fun _ => True := by
  refine (ensures_isConstant h.ordered hid).bind fun constant _ => ?_
  split
  · exact ensures_evaluateIndex h hid
  · exact ensures_rejectExpr h.ordered hid _

theorem ensures_constantIndex? (h : e.arena.Sound) (hid : id < e.arena.size) :
    (e.constantIndex? id).Ensures fun _ => True := by
  refine (ensures_isConstant h.ordered hid).bind fun constant _ => ?_
  split
  · exact (ensures_evaluateIndex h hid).bind fun _ _ => .pure trivial
  · exact .pure trivial

theorem ensures_warnElement (h : e.arena.Sound) (hid : id < e.arena.size)
    (dimensions : Dimensions) (range : BitRange) :
    (e.warnElement d dimensions (range, id)).Ensures fun _ => True := by
  refine (ensures_constantIndex? h hid).bind fun index _ => ?_
  cases index with
  | none => exact .pure trivial
  | some i =>
      dsimp only
      split
      · exact .pure trivial
      · exact ensures_reportIf _ _

/-! ### Changes -/

/-- An admissible expression is built if its operands are not used yet. -/
theorem ensures_build {expr : Expr} (h : e.arena.Sound)
    (husable : e.arena.Usable used expr.operands)
    (hadmissible : expr.Admissible e.arena.typeAt) :
    (e.build expr).Ensures fun b => b.Unshared (expr.operands ++ used) := by
  obtain ⟨b, hadds, hunshared⟩ := husable.unshared.exists_adds h.ordered
    (fun id hmem => ⟨husable.exist id hmem, husable.unused id hmem⟩) husable.nodup hadmissible
  have hsize : e.arena.size < b.size := by
    rw [hadds.size_eq]
    exact Nat.lt_succ_self _
  refine .bind_of_ok (Arena.add_eq_ok_iff.mpr hadds) ?_
  refine (ensures_log _).bind fun _ _ => ?_
  exact (ensures_reportType (h.of_adds hadds).ordered hsize).bind fun _ _ => .pure hunshared

/-- An admissible expression without operands is built whatever is used. -/
theorem ensures_build_leaf {expr : Expr} {uses : List ExprId} (h : e.arena.Sound)
    (hunshared : e.arena.Unshared used) (hleaf : expr.operands = [])
    (hadmissible : expr.Admissible e.arena.typeAt) :
    (e.build expr).Ensures fun b => b.Unshared (uses ++ used) := by
  have husable : e.arena.Usable used expr.operands := by
    rw [hleaf]
    exact ⟨hunshared, by simp, by simp, List.nodup_nil⟩
  refine (ensures_build h husable hadmissible).mono fun b hb => ?_
  rw [hleaf] at hb
  exact hb.mono (List.subset_append_right uses used)

/-- A context is imposed if the expression is not used yet. -/
theorem ensures_impose (h : e.arena.Sound) (husable : e.arena.Usable used [id])
    (required : DataType) :
    (e.impose id required).Ensures fun b => b.Unshared ([id] ++ used) := by
  have hid := husable.exist id (by simp)
  have hunused := husable.unused id (by simp)
  have hcontexts : ∀ context ∈ [(id, required)], context.1 ∉ used ∧ context.1 < e.arena.size := by
    simp [hid, hunused]
  obtain ⟨b, hrun⟩ := husable.unshared.exists_imposes h.ordered (by simp) hcontexts
  have hunshared := husable.unshared.of_imposes h.ordered
    (fun context hmem => (hcontexts context hmem).1) hrun
  refine (ensures_reportContext h.ordered hid required).bind fun _ _ => ?_
  refine .bind_of_ok (Arena.imposes_singleton_iff.mp hrun) ?_
  exact (ensures_log _).bind fun _ _ => .pure hunshared

end Elaborator

end VerilogExpr
