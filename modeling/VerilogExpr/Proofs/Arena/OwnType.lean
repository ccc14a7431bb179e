import VerilogExpr.Proofs.Arena.Recorded

/-!
# Types that no context changes

An expression that hands no context on keeps the type that it was built with.  That type looks at
the types of its operands only in a concatenation, whose operands are settled at their own widths
and keep them.  So the types can be read off the final arena: `Arena.OwnTyped` is an invariant.
-/

namespace VerilogExpr

namespace Expr

variable {e : Expr} {types types' : ExprId → DataType} {operand : ExprId}

def pieces : Expr → List ExprId
  | concat operands => operands
  | replicate _ operands => operands
  | _ => []

theorem mem_settled_of_pieces (h : operand ∈ e.pieces) : operand ∈ e.settled := by
  cases e with
  | concat operands => exact h
  | replicate count operands => exact h
  | _ => cases h

theorem settledType_of_pieces (h : operand ∈ e.pieces) (types : ExprId → DataType) :
    e.settledType types operand = types operand := by
  cases e with
  | concat operands => rfl
  | replicate count operands => rfl
  | _ => cases h

theorem isForwarding_of_isChoice (h : e.isChoice = true) : e.isForwarding = true := by
  cases e with
  | ternary op x y z => rfl
  | _ => cases h

/-- The type of an expression that no context widens, from the types of its pieces. -/
theorem selfType_eq_of_pieces (hleaf : e.isForwarding = false)
    (h : ∀ operand ∈ e.pieces, types operand = types' operand) :
    e.selfType types = e.selfType types' := by
  cases e with
  | unary op x =>
      have hsink : op.isSink = true := by simpa [isForwarding] using hleaf
      simp only [selfType, hsink, if_true]
  | binary op x y =>
      cases op with
      | compare f => rfl
      | logic f => rfl
      | _ => cases hleaf
  | ternary op x y z => cases hleaf
  | concat operands =>
      have hwidth : totalWidth types operands = totalWidth types' operands := totalWidth_eq_of_eq h
      simp only [selfType, hwidth]
  | replicate count operands =>
      have hwidth : totalWidth types operands = totalWidth types' operands := totalWidth_eq_of_eq h
      simp only [selfType, hwidth]
  | _ => rfl

end Expr

namespace Arena

variable {a b c : Arena} {id operand : ExprId} {n m : Node} {e : Expr}
  {contexts : List (ExprId × DataType)}

def OwnTyped (a : Arena) : Prop :=
  ∀ (id : ExprId) (n : Node), a.nodes[id]? = some n → n.expr.isForwarding = false →
    n.type = n.expr.selfType a.typeAt

theorem OwnTyped.type_eq (h : a.OwnTyped) (hn : a.nodes[id]? = some n) (hexpr : n.expr = e)
    (hleaf : e.isForwarding = false) : n.type = e.selfType a.typeAt := by
  subst hexpr
  exact h id n hn hleaf

theorem ownTyped_empty : empty.OwnTyped := by
  intro id n hn
  simp [empty] at hn

/-- Pieces are final, so what follows from their types does not change. -/
theorem OwnTyped.of_earlier (h : a.OwnTyped) (hrecorded : a.Recorded) (hevolves : a.Evolves b)
    (hlt : id < a.size) (hm : b.nodes[id]? = some m) (hleaf : m.expr.isForwarding = false) :
    m.type = m.expr.selfType b.typeAt := by
  obtain ⟨n, hn, hnm⟩ := hevolves.exists_earlier hlt hm
  rw [hnm.expr_eq] at hleaf
  rw [hnm.expr_eq, hnm.type_eq hleaf, h id n hn hleaf]
  refine Expr.selfType_eq_of_pieces hleaf fun operand hmem => ?_
  have hcontext := hrecorded id n hn operand (Expr.mem_settled_of_pieces hmem)
  exact (hevolves.typeAt_of_some hcontext).symm

theorem OwnTyped.of_imposes (h : a.OwnTyped) (hrecorded : a.Recorded)
    (hrun : Imposes a contexts b) : b.OwnTyped := by
  intro id m hm hleaf
  exact h.of_earlier hrecorded hrun.evolves (hrun.size_eq ▸ lt_size_of_node hm) hm hleaf

/-- Construction settles the pieces at their own types, which they keep. -/
theorem Imposes.typeAt_pieces (hrun : Imposes a (e.settledContexts a.typeAt) c)
    (hoperands : ∀ operand ∈ e.operands, operand < a.size) (hmem : operand ∈ e.pieces) :
    c.typeAt operand = a.typeAt operand := by
  have hsettled := Expr.mem_settled_of_pieces hmem
  have hlt := hoperands operand (Expr.mem_operands_of_settled hsettled)
  have hcontext := hrun.requiredAt_settled hsettled
  rw [Expr.settledType_of_pieces hmem] at hcontext
  exact hrun.evolves.typeAt_of_required hlt hcontext (Nat.le_refl _)

theorem OwnTyped.of_adds (h : a.OwnTyped) (hrecorded : a.Recorded) (hadds : Adds a e b) :
    b.OwnTyped := by
  have hevolves := hadds.evolves
  obtain ⟨hoperands, -, c, hrun, rfl⟩ := hadds
  intro id n hn hleaf
  rcases nodes_push_eq_some hn with ⟨rfl, rfl⟩ | hold
  · have hchoice : e.isChoice = false := by
      rw [← Bool.not_eq_true]
      intro hchoice
      exact absurd (hleaf.symm.trans (Expr.isForwarding_of_isChoice hchoice)) (by simp)
    simp only [hchoice, Bool.false_eq_true, if_false]
    refine Expr.selfType_eq_of_pieces hleaf fun operand hmem => ?_
    have hlt := hoperands operand
      (Expr.mem_operands_of_settled (Expr.mem_settled_of_pieces hmem))
    rw [← hrun.size_eq] at hlt
    rw [← hrun.typeAt_pieces hoperands hmem, typeAt, typeAt, nodes_push_of_lt _ _ _ hlt]
  · exact h.of_earlier hrecorded hevolves (hrun.size_eq ▸ lt_size_of_node hold) hn hleaf

theorem OwnTyped.of_act {action : Action} (h : a.OwnTyped) (hrecorded : a.Recorded)
    (hact : a.act action = .ok b) : b.OwnTyped := by
  rcases act_eq_ok hact with ⟨e, hadds⟩ | ⟨id, required, hrun⟩
  · exact h.of_adds hrecorded hadds
  · exact h.of_imposes hrecorded hrun

theorem Reachable.ownTyped (h : a.Reachable) : a.OwnTyped := by
  obtain ⟨actions, hrun⟩ := h
  have hboth : a.Recorded ∧ a.OwnTyped :=
    run_preserves (P := fun a => a.Recorded ∧ a.OwnTyped)
      (fun hact ha => ⟨ha.1.of_act hact, ha.2.of_act ha.1 hact⟩) hrun
      ⟨recorded_empty, ownTyped_empty⟩
  exact hboth.2

end Arena

end VerilogExpr
