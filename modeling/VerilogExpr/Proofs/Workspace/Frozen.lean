import VerilogExpr.Proofs.Elaborator.Moves
import VerilogExpr.Proofs.Evaluation.Stability

/-!
# Finalized expressions are frozen

Operands may be shared freely, and a context widens an expression long after it was built.  Still
no value changes once it can be asked for in earnest: settled operands are final as soon as they
belong to an expression, a final expression has only final operands, and no later request reaches
what is final.
-/

namespace VerilogExpr.Workspace

variable {w : Workspace}

/-- **A finalized expression is frozen.** In a reachable workspace settled operands are finalized,
and so is everything that a finalized expression depends on.  An expression that is finalized, or
does not forward its context, has the same type and the same evaluation after all later requests
without a violation. -/
theorem Reachable.frozen (h : w.Reachable) :
    (∀ (id : ExprId) (n : Node), w.arena.nodes[id]? = some n →
      ∀ operand ∈ n.expr.settled, w.arena.Finalized operand) ∧
    (∀ id, w.arena.Finalized id →
      ∀ operand, w.arena.DependsOn id operand → w.arena.Finalized operand) ∧
    ∀ (id : ExprId) (n : Node), w.arena.nodes[id]? = some n →
      (n.state = .finalized ∨ n.expr.isForwarding = false) →
      ∀ requests w', w.RunsTo requests w' →
        w'.arena.type id = w.arena.type id ∧ w'.arena.eval id = w.arena.eval id := by
  have hsound := h.arena.sound
  refine ⟨fun id n hn operand hmem => hsound.finalized_of_settled hn hmem,
    fun id hid operand hdepends => hsound.finalized_of_dependsOn hid hdepends, ?_⟩
  intro id n hn hstate requests w' hruns
  rw [Node.state_eq_finalized_iff] at hstate
  have hevolves := hruns.evolves
  obtain ⟨m, hm, -⟩ := hevolves id n hn
  have htype := hevolves.type_eq_of_frozen hn hm hstate
  constructor
  · have htypes : w'.arena.typeAt id = w.arena.typeAt id := by
      rw [Arena.typeAt_of_node hm, Arena.typeAt_of_node hn, htype]
    rw [Arena.type_eq_ok_iff.mpr ⟨Arena.lt_size_of_node hm, rfl⟩,
      Arena.type_eq_ok_iff.mpr ⟨Arena.lt_size_of_node hn, rfl⟩, htypes]
  · exact hsound.eval_eq_of_evolves (hruns.reachable h.arena).sound.ordered hevolves hn hstate

/-- The requests that assign `4'hf + 4'h1` to a target of eight bits. -/
def carryRequests : List Request :=
  [.elaborate (.basedLiteral .unsigned (some 4) 15),
    .elaborate (.basedLiteral .unsigned (some 4) 1),
    .elaborate (.binary (.arith .add) 0 1),
    .elaborate (.assign (.sizedVector .unsigned 8) 2)]

def carry : Workspace := ((fresh .standard).run carryRequests).2

theorem reachable_carry : carry.Reachable := by
  have hall : ((fresh .standard).run carryRequests).1.all Except.isOk = true := by
    decide +kernel
  refine ⟨.standard, carryRequests, fun v hmem => ?_, rfl⟩
  have hok := List.all_eq_true.mp hall _ hmem
  cases hok

theorem frozen_carry :
    carry.Reachable ∧ ∀ requests w', carry.RunsTo requests w' →
      (w'.arena.eval 2).outcome = .ok ⟨.sizedVector .unsigned 8, .integer 16⟩ := by
  have harena : carry.arena = .carry := by decide +kernel
  have hnode : carry.arena.nodes[2]? =
      some ⟨.binary (.arith .add) 0 1, .sizedVector .unsigned 8,
        some (.sizedVector .unsigned 8)⟩ := by
    rw [harena]
    rfl
  have hvalue : (carry.arena.eval 2).outcome = .ok ⟨.sizedVector .unsigned 8, .integer 16⟩ := by
    decide +kernel
  refine ⟨reachable_carry, fun requests w' hruns => ?_⟩
  have hlater := (reachable_carry.frozen.2.2 2 _ hnode (Or.inl rfl) requests w' hruns).2
  rw [hlater, hvalue]

end VerilogExpr.Workspace
