import VerilogExpr.Evaluation.Nodes
import VerilogExpr.Proofs.Arena.Reachable

/-!
# What an evaluation depends on

The value of an expression follows from its node, the values of its operands and, for comparisons,
the types of its operands.  In an ordered arena the check that operands are older never fails, so
`Arena.eval` satisfies the equation that one expects of it.  Together they say when a later arena
still evaluates an expression as an earlier one did.
-/

namespace VerilogExpr

namespace Evaluation

variable {a b : Arena} {f g : ExprId → Evaluation Value} {n : Node}

theorem concatBits_eq_of_eq {operands : List ExprId}
    (h : ∀ operand ∈ operands, f operand = g operand) :
    concatBits f operands = concatBits g operands := by
  refine foldlM_eq_of_eq (fun operand hmem acc => ?_) 0
  simp only [appendBits, h operand hmem]

/-- The value of an expression depends on nothing but its node and its operands. -/
theorem node_eq_of_eq (hvalues : ∀ operand ∈ n.expr.operands, f operand = g operand)
    (htypes : ∀ operand ∈ n.expr.operands, a.type operand = b.type operand) :
    node a f n = node b g n := by
  obtain ⟨e, t, required⟩ := n
  cases e with
  | literal value => rfl
  | reference d => rfl
  | bitSelect d index =>
      cases index with
      | fixed index => rfl
      | computed index =>
          have hindex := hvalues index (by simp [Expr.operands, BitIndex.operands])
          simp only [node, bitSelect, bitBounds, operandIndex, hindex]
  | partSelect d bounds =>
      cases bounds with
      | fixed left right => rfl
      | indexed base direction width =>
          have hbase := hvalues base (by simp [Expr.operands, PartBounds.operands])
          simp only [node, partSelect, partBounds, operandIndex, hbase]
  | element d indices =>
      have hindices : ∀ index ∈ indices, elementIndex f d index = elementIndex g d index := by
        intro index hmem
        simp only [elementIndex, operandIndex, hvalues index hmem]
      simp only [node, element, mapM_eq_of_eq hindices]
  | unary op x =>
      have hx := hvalues x (by simp [Expr.operands])
      simp only [node, unary, operandAs, hx]
  | binary op x y =>
      have hx := hvalues x (by simp [Expr.operands])
      have hy := hvalues y (by simp [Expr.operands])
      have hxtype := htypes x (by simp [Expr.operands])
      have hytype := htypes y (by simp [Expr.operands])
      cases op with
      | bitwise op => simp only [node, binary, bitwise, operandAs, hx, hy]
      | arith op => simp only [node, binary, arith, operandAs, hx, hy]
      | power => simp only [node, binary, power, operandInt, operandBits, operandAs, hx, hy]
      | shift op => simp only [node, binary, shift, operandInt, operandBits, operandAs, hx, hy]
      | compare op =>
          simp only [node, binary, compare, operandInt, operandAs, hx, hy, hxtype, hytype]
      | logic op => simp only [node, binary, logic, hx, hy]
  | ternary op x y z =>
      have hx := hvalues x (by simp [Expr.operands])
      have hy := hvalues y (by simp [Expr.operands])
      have hz := hvalues z (by simp [Expr.operands])
      cases op with
      | conditional =>
          simp only [node, ternary, operandAs, hx]
          congr 1
          funext condition
          cases condition.isTrue with
          | true => simp only [if_true, hy]
          | false => simp only [Bool.false_eq_true, if_false, hz]
      | minTypMax => simp only [node, ternary, operandAs, hy]
  | concat operands =>
      have hbits : concatBits f operands = concatBits g operands :=
        concatBits_eq_of_eq fun operand hmem => hvalues operand hmem
      simp only [node, hbits]
  | replicate count operands =>
      have hbits : concatBits f operands = concatBits g operands :=
        concatBits_eq_of_eq fun operand hmem => hvalues operand hmem
      simp only [node, replicateBits, hbits]

/-- The outer delays of a triple do not matter for its value. -/
theorem node_eq_of_evaluated
    (hvalues : ∀ operand, operand ∈ n.expr.covered ∨ operand ∈ n.expr.settled →
      f operand = g operand)
    (htypes : ∀ operand, operand ∈ n.expr.covered ∨ operand ∈ n.expr.settled →
      a.type operand = b.type operand) : node a f n = node b g n := by
  have hall : n.expr.covered = n.expr.forwarded → node a f n = node b g n := by
    intro hcovered
    rw [hcovered] at hvalues htypes
    exact node_eq_of_eq (fun operand hmem => hvalues operand (Expr.mem_operands_iff.mp hmem))
      fun operand hmem => htypes operand (Expr.mem_operands_iff.mp hmem)
  obtain ⟨e, t, required⟩ := n
  cases e with
  | ternary op x y z =>
      cases op with
      | conditional => exact hall rfl
      | minTypMax =>
          have hy := hvalues y (Or.inl (by simp [Expr.covered]))
          simp only [node, ternary, operandAs, hy]
  | _ => exact hall rfl

end Evaluation

namespace Arena

variable {a b : Arena} {id : ExprId} {n : Node}

/-- An evaluation evaluates the operands first, and records the value it finds. -/
theorem Ordered.eval_eq (h : a.Ordered) (hn : a.nodes[id]? = some n) :
    a.eval id = do
      let value ← Evaluation.node a a.eval n
      Evaluation.record id value
      return value := by
  have holder : ∀ operand ∈ n.expr.operands,
      (if operand < id then a.eval operand
        else Evaluation.stop (.violation (.youngerOperand id operand))) = a.eval operand :=
    fun operand hmem => if_pos (h id n hn operand hmem)
  conv => lhs; unfold eval
  rw [fold]
  simp only [hn]
  congr 1
  exact Evaluation.node_eq_of_eq holder fun operand _ => rfl

theorem Ordered.outcome_eval (h : a.Ordered) (hn : a.nodes[id]? = some n) :
    (a.eval id).outcome = (Evaluation.node a a.eval n).outcome := by
  rw [h.eval_eq hn]
  simp only [Evaluation.outcome_bind, Evaluation.outcome_record, Evaluation.outcome_pure]
  cases (Evaluation.node a a.eval n).outcome <;> rfl

end Arena

end VerilogExpr
