import VerilogExpr.Proofs.Bits.Modular
import VerilogExpr.Proofs.Evaluation.Soundness
import VerilogExpr.Proofs.Evaluation.Stability

/-!
# Evaluation without truncation

A context gives one width to everything that is evaluated in it, and every operator cuts its result
to that width.  For the operators whose low bits follow from the low bits of their operands, nothing
is lost by that: the value is the one that `Arena.unbounded?` computes on integers of any size, cut
once at the end.
-/

namespace VerilogExpr

/-! ### The reference -/

def Value.bits? (v : Value) : Option Nat := v.toInt?.map fun n => Bits.mask n v.type.width

/-- An operation on integers of any size.  The operands in the context of the expression are given
by their integers, the settled ones by their values.  There is no answer for operators whose low
bits need more than the low bits of the operands. -/
def Expr.unbounded? (value? : ExprId → Option Value) (inner? : ExprId → Option Int) :
    Expr → Option Int
  | unary .plus x => inner? x
  | unary .minus x => do return -(← inner? x)
  | unary .bitNot x => do return Int.lnot (← inner? x)
  | binary (.bitwise op) x y => do return op.onIntegers (← inner? x) (← inner? y)
  | binary (.arith .add) x y => do return (← inner? x) + (← inner? y)
  | binary (.arith .sub) x y => do return (← inner? x) - (← inner? y)
  | binary (.arith .mul) x y => do return (← inner? x) * (← inner? y)
  | binary .power x y => do
    let v ← value? y
    return (← inner? x) ^ (← v.bits?)
  | binary (.shift .logicalLeft) x y => do
    let v ← value? y
    return (← inner? x) * 2 ^ (← v.bits?)
  | binary (.shift .arithLeft) x y => do
    let v ← value? y
    return (← inner? x) * 2 ^ (← v.bits?)
  | ternary .conditional x y z => do
    let v ← value? x
    if v.isTrue then inner? y else inner? z
  | ternary .minTypMax _ y _ => inner? y
  | _ => none

/-- Whether the low bits of an operation follow from the low bits of its operands. -/
def Expr.isModular : Expr → Bool
  | unary op _ => !op.isSink
  | binary (.bitwise _) _ _ => true
  | binary (.arith .add) _ _ => true
  | binary (.arith .sub) _ _ => true
  | binary (.arith .mul) _ _ => true
  | binary .power _ _ => true
  | binary (.shift op) _ _ => op.isLeft
  | ternary _ _ _ _ => true
  | _ => false

namespace Arena

def value? (a : Arena) (id : ExprId) : Option Value := (a.eval id).outcome.toOption

def index? (a : Arena) (id : ExprId) : Option Int := (a.value? id).bind Value.toIndex?

/-- The integer of an expression that no context widens, read with the sign of the operator above
it. -/
def leaf? (a : Arena) (id : ExprId) (signed : Bool) : Option Int := do
  let v ← a.value? id
  let n ← v.getInt?
  return Bits.truncate n v.type.width signed

/-- The value of an expression on integers of any size, below an operator of the given sign. -/
def unbounded? (a : Arena) (id : ExprId) (signed : Bool) : Option Int :=
  a.fold (fun _ _ => none)
    (fun id n (inner? : ExprId → Bool → Option Int) signed =>
      if n.expr.isForwarding then
        n.expr.unbounded? a.value? fun operand => inner? operand n.type.isSigned
      else a.leaf? id signed) id signed

/-- Everything that is evaluated in the context of the expression is modular.  Of a delay triple
that is the middle delay. -/
inductive Modular (a : Arena) : ExprId → Prop where
  | leaf {id : ExprId} {n : Node} (hn : a.nodes[id]? = some n)
      (hleaf : n.expr.isForwarding = false) : Modular a id
  | operator {id : ExprId} {n : Node} (hn : a.nodes[id]? = some n)
      (hop : n.expr.isModular = true)
      (hoperands : ∀ operand ∈ n.expr.covered, Modular a operand) : Modular a id

end Arena

/-! ### What the reference depends on -/

namespace Expr

variable {e : Expr} {value? value?' : ExprId → Option Value} {inner? inner?' : ExprId → Option Int}

theorem unbounded?_eq_of_eq (hvalue : ∀ operand ∈ e.settled, value? operand = value?' operand)
    (hinner : ∀ operand ∈ e.covered, inner? operand = inner?' operand) :
    e.unbounded? value? inner? = e.unbounded? value?' inner?' := by
  cases e with
  | unary op x =>
      cases op with
      | reduce reduction => rfl
      | logicNot => rfl
      | _ =>
          have hx := hinner x (by simp [covered, forwarded, UnaryOp.isSink])
          simp only [unbounded?, hx]
  | binary op x y =>
      cases op with
      | bitwise op =>
          have hx := hinner x (by simp [covered, forwarded])
          have hy := hinner y (by simp [covered, forwarded])
          simp only [unbounded?, hx, hy]
      | arith op =>
          have hx := hinner x (by simp [covered, forwarded])
          have hy := hinner y (by simp [covered, forwarded])
          cases op <;> simp only [unbounded?, hx, hy]
      | power =>
          have hx := hinner x (by simp [covered, forwarded])
          have hy := hvalue y (by simp [settled])
          simp only [unbounded?, hx, hy]
      | shift op =>
          have hx := hinner x (by simp [covered, forwarded])
          have hy := hvalue y (by simp [settled])
          cases op <;> simp only [unbounded?, hx, hy]
      | compare op => rfl
      | logic op => rfl
  | ternary op x y z =>
      cases op with
      | conditional =>
          have hx := hvalue x (by simp [settled])
          have hy := hinner y (by simp [covered, forwarded])
          have hz := hinner z (by simp [covered, forwarded])
          simp only [unbounded?, hx, hy, hz]
      | minTypMax =>
          have hy := hinner y (by simp [covered])
          simp only [unbounded?, hy]
  | _ => rfl

end Expr

namespace Arena

variable {a b : Arena} {id : ExprId} {n : Node} {v : Value}

theorem value?_eq_some_iff : a.value? id = some v ↔ (a.eval id).outcome = .ok v :=
  toOption_eq_some_iff

theorem Ordered.unbounded?_eq (h : a.Ordered) (hn : a.nodes[id]? = some n) (signed : Bool) :
    a.unbounded? id signed =
      if n.expr.isForwarding then
        n.expr.unbounded? a.value? fun operand => a.unbounded? operand n.type.isSigned
      else a.leaf? id signed := by
  conv => lhs; unfold unbounded?
  rw [fold]
  simp only [hn]
  split
  · refine Expr.unbounded?_eq_of_eq (fun _ _ => rfl) fun operand hmem => ?_
    rw [if_pos (h.forwarded_lt hn (Expr.mem_forwarded_of_covered hmem))]
    rfl
  · rfl

/-- Contexts that come later do not change the reference: leaves and settled operands are frozen,
and the other expressions keep their sign. -/
theorem Sound.unbounded?_eq_of_evolves (ha : a.Sound) (hb : b.Ordered) (hevolves : a.Evolves b)
    (hid : id < a.size) (signed : Bool) : b.unbounded? id signed = a.unbounded? id signed := by
  induction id using Nat.strongRecOn generalizing signed with
  | ind id ih =>
      obtain ⟨n, hn⟩ := exists_node hid
      obtain ⟨m, hm, hnm⟩ := hevolves id n hn
      rw [hb.unbounded?_eq hm, ha.ordered.unbounded?_eq hn, hnm.expr_eq, ← hnm.similar.signed]
      split
      · refine Expr.unbounded?_eq_of_eq (fun operand hmem => ?_) fun operand hmem => ?_
        · obtain ⟨k, hk, hstate⟩ := ha.finalized_of_settled hn hmem
          have hfinal := Node.state_eq_finalized_iff.mp hstate
          unfold value?
          rw [ha.eval_eq_of_evolves hb hevolves hk (Or.inl hfinal)]
        · have hlt := ha.ordered.forwarded_lt hn (Expr.mem_forwarded_of_covered hmem)
          exact ih operand hlt (Nat.lt_trans hlt hid) _
      · rename_i hleaf
        have hsink : n.expr.isForwarding = false := by simpa using hleaf
        unfold leaf? value?
        rw [ha.eval_eq_of_evolves hb hevolves hn (Or.inr hsink)]

theorem modular_iff (hn : a.nodes[id]? = some n) :
    a.Modular id ↔ n.expr.isForwarding = false ∨
      n.expr.isModular = true ∧ ∀ operand ∈ n.expr.covered, a.Modular operand := by
  constructor
  · intro h
    cases h with
    | leaf hm hleaf =>
        obtain rfl := Option.some.inj (hn.symm.trans hm)
        exact Or.inl hleaf
    | operator hm hop hoperands =>
        obtain rfl := Option.some.inj (hn.symm.trans hm)
        exact Or.inr ⟨hop, hoperands⟩
  · rintro (hleaf | ⟨hop, hoperands⟩)
    · exact .leaf hn hleaf
    · exact .operator hn hop hoperands

theorem Evolves.modular_iff (hevolves : a.Evolves b) (ha : a.Ordered) (hid : id < a.size) :
    b.Modular id ↔ a.Modular id := by
  induction id using Nat.strongRecOn with
  | ind id ih =>
      obtain ⟨n, hn⟩ := exists_node hid
      obtain ⟨m, hm, hnm⟩ := hevolves id n hn
      rw [Arena.modular_iff hm, Arena.modular_iff hn, hnm.expr_eq]
      refine or_congr_right (and_congr_right fun _ => forall₂_congr fun operand hmem => ?_)
      have hlt := ha.forwarded_lt hn (Expr.mem_forwarded_of_covered hmem)
      exact ih operand hlt (Nat.lt_trans hlt hid)

end Arena

end VerilogExpr
