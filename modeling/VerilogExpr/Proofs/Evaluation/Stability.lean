import Mathlib.Logic.Relation
import VerilogExpr.Proofs.Evaluation.Locality

/-!
# Expressions that no longer change

An expression with a context is final: so are its operands, and in the end everything that it
depends on.  Nothing that is done to the arena later can change its type or its value.  The same
holds of an expression that does not forward its context, even before it has one.
-/

namespace VerilogExpr

theorem Node.state_eq_finalized_iff {n : Node} : n.state = .finalized ↔ n.required ≠ none := by
  unfold state
  cases n.required <;> simp

theorem Evaluation.node_eq_of_node {a : Arena} {f : ExprId → Evaluation Value} {n m : Node}
    (hexpr : m.expr = n.expr) (htype : m.type = n.type) : node a f m = node a f n := by
  unfold node
  rw [hexpr, htype]

namespace Arena

variable {a b : Arena} {id operand other : ExprId} {n m : Node}

def Finalized (a : Arena) (id : ExprId) : Prop :=
  ∃ n, a.nodes[id]? = some n ∧ n.state = .finalized

def HasOperand (a : Arena) (id operand : ExprId) : Prop :=
  ∃ n, a.nodes[id]? = some n ∧ operand ∈ n.expr.operands

def DependsOn (a : Arena) : ExprId → ExprId → Prop := Relation.ReflTransGen a.HasOperand

theorem dependsOn_operand (hn : a.nodes[id]? = some n) (hmem : operand ∈ n.expr.operands)
    (h : a.DependsOn operand other) : a.DependsOn id other :=
  .head ⟨n, hn, hmem⟩ h

theorem dependsOn_iff (hn : a.nodes[id]? = some n) :
    a.DependsOn id other ↔
      other = id ∨ ∃ operand ∈ n.expr.operands, a.DependsOn operand other := by
  constructor
  · intro h
    rcases Relation.ReflTransGen.cases_head h with rfl | ⟨operand, ⟨n', hn', hmem⟩, hrest⟩
    · exact Or.inl rfl
    · obtain rfl := Option.some.inj (hn.symm.trans hn')
      exact Or.inr ⟨operand, hmem, hrest⟩
  · rintro (rfl | ⟨operand, hmem, hrest⟩)
    · exact .refl
    · exact dependsOn_operand hn hmem hrest

theorem Ordered.le_of_dependsOn (h : a.Ordered) (hdepends : a.DependsOn id other) : other ≤ id := by
  induction hdepends with
  | refl => exact Nat.le_refl id
  | tail _ hlast ih =>
      obtain ⟨n, hn, hmem⟩ := hlast
      exact Nat.le_trans (Nat.le_of_lt (h _ n hn _ hmem)) ih

theorem finalized_iff : a.Finalized id ↔ a.requiredAt id ≠ none := by
  unfold Finalized requiredAt
  cases hn : a.nodes[id]? with
  | none => simp
  | some n => simp [Node.state_eq_finalized_iff]

theorem Sound.finalized_of_settled (h : a.Sound) (hn : a.nodes[id]? = some n)
    (hmem : operand ∈ n.expr.settled) : a.Finalized operand :=
  finalized_iff.mpr (h.settled id n hn operand hmem)

/-- The operands of an expression that cannot change any more cannot change either. -/
theorem Sound.finalized_operand (h : a.Sound) (hn : a.nodes[id]? = some n)
    (hfrozen : n.required ≠ none ∨ n.expr.isForwarding = false)
    (hmem : operand ∈ n.expr.operands) : a.Finalized operand := by
  rcases Expr.mem_operands_iff.mp hmem with hforwarded | hsettled
  · rcases hfrozen with hrequired | hsink
    · have hcontext := h.closed id n hn hrequired operand hforwarded
      exact finalized_iff.mpr (by simp [hcontext])
    · simp [Expr.forwarded_of_not_forwarding hsink] at hforwarded
  · exact h.finalized_of_settled hn hsettled

theorem Sound.finalized_of_hasOperand (h : a.Sound) (hid : a.Finalized id)
    (hoperand : a.HasOperand id operand) : a.Finalized operand := by
  obtain ⟨n, hn, hmem⟩ := hoperand
  rw [finalized_iff, requiredAt_of_node hn] at hid
  exact h.finalized_operand hn (Or.inl hid) hmem

theorem Sound.finalized_of_dependsOn (h : a.Sound) (hid : a.Finalized id)
    (hdepends : a.DependsOn id operand) : a.Finalized operand := by
  induction hdepends with
  | refl => exact hid
  | tail _ hlast ih => exact h.finalized_of_hasOperand ih hlast

/-- An expression that cannot change any more has the same type from then on. -/
theorem Evolves.type_eq_of_frozen (h : a.Evolves b) (hn : a.nodes[id]? = some n)
    (hm : b.nodes[id]? = some m) (hfrozen : n.required ≠ none ∨ n.expr.isForwarding = false) :
    m.type = n.type := by
  obtain ⟨k, hk, hnk⟩ := h id n hn
  obtain rfl : m = k := by simpa [hm] using hk
  rcases hfrozen with hrequired | hsink
  · rw [hnk.eq_of_required hrequired]
  · exact hnk.type_eq hsink

def Evaluates (a : Arena) (id operand : ExprId) : Prop :=
  ∃ n, a.nodes[id]? = some n ∧ (operand ∈ n.expr.covered ∨ operand ∈ n.expr.settled)

theorem Evaluates.hasOperand (h : a.Evaluates id operand) : a.HasOperand id operand := by
  obtain ⟨n, hn, hcovered | hsettled⟩ := h
  · exact ⟨n, hn, Expr.mem_operands_of_forwarded (Expr.mem_forwarded_of_covered hcovered)⟩
  · exact ⟨n, hn, Expr.mem_operands_of_settled hsettled⟩

/-- An expression has the same evaluation in a later arena if everything that the evaluation looks
at has the same type there.  The recursion is on the handle. -/
theorem Ordered.eval_eq_of_typeAt_eq (ha : a.Ordered) (hb : b.Ordered) (hevolves : a.Evolves b)
    (hid : id < a.size)
    (htypes : ∀ other, Relation.ReflTransGen a.Evaluates id other →
      b.typeAt other = a.typeAt other) : b.eval id = a.eval id := by
  induction id using Nat.strongRecOn with
  | ind id ih =>
      obtain ⟨n, hn⟩ := exists_node hid
      obtain ⟨m, hm, hnm⟩ := hevolves id n hn
      have htype : m.type = n.type := by
        have hself := htypes id .refl
        rwa [typeAt_of_node hn, typeAt_of_node hm] at hself
      have hlt : ∀ operand, a.Evaluates id operand → operand < id := by
        intro operand hevaluates
        obtain ⟨n', hn', hmem⟩ := hevaluates.hasOperand
        exact ha id n' hn' operand hmem
      have hvalue : ∀ operand, a.Evaluates id operand → b.eval operand = a.eval operand :=
        fun operand h => ih operand (hlt operand h) (Nat.lt_trans (hlt operand h) hid)
          fun other hother => htypes other (.head h hother)
      have hoperandType : ∀ operand, a.Evaluates id operand → b.type operand = a.type operand := by
        intro operand h
        have hsize := Nat.lt_trans (hlt operand h) hid
        rw [type_eq_ok_iff.mpr ⟨hsize, rfl⟩,
          type_eq_ok_iff.mpr ⟨hevolves.lt_size hsize, htypes operand (.single h)⟩]
      rw [hb.eval_eq hm, ha.eval_eq hn, Evaluation.node_eq_of_node hnm.expr_eq htype,
        Evaluation.node_eq_of_evaluated (fun operand h => hvalue operand ⟨n, hn, h⟩)
          fun operand h => hoperandType operand ⟨n, hn, h⟩]

theorem Evolves.typeAt_of_finalized (h : a.Evolves b) (hid : a.Finalized id) :
    b.typeAt id = a.typeAt id := by
  obtain ⟨required, hrequired⟩ := Option.ne_none_iff_exists'.mp (finalized_iff.mp hid)
  exact h.typeAt_of_some hrequired

/-- An expression that cannot change any more is evaluated in the same way from then on: all that
it depends on is final. -/
theorem Sound.eval_eq_of_evolves (ha : a.Sound) (hb : b.Ordered) (hevolves : a.Evolves b)
    (hn : a.nodes[id]? = some n) (hfrozen : n.required ≠ none ∨ n.expr.isForwarding = false) :
    b.eval id = a.eval id := by
  refine ha.ordered.eval_eq_of_typeAt_eq hb hevolves (lt_size_of_node hn) fun other hother => ?_
  rcases Relation.ReflTransGen.cases_head hother with rfl | ⟨operand, hfirst, hrest⟩
  · obtain ⟨m, hm, -⟩ := hevolves id n hn
    rw [typeAt_of_node hn, typeAt_of_node hm, hevolves.type_eq_of_frozen hn hm hfrozen]
  · obtain ⟨n', hn', hmem⟩ := hfirst.hasOperand
    obtain rfl := Option.some.inj (hn.symm.trans hn')
    have hoperand := ha.finalized_operand hn hfrozen hmem
    have hdepends : a.DependsOn operand other :=
      Relation.ReflTransGen.mono (fun _ _ h => h.hasOperand) _ _ hrest
    exact hevolves.typeAt_of_finalized (ha.finalized_of_dependsOn hoperand hdepends)

theorem Sound.eval_eq_of_settled (ha : a.Sound) (hb : b.Ordered) (hevolves : a.Evolves b)
    (hn : a.nodes[id]? = some n) (hmem : operand ∈ n.expr.settled) :
    b.eval operand = a.eval operand := by
  obtain ⟨m, hm, hstate⟩ := ha.finalized_of_settled hn hmem
  exact ha.eval_eq_of_evolves hb hevolves hm (Or.inl (Node.state_eq_finalized_iff.mp hstate))

end Arena

end VerilogExpr
