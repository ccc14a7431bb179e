import VerilogExpr.Proofs.Arena.Recorded
import VerilogExpr.Proofs.Arena.SharedWidth
import VerilogExpr.Proofs.Evaluation.Unbounded

/-!
# Evaluation before and after sizing

An expression can be evaluated before it has a context.  Its operators then have the widths that
they were built with, and an inner one may be narrower than the whole: `(4'hf + 4'h1) + 8'h0` is
zero as it is built, and sixteen once its own width has been imposed onto it.  The two evaluations
agree if all operators in the context are as wide as the expression, since its own width then
changes none of their types.
-/

namespace VerilogExpr

/-- A context that leaves the width alone leaves the type alone. -/
theorem Node.Evolves.type_eq_of_width_eq {n m : Node} (h : n.Evolves m)
    (hwidth : m.type.width = n.type.width) : m.type = n.type := by
  rcases h with rfl | ⟨-, required, rfl⟩
  · rfl
  · cases hforward : n.expr.isForwarding with
    | true =>
        rw [type_inContext_of_forwarding hforward, DataType.widened] at hwidth ⊢
        split
        · rfl
        · rename_i hreal
          split
          · rfl
          · rename_i hle
            simp only [hreal, hle, if_false] at hwidth
            exact absurd (Nat.le_of_eq hwidth) hle
    | false => exact type_inContext_of_not_forwarding hforward required

namespace Arena

variable {a b : Arena} {root id operand : ExprId} {n : Node}

def UniformWidth (a : Arena) (root : ExprId) : Prop :=
  ∀ id n, a.InContextOf root id → a.nodes[id]? = some n → n.expr.isForwarding = true →
    n.type.width = (a.typeAt root).width

/-- A single operator over leaves is as wide as itself. -/
theorem uniformWidth_of_leaves (hn : a.nodes[root]? = some n)
    (hleaves : ∀ operand ∈ n.expr.covered, ∃ m, a.nodes[operand]? = some m ∧
      m.expr.isForwarding = false) : a.UniformWidth root := by
  intro id m hcontext hm hforward
  rcases Relation.ReflTransGen.cases_head hcontext with rfl | ⟨operand, ⟨n', hn', hmem⟩, hbelow⟩
  · rw [typeAt_of_node hm]
  · obtain rfl := Option.some.inj (hn.symm.trans hn')
    obtain ⟨k, hk, hleaf⟩ := hleaves operand hmem
    obtain rfl := InContextOf.eq_of_not_forwarding hbelow hk hleaf
    obtain rfl := Option.some.inj (hk.symm.trans hm)
    exact absurd (hleaf.symm.trans hforward) (by simp)

/-- What an evaluation looks at is in the context of the expression, or final. -/
theorem Sound.inContextOf_or_finalized (h : a.Sound)
    (hevaluates : Relation.ReflTransGen a.Evaluates root id) :
    a.InContextOf root id ∨ a.Finalized id := by
  induction hevaluates with
  | refl => exact Or.inl .refl
  | tail _ hlast ih =>
      rcases ih with hcontext | hfinal
      · obtain ⟨n, hn, hcovered | hsettled⟩ := hlast
        · exact Or.inl (hcontext.tail ⟨n, hn, hcovered⟩)
        · exact Or.inr (h.finalized_of_settled hn hsettled)
      · exact Or.inr (h.finalized_of_hasOperand hfinal hlast.hasOperand)

/-- The own width of an expression changes no value if its operators have that width already. -/
theorem Sound.eval_eq_of_uniformWidth (ha : a.Sound) (hb : b.Sound) (hevolves : a.Evolves b)
    (hn : a.nodes[root]? = some n) (hreal : n.type.isReal = false)
    (huniform : a.UniformWidth root) (hrequired : b.requiredAt root = some n.type) :
    b.eval root = a.eval root := by
  obtain ⟨m, hm, hnm⟩ := hevolves root n hn
  rw [requiredAt_of_node hm] at hrequired
  have htype := hnm.type_eq_of_required hrequired (Nat.le_refl _)
  have hsized : m.SizedTo n.type.width :=
    ⟨by simp [hrequired], by rw [htype, hreal], fun _ => by rw [htype]⟩
  have hshared := hb.sharesWidth ha.ordered hevolves hn hm hsized
  refine ha.ordered.eval_eq_of_typeAt_eq hb.ordered hevolves (lt_size_of_node hn) ?_
  intro other hevaluates
  rcases ha.inContextOf_or_finalized hevaluates with hcontext | hfinal
  · obtain ⟨p, q, hp, hq, hwidth, hkept⟩ := hshared.nodes other hcontext
    rw [typeAt_of_node hp, typeAt_of_node hq]
    cases hforward : p.expr.isForwarding with
    | true =>
        have hsame := huniform other p hcontext hp hforward
        rw [typeAt_of_node hn] at hsame
        exact (hevolves.node_evolves hp hq).type_eq_of_width_eq
          ((hwidth hforward).trans hsame.symm)
    | false => exact hkept hforward
  · exact hevolves.typeAt_of_finalized hfinal

end Arena

end VerilogExpr
