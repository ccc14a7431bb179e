import VerilogExpr.Proofs.Arena.Operands

/-!
# What holds in every arena

Five properties of arenas are kept by every action:

* operands are older than the expressions they belong to (`Arena.Ordered`);
* an expression is admissible, and has the kind of type, that follows from its operands
  (`Arena.WellTyped`);
* settled operands have a context (`Arena.Settled`);
* an expression with a context has handed its type on to the operands that it forwards to
  (`Arena.Closed`);
* an integral expression is at least as wide as the operands it covers for as long as these have no
  context, and just as wide as those that were widened with it (`Arena.Covering`).

`Arena.Closed` is broken while contexts are being imposed: an expression then has its context before
its operands do.  `Arena.ClosedUpTo` makes up for that by listing the contexts still to come.
-/

namespace VerilogExpr

/-- The width of an operand against that of an expression that covers it.  Where both have a
context, the operand was widened along with the expression. -/
structure Node.Covers (n operand : Node) : Prop where
  width_le : n.required ≠ none ∨ operand.required = none → operand.type.width ≤ n.type.width
  width_eq : n.required ≠ none → operand.required ≠ none → operand.expr.isForwarding = true →
    operand.type.width = n.type.width

/-- A context reaches an expression only from above, with the width that it then has. -/
theorem Node.Covers.inContext {n p : Node} (h : p.Covers n) (hp : p.type.isReal = false)
    (hn : n.type.isReal = false) (hnone : n.required = none) :
    p.Covers (n.inContext p.type) := by
  constructor
  · intro hcontext
    have hfinalized : p.required ≠ none := by simpa using hcontext
    have hle := h.width_le (Or.inr hnone)
    cases hforward : n.expr.isForwarding with
    | true =>
        rw [Node.type_inContext_of_forwarding hforward, DataType.width_widened hn hp]
        exact Nat.max_le.mpr ⟨hle, Nat.le_refl _⟩
    | false =>
        rw [Node.type_inContext_of_not_forwarding hforward]
        exact hle
  · intro _ _ hforward
    have hforward : n.expr.isForwarding = true := hforward
    have hle := h.width_le (Or.inr hnone)
    rw [Node.type_inContext_of_forwarding hforward, DataType.width_widened hn hp]
    exact Nat.max_eq_right hle

namespace Arena

variable {a b : Arena} {id operand : ExprId} {n m : Node} {e : Expr}
  {contexts : List (ExprId × DataType)}

def Ordered (a : Arena) : Prop :=
  ∀ (id : ExprId) (n : Node), a.nodes[id]? = some n → ∀ operand ∈ n.expr.operands, operand < id

def WellTyped (a : Arena) : Prop :=
  ∀ (id : ExprId) (n : Node), a.nodes[id]? = some n →
    n.expr.Admissible a.typeAt ∧ n.type.Similar (n.expr.selfType a.typeAt)

def Settled (a : Arena) : Prop :=
  ∀ (id : ExprId) (n : Node), a.nodes[id]? = some n →
    ∀ operand ∈ n.expr.settled, a.requiredAt operand ≠ none

/-- An expression with a context has handed its type on to its operands, the listed contexts
excepted. -/
def ClosedUpTo (a : Arena) (contexts : List (ExprId × DataType)) : Prop :=
  ∀ (id : ExprId) (n : Node), a.nodes[id]? = some n → n.required ≠ none →
    ∀ operand ∈ n.expr.forwarded,
      a.requiredAt operand = some n.type ∨ (operand, n.type) ∈ contexts

def Closed (a : Arena) : Prop :=
  ∀ (id : ExprId) (n : Node), a.nodes[id]? = some n → n.required ≠ none →
    ∀ operand ∈ n.expr.forwarded, a.requiredAt operand = some n.type

def Covering (a : Arena) : Prop :=
  ∀ (id : ExprId) (n : Node), a.nodes[id]? = some n → n.type.isReal = false →
    ∀ operand ∈ n.expr.covered, ∀ m, a.nodes[operand]? = some m → n.Covers m

/-! ### Order and types -/

theorem Ordered.lt_size (h : a.Ordered) (hn : a.nodes[id]? = some n)
    (hmem : operand ∈ n.expr.operands) : operand < a.size :=
  Nat.lt_trans (h id n hn operand hmem) (lt_size_of_node hn)

theorem Ordered.forwarded_lt (h : a.Ordered) (hn : a.nodes[id]? = some n)
    (hmem : operand ∈ n.expr.forwarded) : operand < id :=
  h id n hn operand (Expr.mem_operands_of_forwarded hmem)

theorem Ordered.of_evolves (h : a.Ordered) (hevolves : a.Evolves b) (hsize : b.size = a.size) :
    b.Ordered := by
  intro id m hm operand hmem
  have hlt : id < a.size := hsize ▸ lt_size_of_node hm
  obtain ⟨n, hn, hnm⟩ := hevolves.exists_earlier hlt hm
  rw [hnm.expr_eq] at hmem
  exact h id n hn operand hmem

theorem Ordered.of_push {t : DataType} (h : a.Ordered)
    (hoperands : ∀ operand ∈ e.operands, operand < a.size) : (a.push e t).Ordered := by
  intro id n hn operand hmem
  by_cases heq : id = a.size
  · subst heq
    rw [nodes_push_size] at hn
    obtain rfl := Option.some.inj hn
    exact hoperands operand hmem
  · rw [nodes_push_of_ne a e t heq] at hn
    exact h id n hn operand hmem

/-- A node stays well typed while its operands evolve. -/
theorem similar_selfType_of_evolves (hevolves : a.Evolves b)
    (hoperands : ∀ operand ∈ e.operands, operand < a.size) :
    (e.selfType a.typeAt).Similar (e.selfType b.typeAt) :=
  Expr.similar_selfType fun operand hmem => hevolves.similar (hoperands operand hmem)

theorem admissible_of_evolves (hevolves : a.Evolves b)
    (hoperands : ∀ operand ∈ e.operands, operand < a.size) (h : e.Admissible a.typeAt) :
    e.Admissible b.typeAt :=
  h.congr fun operand hmem => hevolves.similar (hoperands operand hmem)

theorem WellTyped.of_earlier (h : a.WellTyped) (hordered : a.Ordered) (hevolves : a.Evolves b)
    (hlt : id < a.size) (hm : b.nodes[id]? = some m) :
    m.expr.Admissible b.typeAt ∧ m.type.Similar (m.expr.selfType b.typeAt) := by
  obtain ⟨n, hn, hnm⟩ := hevolves.exists_earlier hlt hm
  obtain ⟨hadmissible, hsimilar⟩ := h id n hn
  have hoperands : ∀ operand ∈ n.expr.operands, operand < a.size :=
    fun operand hmem => hordered.lt_size hn hmem
  rw [hnm.expr_eq]
  exact ⟨admissible_of_evolves hevolves hoperands hadmissible,
    (hnm.similar.symm.trans hsimilar).trans (similar_selfType_of_evolves hevolves hoperands)⟩

theorem WellTyped.of_evolves (h : a.WellTyped) (hordered : a.Ordered) (hevolves : a.Evolves b)
    (hsize : b.size = a.size) : b.WellTyped := by
  intro id m hm
  exact h.of_earlier hordered hevolves (hsize ▸ lt_size_of_node hm) hm

/-- Integral expressions have no real operand among those they cover. -/
theorem WellTyped.isReal_covered (h : a.WellTyped) (hn : a.nodes[id]? = some n)
    (hreal : n.type.isReal = false) (hmem : operand ∈ n.expr.covered) :
    (a.typeAt operand).isReal = false := by
  obtain ⟨hadmissible, hsimilar⟩ := h id n hn
  exact (Expr.covered_of_integral hadmissible (hsimilar.real.symm.trans hreal) hmem).1

/-! ### Contexts that are handed on -/

theorem closedUpTo_nil_iff : a.ClosedUpTo [] ↔ a.Closed := by
  simp [ClosedUpTo, Closed]

theorem Closed.closedUpTo (h : a.Closed) (contexts : List (ExprId × DataType)) :
    a.ClosedUpTo contexts :=
  fun id n hn hrequired operand hmem => Or.inl (h id n hn hrequired operand hmem)

/-- What is known when an expression is next to get its context: it has none yet, and neither have
its operands. -/
structure Next (a : Arena) (id : ExprId) (n : Node) (required : DataType)
    (rest : List (ExprId × DataType)) : Prop where
  node : a.nodes[id]? = some n
  constructed : n.required = none
  older : ∀ operand ∈ n.expr.forwarded, operand < id
  not_mem_rest : ∀ t, (id, t) ∉ rest
  operands : ∀ operand ∈ n.expr.forwarded, a.requiredAt operand = none

/-- A run that ends well imposes no second context, so what is still to come has none yet. -/
theorem Next.of_imposes {required : DataType} {rest : List (ExprId × DataType)}
    (hn : a.nodes[id]? = some n) (hrequired : n.required = none)
    (holder : ∀ operand ∈ n.expr.forwarded, operand < id)
    (hrest : Imposes (a.replace id (n.inContext required))
      ((n.inContext required).handedOn ++ rest) b) : Next a id n required rest where
  node := hn
  constructed := hrequired
  older := holder
  not_mem_rest := by
    intro t hmem
    obtain ⟨-, hnone⟩ := hrest.requiredAt_eq_none _ (List.mem_append_right _ hmem)
    rw [requiredAt_of_node (nodes_replace_self (lt_size_of_node hn) _)] at hnone
    simp at hnone
  operands := by
    intro operand hmem
    have hcontext : (operand, (n.inContext required).type) ∈ (n.inContext required).handedOn :=
      List.mem_map_of_mem (f := fun operand => (operand, (n.inContext required).type)) hmem
    obtain ⟨-, hnone⟩ := hrest.requiredAt_eq_none _ (List.mem_append_left _ hcontext)
    rw [requiredAt, nodes_replace_of_ne (Nat.ne_of_lt (holder operand hmem))] at hnone
    exact hnone

theorem requiredAt_replace_of_ne {other : ExprId} (h : other ≠ id) (n : Node) :
    (a.replace id n).requiredAt other = a.requiredAt other := by
  unfold requiredAt
  rw [nodes_replace_of_ne h]

/-- The contexts of the operands take the place of the one that is imposed. -/
theorem ClosedUpTo.step {required : DataType} {rest : List (ExprId × DataType)}
    (h : a.ClosedUpTo ((id, required) :: rest)) (hnext : Next a id n required rest) :
    (a.replace id (n.inContext required)).ClosedUpTo
      ((n.inContext required).handedOn ++ rest) := by
  have hlt := lt_size_of_node hnext.node
  intro other m hm hcontext operand hmem
  by_cases heq : other = id
  · subst heq
    rw [nodes_replace_self hlt] at hm
    obtain rfl := Option.some.inj hm
    right
    exact List.mem_append_left _
      (List.mem_map_of_mem (f := fun operand => (operand, (n.inContext required).type)) hmem)
  · rw [nodes_replace_of_ne heq] at hm
    rcases h other m hm hcontext operand hmem with hdone | hlisted
    · left
      have hne : operand ≠ id := by
        rintro rfl
        rw [requiredAt_of_node hnext.node, hnext.constructed] at hdone
        simp at hdone
      rwa [requiredAt_replace_of_ne hne]
    · rcases List.mem_cons.mp hlisted with hhead | htail
      · left
        obtain ⟨rfl, rfl⟩ := Prod.mk.inj hhead
        rw [requiredAt_of_node (nodes_replace_self hlt _)]
        rfl
      · right
        exact List.mem_append_right _ htail

theorem Closed.of_imposes (h : a.Closed) (hrun : Imposes a contexts b) : b.Closed := by
  have hall : ∀ {a b contexts}, Imposes a contexts b → a.ClosedUpTo contexts → b.Closed := by
    intro a b contexts hrun
    induction hrun with
    | done a => exact closedUpTo_nil_iff.mp
    | step hn hrequired holder hrest ih =>
        intro h
        exact ih (h.step (.of_imposes hn hrequired holder hrest))
  exact hall hrun (h.closedUpTo contexts)

/-- If an expression with a context covers this one, then that is where the context comes from, and
its width is the one that this expression gets. -/
theorem Covering.step {required : DataType} {rest : List (ExprId × DataType)} (h : a.Covering)
    (htyped : a.WellTyped) (hclosed : a.ClosedUpTo ((id, required) :: rest))
    (hnext : Next a id n required rest) : (a.replace id (n.inContext required)).Covering := by
  have hlt := lt_size_of_node hnext.node
  intro other p hp hreal operand hmem m hm
  have hforwarded := Expr.mem_forwarded_of_covered hmem
  by_cases hother : other = id
  · -- the operands of the expression itself have no context yet
    subst hother
    rw [nodes_replace_self hlt] at hp
    obtain rfl := Option.some.inj hp
    have hne : operand ≠ other := Nat.ne_of_lt (hnext.older operand hforwarded)
    rw [nodes_replace_of_ne hne] at hm
    have hgrown := Node.Evolves.inContext hnext.constructed required
    have hold : n.type.isReal = false := hgrown.similar.real.trans hreal
    have hconstructed : m.required = none := by
      rw [← requiredAt_of_node hm]
      exact hnext.operands operand hforwarded
    have hcovers := h other n hnext.node hold operand hmem m hm
    exact ⟨fun _ => Nat.le_trans (hcovers.width_le (Or.inr hconstructed)) hgrown.width_le,
      fun _ hsome => absurd hconstructed hsome⟩
  · rw [nodes_replace_of_ne hother] at hp
    by_cases hoperand : operand = id
    · -- its context comes from an expression that covers it
      subst hoperand
      rw [nodes_replace_self hlt] at hm
      obtain rfl := Option.some.inj hm
      have hcovers := h other p hp hreal operand hmem n hnext.node
      by_cases hcontext : p.required = none
      · exact ⟨by simp [hcontext], fun hsome => absurd hcontext hsome⟩
      · have hlisted := hclosed other p hp hcontext operand hforwarded
        rw [requiredAt_of_node hnext.node, hnext.constructed] at hlisted
        have hhead : (operand, p.type) = (operand, required) := by
          rcases List.mem_cons.mp (hlisted.resolve_left (by simp)) with hhead | hrest
          · exact hhead
          · exact absurd hrest (hnext.not_mem_rest _)
        obtain rfl := (Prod.mk.inj hhead).2
        have hintegral := htyped.isReal_covered hp hreal hmem
        rw [typeAt_of_node hnext.node] at hintegral
        exact hcovers.inContext hreal hintegral hnext.constructed
    · rw [nodes_replace_of_ne hoperand] at hm
      exact h other p hp hreal operand hmem m hm

theorem Covering.of_imposes (h : a.Covering) (hordered : a.Ordered) (htyped : a.WellTyped)
    (hclosed : a.Closed) (hrun : Imposes a contexts b) : b.Covering := by
  have hall : ∀ {a b contexts}, Imposes a contexts b → a.ClosedUpTo contexts → a.Ordered →
      a.WellTyped → a.Covering → b.Covering := by
    intro a b contexts hrun
    induction hrun with
    | done a => exact fun _ _ _ hcovering => hcovering
    | step hn hrequired holder hrest ih =>
        rename_i required _
        intro hclosed hordered htyped hcovering
        have hnext := Next.of_imposes hn hrequired holder hrest
        have hgrown := evolves_replace hn hrequired required
        exact ih (hclosed.step hnext) (hordered.of_evolves hgrown (size_replace _ _ _))
          (htyped.of_evolves hordered hgrown (size_replace _ _ _))
          (hcovering.step htyped hclosed hnext)
  exact hall hrun (hclosed.closedUpTo contexts) hordered htyped h

theorem Settled.of_earlier (h : a.Settled) (hevolves : a.Evolves b) (hlt : id < a.size)
    (hm : b.nodes[id]? = some m) (hmem : operand ∈ m.expr.settled) :
    b.requiredAt operand ≠ none := by
  obtain ⟨n, hn, hnm⟩ := hevolves.exists_earlier hlt hm
  rw [hnm.expr_eq] at hmem
  obtain ⟨t, ht⟩ := Option.ne_none_iff_exists'.mp (h id n hn operand hmem)
  rw [hevolves.requiredAt_of_some ht]
  simp

end Arena

end VerilogExpr
