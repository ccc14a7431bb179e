import Mathlib.Logic.Relation
import VerilogExpr.Proofs.Arena.Reachable

/-!
# The width of a context

A context that is imposed onto an integral expression gives one width to everything that is
evaluated in it: the width of the expression itself or the required one, whichever is larger.
Operators are widened to it, and the operands that keep their type are used at it.  A real context
has no width to offer.  It passes through real expressions, and below these every integral
expression starts a context of its own width.
-/

namespace VerilogExpr

/-- The width of the context that starts where a type is required of an expression. -/
def DataType.contextWidth (own required : DataType) : Nat :=
  if required.isReal then own.width else max own.width required.width

namespace Node

variable {n m : Node} {t required : DataType}

structure SizedTo (n : Node) (width : Nat) : Prop where
  final : n.required ≠ none
  integral : n.type.isReal = false
  width_eq : n.expr.isForwarding = true → n.type.width = width

theorem width_inContext (hreal : n.type.isReal = false) (hforward : n.expr.isForwarding = true)
    (required : DataType) :
    (n.inContext required).type.width = n.type.contextWidth required := by
  rw [type_inContext_of_forwarding hforward, DataType.contextWidth]
  cases hrequired : required.isReal with
  | true => simp [DataType.widened, hrequired]
  | false =>
      rw [DataType.width_widened hreal hrequired]
      simp

theorem type_inContext_of_real (hrequired : required.isReal = true) :
    (n.inContext required).type = n.type := by
  cases hforward : n.expr.isForwarding with
  | true =>
      rw [type_inContext_of_forwarding hforward]
      simp [DataType.widened, hrequired]
  | false => exact type_inContext_of_not_forwarding hforward required

theorem Evolves.type_eq_of_real (h : n.Evolves m) (hm : m.required = some required)
    (hrequired : required.isReal = true) : m.type = n.type := by
  rcases h with rfl | ⟨-, other, rfl⟩
  · rfl
  · obtain rfl : other = required := Option.some.inj hm
    exact type_inContext_of_real hrequired

theorem usedWidth_of_integral (hn : n.required = some t) (ht : t.isReal = false) :
    n.usedWidth = t.width := by
  simp [usedWidth, hn, ht]

theorem usedWidth_of_real (hn : n.required = some t) (ht : t.isReal = true) :
    n.usedWidth = n.type.width := by
  simp [usedWidth, hn, ht]

end Node

namespace Arena

variable {a b : Arena} {root id operand : ExprId} {n m : Node} {required : DataType} {width : Nat}

/-- The first expression evaluates the second one in its context, outer delays of a triple
excepted. -/
def HasCovered (a : Arena) (id operand : ExprId) : Prop :=
  ∃ n, a.nodes[id]? = some n ∧ operand ∈ n.expr.covered

def InContextOf (a : Arena) : ExprId → ExprId → Prop := Relation.ReflTransGen a.HasCovered

def InRealContextOf (a : Arena) : ExprId → ExprId → Prop :=
  Relation.ReflTransGen fun id operand => (a.typeAt id).isReal = true ∧ a.HasCovered id operand

/-- From the first arena to the second, everything in the context of an expression has got the given
width: operators have it, and the others keep their type and are used at it. -/
structure SharesWidth (a b : Arena) (root : ExprId) (width : Nat) : Prop where
  nodes : ∀ id, a.InContextOf root id → ∃ n m, a.nodes[id]? = some n ∧ b.nodes[id]? = some m ∧
    (n.expr.isForwarding = true → m.type.width = width) ∧
    (n.expr.isForwarding = false → m.type = n.type)
  used : ∀ id, a.InContextOf root id → id ≠ root →
    ∃ m, b.nodes[id]? = some m ∧ m.usedWidth = width

theorem InContextOf.eq_of_not_forwarding (h : a.InContextOf root id)
    (hn : a.nodes[root]? = some n) (hleaf : n.expr.isForwarding = false) : id = root := by
  rcases Relation.ReflTransGen.cases_head h with rfl | ⟨operand, ⟨n', hn', hmem⟩, -⟩
  · rfl
  · obtain rfl := Option.some.inj (hn.symm.trans hn')
    have hforward := Expr.isForwarding_of_mem_forwarded (Expr.mem_forwarded_of_covered hmem)
    exact absurd (hleaf.symm.trans hforward) (by simp)

/-- A context goes on from an expression to what it covers. -/
theorem Sound.sizedTo_of_covered (h : b.Sound) (hm : b.nodes[id]? = some m)
    (hsized : m.SizedTo width) (hmem : operand ∈ m.expr.covered) :
    ∃ k, b.nodes[operand]? = some k ∧ k.SizedTo width ∧ k.usedWidth = width := by
  have hforwarded := Expr.mem_forwarded_of_covered hmem
  have hwidth := hsized.width_eq (Expr.isForwarding_of_mem_forwarded hforwarded)
  obtain ⟨k, hk⟩ := exists_node
    (h.ordered.lt_size hm (Expr.mem_operands_of_forwarded hforwarded))
  obtain ⟨hfinal, hintegral, hsame⟩ :=
    h.width_eq_of_covered hm hsized.final hsized.integral hmem hk
  have hcontext := h.closed id m hm hsized.final operand hforwarded
  rw [requiredAt_of_node hk] at hcontext
  refine ⟨k, hk, ⟨hfinal, hintegral, fun hop => (hsame hop).trans hwidth⟩, ?_⟩
  rw [Node.usedWidth_of_integral hcontext hsized.integral, hwidth]

theorem Ordered.exists_covered (h : a.Ordered) (hn : a.nodes[id]? = some n)
    (hmem : operand ∈ n.expr.covered) : ∃ k, a.nodes[operand]? = some k :=
  exists_node (h.lt_size hn (Expr.mem_operands_of_forwarded (Expr.mem_forwarded_of_covered hmem)))

/-- Everything in the context of an expression has the width that it has.  The induction is on the
way down from the expression. -/
theorem Sound.sharesWidth (hb : b.Sound) (ha : a.Ordered) (hevolves : a.Evolves b)
    (hn : a.nodes[root]? = some n) (hm : b.nodes[root]? = some m) (hsized : m.SizedTo width) :
    a.SharesWidth b root width := by
  have hall : ∀ id, a.InContextOf root id → ∃ p q, a.nodes[id]? = some p ∧
      b.nodes[id]? = some q ∧ q.SizedTo width ∧ (id ≠ root → q.usedWidth = width) := by
    intro id hcontext
    induction hcontext with
    | refl => exact ⟨n, m, hn, hm, hsized, absurd rfl⟩
    | tail _ hlast ih =>
        obtain ⟨p, q, hp, hq, hqsized, -⟩ := ih
        obtain ⟨p', hp', hmem⟩ := hlast
        obtain rfl := Option.some.inj (hp.symm.trans hp')
        obtain ⟨k, hk⟩ := ha.exists_covered hp hmem
        rw [← (hevolves.node_evolves hp hq).expr_eq] at hmem
        obtain ⟨l, hl, hlsized, hused⟩ := hb.sizedTo_of_covered hq hqsized hmem
        exact ⟨k, l, hk, hl, hlsized, fun _ => hused⟩
  constructor
  · intro id hcontext
    obtain ⟨p, q, hp, hq, hqsized, -⟩ := hall id hcontext
    have hpq := hevolves.node_evolves hp hq
    exact ⟨p, q, hp, hq, fun hforward => hqsized.width_eq (hpq.expr_eq ▸ hforward), hpq.type_eq⟩
  · intro id hcontext hne
    obtain ⟨-, q, -, hq, -, hused⟩ := hall id hcontext
    exact ⟨q, hq, hused hne⟩

/-- A real context reaches everything below it through real expressions, and changes no type. -/
theorem Sound.eq_of_inRealContextOf (hb : b.Sound) (ha : a.Ordered) (hevolves : a.Evolves b)
    (hn : a.nodes[root]? = some n) (hm : b.nodes[root]? = some m) (hfinal : m.required ≠ none)
    (hreal : n.type.isReal = true) (hcontext : a.InRealContextOf root id) :
    ∃ p q, a.nodes[id]? = some p ∧ b.nodes[id]? = some q ∧ q.required ≠ none ∧ q.type = p.type ∧
      (p.type.isReal = false → q.usedWidth = p.type.width) := by
  induction hcontext with
  | refl =>
      have hlater : m.type.isReal = true := by
        rw [← (hevolves.node_evolves hn hm).similar.real, hreal]
      have htype : m.type = n.type :=
        (DataType.isReal_iff.mp hlater).trans (DataType.isReal_iff.mp hreal).symm
      exact ⟨n, m, hn, hm, hfinal, htype, fun hnot => absurd (hreal.symm.trans hnot) (by simp)⟩
  | tail _ hlast ih =>
      obtain ⟨p, q, hp, hq, hqfinal, hqtype, -⟩ := ih
      obtain ⟨hpreal, p', hp', hmem⟩ := hlast
      obtain rfl := Option.some.inj (hp.symm.trans hp')
      rw [typeAt_of_node hp, ← hqtype] at hpreal
      obtain ⟨k, hk⟩ := ha.exists_covered hp hmem
      obtain ⟨l, hl, hkl⟩ := hevolves _ k hk
      rw [← (hevolves.node_evolves hp hq).expr_eq] at hmem
      have hrequired := hb.closed _ q hq hqfinal _ (Expr.mem_forwarded_of_covered hmem)
      rw [requiredAt_of_node hl] at hrequired
      have htype := hkl.type_eq_of_real hrequired hpreal
      refine ⟨k, l, hk, hl, by simp [hrequired], htype, fun _ => ?_⟩
      rw [Node.usedWidth_of_real hrequired hpreal, htype]

/-- **One width for each context.** Let a type be imposed onto an expression of a reachable arena.
If the expression is integral, then everything in its context gets the larger one of its width and
the required one, or its own if the required type is real.  If it is real, then each integral
expression that the context comes to through real ones keeps its type, is used at its own width,
and gives that width to everything in its context. -/
theorem Reachable.sharesWidth_of_impose (h : a.Reachable) (hn : a.nodes[root]? = some n)
    (himpose : a.impose root required = .ok b) :
    (n.type.isReal = false → a.SharesWidth b root (n.type.contextWidth required)) ∧
    (n.type.isReal = true → ∀ id, a.InRealContextOf root id → (a.typeAt id).isReal = false →
      b.typeAt id = a.typeAt id ∧
        (∃ m, b.nodes[id]? = some m ∧ m.usedWidth = (a.typeAt id).width) ∧
        a.SharesWidth b id (a.typeAt id).width) := by
  have ha := h.sound
  have hrun := imposes_singleton_iff.mpr himpose
  have hb := ha.of_imposes hrun
  have hevolves := hrun.evolves
  obtain ⟨m, hm, hnm⟩ := hevolves root n hn
  have hrequired : m.required = some required := by
    have hcontext := hrun.requiredAt_eq_some (root, required) List.mem_cons_self
    rwa [requiredAt_of_node hm] at hcontext
  have hfinal : m.required ≠ none := by simp [hrequired]
  constructor
  · intro hreal
    refine hb.sharesWidth ha.ordered hevolves hn hm ⟨hfinal, ?_, fun hforward => ?_⟩
    · rw [← hnm.similar.real, hreal]
    · obtain ⟨n', hn', hnone, -⟩ := impose_eq_ok_iff.mp himpose
      obtain rfl := Option.some.inj (hn.symm.trans hn')
      rw [hnm.expr_eq] at hforward
      rcases hnm with rfl | ⟨-, other, rfl⟩
      · exact absurd hnone hfinal
      · obtain rfl : other = required := Option.some.inj hrequired
        exact Node.width_inContext hreal hforward other
  · intro hreal id hcontext hintegral
    obtain ⟨p, q, hp, hq, hqfinal, hqtype, hused⟩ :=
      hb.eq_of_inRealContextOf ha.ordered hevolves hn hm hfinal hreal hcontext
    rw [typeAt_of_node hp] at hintegral ⊢
    rw [typeAt_of_node hq]
    refine ⟨hqtype, ⟨q, hq, hused hintegral⟩, ?_⟩
    refine hb.sharesWidth ha.ordered hevolves hp hq ⟨hqfinal, ?_, fun _ => ?_⟩
    · rw [hqtype, hintegral]
    · rw [hqtype]

/-- The arena of `((4'hf + 4'h1) + 8'h0) + r` for a real `r`, before it gets a context. -/
def mixedSum : Arena where
  nodes :=
    let four := DataType.sizedVector .unsigned 4
    let eight := DataType.sizedVector .unsigned 8
    #[⟨.literal (.truncated four 15), four, none⟩, ⟨.literal (.truncated four 1), four, none⟩,
      ⟨.binary (.arith .add) 0 1, four, none⟩, ⟨.literal (.truncated eight 0), eight, none⟩,
      ⟨.binary (.arith .add) 2 3, eight, none⟩, ⟨.reference (.plain "r" .real), .real, none⟩,
      ⟨.binary (.arith .add) 4 5, .real, none⟩]

theorem reachable_mixedSum : mixedSum.Reachable := by
  refine ⟨mixedSum.nodes.toList.map fun n => .add n.expr, ?_⟩
  decide +kernel

theorem exists_impose_mixedSum :
    (∃ b, mixedSum.impose 4 (.sizedVector .unsigned 16) = .ok b) ∧
      ∃ c, mixedSum.impose 6 .real = .ok c :=
  ⟨exists_eq_ok_of_isSome (by decide +kernel), exists_eq_ok_of_isSome (by decide +kernel)⟩

theorem sharesWidth_of_impose_mixedSum :
    (∃ b, mixedSum.impose 4 (.sizedVector .unsigned 16) = .ok b ∧
      mixedSum.SharesWidth b 4 16) ∧
    ∃ c, mixedSum.impose 6 .real = .ok c ∧ mixedSum.SharesWidth c 4 8 := by
  obtain ⟨⟨b, hb⟩, c, hc⟩ := exists_impose_mixedSum
  have hstep : (mixedSum.typeAt 6).isReal = true ∧ mixedSum.HasCovered 6 4 :=
    ⟨rfl, _, rfl, List.mem_cons_self⟩
  obtain ⟨hintegral, -⟩ := reachable_mixedSum.sharesWidth_of_impose rfl hb
  obtain ⟨-, hreal⟩ := reachable_mixedSum.sharesWidth_of_impose rfl hc
  obtain ⟨-, -, hshared⟩ := hreal rfl 4 (.single hstep) rfl
  exact ⟨⟨b, hb, hintegral rfl⟩, c, hc, hshared⟩

end Arena

end VerilogExpr
