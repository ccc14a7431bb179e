import VerilogExpr.Proofs.Arena.Invariants

/-!
# Reachable arenas

The invariants of an arena are kept when contexts are imposed and when an expression is added, and
so by every action and every list of actions.  An arena is reachable if such a list leads to it
from the empty one without a violation.
-/

namespace VerilogExpr.Arena

variable {a b : Arena} {id operand : ExprId} {n m : Node} {e : Expr}
  {contexts : List (ExprId × DataType)}

/-! ### Sound arenas -/

/-- What holds of every arena between two actions. -/
structure Sound (a : Arena) : Prop where
  ordered : a.Ordered
  typed : a.WellTyped
  settled : a.Settled
  closed : a.Closed
  covering : a.Covering

theorem sound_empty : empty.Sound := by
  have hnone : ∀ (id : ExprId) (n : Node), empty.nodes[id]? ≠ some n := by
    simp [empty]
  exact ⟨fun id n hn => absurd hn (hnone id n), fun id n hn => absurd hn (hnone id n),
    fun id n hn => absurd hn (hnone id n), fun id n hn => absurd hn (hnone id n),
    fun id n hn => absurd hn (hnone id n)⟩

theorem Sound.of_imposes (h : a.Sound) (hrun : Imposes a contexts b) : b.Sound where
  ordered := h.ordered.of_evolves hrun.evolves hrun.size_eq
  typed := h.typed.of_evolves h.ordered hrun.evolves hrun.size_eq
  settled := by
    intro id m hm operand hmem
    exact h.settled.of_earlier hrun.evolves (hrun.size_eq ▸ lt_size_of_node hm) hm hmem
  closed := h.closed.of_imposes hrun
  covering := h.covering.of_imposes h.ordered h.typed h.closed hrun

/-- The operands in the context of a final expression are as wide as it is. -/
theorem Sound.width_eq_of_covered (h : a.Sound) (hn : a.nodes[id]? = some n)
    (hrequired : n.required ≠ none) (hreal : n.type.isReal = false) {operand : ExprId}
    (hmem : operand ∈ n.expr.covered) (hm : a.nodes[operand]? = some m) :
    m.required ≠ none ∧ m.type.isReal = false ∧
      (m.expr.isForwarding = true → m.type.width = n.type.width) := by
  have hcontext := h.closed id n hn hrequired operand (Expr.mem_forwarded_of_covered hmem)
  rw [requiredAt_of_node hm] at hcontext
  have hfinal : m.required ≠ none := by simp [hcontext]
  have hintegral := h.typed.isReal_covered hn hreal hmem
  rw [typeAt_of_node hm] at hintegral
  exact ⟨hfinal, hintegral, (h.covering id n hn hreal operand hmem m hm).width_eq hrequired hfinal⟩

/-- A node of an arena with one more expression is the new one, or it was there before. -/
theorem nodes_push_eq_some {t : DataType} (hn : (a.push e t).nodes[id]? = some n) :
    id = a.size ∧ n = ⟨e, t, none⟩ ∨ a.nodes[id]? = some n := by
  by_cases heq : id = a.size
  · left
    subst heq
    rw [nodes_push_size] at hn
    exact ⟨rfl, (Option.some.inj hn).symm⟩
  · right
    rwa [nodes_push_of_ne a e t heq] at hn

/-- Adding an expression over operands that are ready for it. -/
theorem Sound.push {t : DataType} (h : a.Sound)
    (hoperands : ∀ operand ∈ e.operands, operand < a.size) (hadmissible : e.Admissible a.typeAt)
    (hsimilar : t.Similar (e.selfType a.typeAt))
    (hsettled : ∀ operand ∈ e.settled, a.requiredAt operand ≠ none)
    (hcovers : t.isReal = false → ∀ operand ∈ e.covered, a.requiredAt operand = none →
      (a.typeAt operand).width ≤ t.width) : (a.push e t).Sound := by
  have hgrown := evolves_push a e t
  have hkept : ∀ {operand : ExprId}, a.requiredAt operand ≠ none →
      (a.push e t).requiredAt operand ≠ none := by
    intro operand hne
    obtain ⟨required, hsome⟩ := Option.ne_none_iff_exists'.mp hne
    rw [hgrown.requiredAt_of_some hsome]
    simp
  refine ⟨h.ordered.of_push hoperands, ?typed, ?settled, ?closed, ?covering⟩
  case typed =>
    intro id n hn
    rcases nodes_push_eq_some hn with ⟨rfl, rfl⟩ | hold
    · exact ⟨admissible_of_evolves hgrown hoperands hadmissible,
        hsimilar.trans (similar_selfType_of_evolves hgrown hoperands)⟩
    · exact h.typed.of_earlier h.ordered hgrown (lt_size_of_node hold) hn
  case settled =>
    intro id n hn operand hmem
    rcases nodes_push_eq_some hn with ⟨rfl, rfl⟩ | hold
    · exact hkept (hsettled operand hmem)
    · exact hkept (h.settled id n hold operand hmem)
  case closed =>
    intro id n hn hcontext operand hmem
    rcases nodes_push_eq_some hn with ⟨rfl, rfl⟩ | hold
    · exact absurd rfl hcontext
    · exact hgrown.requiredAt_of_some (h.closed id n hold hcontext operand hmem)
  case covering =>
    intro id n hn hreal operand hmem m hm
    have hforwarded := Expr.mem_forwarded_of_covered hmem
    rcases nodes_push_eq_some hn with ⟨rfl, rfl⟩ | hold
    · have hlt := hoperands operand (Expr.mem_operands_of_forwarded hforwarded)
      rw [nodes_push_of_lt a e t hlt] at hm
      have hle := hcovers hreal operand hmem
      rw [requiredAt_of_node hm, typeAt_of_node hm] at hle
      exact ⟨fun hcontext => hle (hcontext.resolve_left (absurd rfl)),
        fun hcontext => absurd rfl hcontext⟩
    · have hlt := h.ordered.lt_size hold (Expr.mem_operands_of_forwarded hforwarded)
      rw [nodes_push_of_lt a e t hlt] at hm
      exact h.covering id n hold hreal operand hmem m hm

/-- Construction settles operands, which keeps the invariants as any context does, and then adds an
expression that no context has reached. -/
theorem Sound.of_adds (h : a.Sound) (hadds : Adds a e b) : b.Sound := by
  obtain ⟨hoperands, hadmissible, c, hrun, rfl⟩ := hadds
  have hgrown := hrun.evolves
  have hadmissible' := admissible_of_evolves hgrown hoperands hadmissible
  have hsimilar := similar_selfType_of_evolves hgrown hoperands
  have hkept : ∀ operand ∈ e.covered, c.requiredAt operand = none →
      c.typeAt operand = a.typeAt operand := by
    intro operand hmem hnone
    have hforwarded := Expr.mem_forwarded_of_covered hmem
    have hlt := hoperands operand (Expr.mem_operands_of_forwarded hforwarded)
    exact hgrown.typeAt_of_constructed hlt hnone
  refine (h.of_imposes hrun).push (fun operand hmem => hgrown.lt_size (hoperands operand hmem))
    hadmissible' ?similar ?settled ?covers
  case similar =>
    split
    · exact .refl _
    · exact hsimilar
  case settled =>
    intro operand hmem
    rw [hrun.requiredAt_settled hmem]
    simp
  case covers =>
    intro hreal operand hmem hnone
    cases hchoice : e.isChoice with
    | true =>
        simp only [hchoice, if_true] at hreal ⊢
        exact (Expr.covered_of_integral hadmissible' hreal hmem).2
    | false =>
        simp only [hchoice, Bool.false_eq_true, if_false] at hreal ⊢
        rw [hkept operand hmem hnone]
        exact (Expr.covered_of_integral hadmissible hreal hmem).2

/-! ### Runs of actions -/

theorem Adds.evolves (h : Adds a e b) : a.Evolves b := by
  obtain ⟨-, -, c, hrun, rfl⟩ := h
  exact hrun.evolves.trans (evolves_push c e _)

theorem Adds.size_eq (h : Adds a e b) : b.size = a.size + 1 := by
  obtain ⟨-, -, c, hrun, rfl⟩ := h
  rw [size_push, hrun.size_eq]

/-- An action adds an expression or imposes a context. -/
theorem act_eq_ok {action : Action} (h : a.act action = .ok b) :
    (∃ e, Adds a e b) ∨ ∃ id required, Imposes a [(id, required)] b := by
  cases action with
  | add e => exact Or.inl ⟨e, add_eq_ok_iff.mp h⟩
  | impose id required => exact Or.inr ⟨id, required, imposes_singleton_iff.mpr h⟩
  | settle id => exact Or.inr ⟨id, _, imposes_singleton_iff.mpr (settle_eq_ok_iff.mp h)⟩

theorem evolves_of_act {action : Action} (h : a.act action = .ok b) : a.Evolves b := by
  rcases act_eq_ok h with ⟨e, hadds⟩ | ⟨id, required, hrun⟩
  · exact hadds.evolves
  · exact hrun.evolves

theorem Sound.of_act {action : Action} (h : a.Sound) (hact : a.act action = .ok b) : b.Sound := by
  rcases act_eq_ok hact with ⟨e, hadds⟩ | ⟨id, required, hrun⟩
  · exact h.of_adds hadds
  · exact h.of_imposes hrun

theorem run_cons_eq_ok_iff {action : Action} {actions : List Action} {c : Arena} :
    a.run (action :: actions) = .ok c ↔ ∃ b, a.act action = .ok b ∧ b.run actions = .ok c := by
  simp only [run, List.foldlM_cons, bind_eq_ok_iff]

theorem run_impose {t : DataType} (h : a.impose id t = .ok b) : a.run [.impose id t] = .ok b :=
  run_cons_eq_ok_iff.mpr ⟨b, h, rfl⟩

/-- What every action preserves is preserved by a run of actions. -/
theorem run_preserves {P : Arena → Prop}
    (hpreserved : ∀ {a b : Arena} {action : Action}, a.act action = .ok b → P a → P b)
    {actions : List Action} (hrun : a.run actions = .ok b) (ha : P a) : P b := by
  induction actions generalizing a with
  | nil =>
      obtain rfl : a = b := pure_eq_ok_iff.mp hrun
      exact ha
  | cons action actions ih =>
      obtain ⟨c, hact, hrest⟩ := run_cons_eq_ok_iff.mp hrun
      exact ih hrest (hpreserved hact ha)

theorem evolves_of_run {actions : List Action} (h : a.run actions = .ok b) : a.Evolves b :=
  run_preserves (P := a.Evolves) (fun hact hevolves => hevolves.trans (evolves_of_act hact)) h
    (.refl a)

theorem Sound.of_run {actions : List Action} (h : a.Sound) (hrun : a.run actions = .ok b) :
    b.Sound :=
  run_preserves (fun hact ha => ha.of_act hact) hrun h

def Reachable (a : Arena) : Prop := ∃ actions, empty.run actions = .ok a

theorem Reachable.sound (h : a.Reachable) : a.Sound := by
  obtain ⟨actions, hrun⟩ := h
  exact sound_empty.of_run hrun

theorem Reachable.of_act {action : Action} (h : a.Reachable) (hact : a.act action = .ok b) :
    b.Reachable := by
  obtain ⟨actions, hrun⟩ := h
  refine ⟨actions ++ [action], ?_⟩
  simp only [run, List.foldlM_append, bind_eq_ok_iff]
  exact ⟨a, hrun, run_cons_eq_ok_iff.mpr ⟨b, hact, rfl⟩⟩

theorem Reachable.of_run {actions : List Action} (h : a.Reachable) (hrun : a.run actions = .ok b) :
    b.Reachable :=
  run_preserves (fun hact ha => ha.of_act hact) hrun h

/-- The arena of `4'hf + 4'h1` in a context of eight bits, which keeps the carry. -/
def carry : Arena where
  nodes := #[
    ⟨.literal ⟨.sizedVector .unsigned 4, .integer 15⟩, .sizedVector .unsigned 4,
      some (.sizedVector .unsigned 8)⟩,
    ⟨.literal ⟨.sizedVector .unsigned 4, .integer 1⟩, .sizedVector .unsigned 4,
      some (.sizedVector .unsigned 8)⟩,
    ⟨.binary (.arith .add) 0 1, .sizedVector .unsigned 8, some (.sizedVector .unsigned 8)⟩]

theorem reachable_carry : carry.Reachable := by
  let four := DataType.sizedVector .unsigned 4
  refine ⟨[.add (.literal (.truncated four 15)), .add (.literal (.truncated four 1)),
    .add (.binary (.arith .add) 0 1), .impose 2 (.sizedVector .unsigned 8)], ?_⟩
  decide +kernel

end VerilogExpr.Arena
