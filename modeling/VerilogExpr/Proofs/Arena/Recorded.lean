import VerilogExpr.Proofs.Arena.Reachable

/-!
# The contexts that construction records

A settled operand gets its context when its expression is built, from the types that the operands
have at that moment.  Imposing that context may widen the operands themselves, and those of a
comparison are imposed onto one after the other.  Still the recorded context can be read off the
types that the operands have in the end: an operand that is settled at its own type keeps it, and
two operands that are widened to their common type have that same common type afterwards.
-/

namespace VerilogExpr

namespace DataType

variable {t t' u u' : DataType}

theorem width_widened_le (t u : DataType) : (t.widened u).width ≤ max t.width u.width := by
  unfold widened
  split
  · exact Nat.le_max_left _ _
  · split
    · exact Nat.le_max_left _ _
    · rw [width_resized]
      exact Nat.le_max_right _ _

/-- Operands that have grown no further than to their common width meet in the same type. -/
theorem commonVector_eq_of_le (ht : t.Similar t') (hu : u.Similar u') (htle : t.width ≤ t'.width)
    (hule : u.width ≤ u'.width) (ht' : t'.width ≤ max t.width u.width)
    (hu' : u'.width ≤ max t.width u.width) : commonVector t' u' = commonVector t u := by
  have hsign : commonSign t' u' = commonSign t u := by
    rw [commonSign, commonSign, ht.signed, hu.signed]
  have hwidth : max t'.width u'.width = max t.width u.width := by omega
  rw [commonVector, commonVector, hsign, hwidth]

end DataType

namespace Node

variable {n m : Node} {required : DataType}

/-- A context widens an expression no further than to its own width. -/
theorem Evolves.width_le_of_required (h : n.Evolves m) (hm : m.required = some required) :
    m.type.width ≤ max n.type.width required.width := by
  rcases h with rfl | ⟨-, other, rfl⟩
  · exact Nat.le_max_left _ _
  · obtain rfl : other = required := Option.some.inj hm
    cases hforward : n.expr.isForwarding with
    | true =>
        rw [type_inContext_of_forwarding hforward]
        exact DataType.width_widened_le _ _
    | false =>
        rw [type_inContext_of_not_forwarding hforward]
        exact Nat.le_max_left _ _

/-- A context that is no wider than the expression leaves its type alone. -/
theorem Evolves.type_eq_of_required (h : n.Evolves m) (hm : m.required = some required)
    (hle : required.width ≤ n.type.width) : m.type = n.type := by
  rcases h with rfl | ⟨-, other, rfl⟩
  · rfl
  · obtain rfl : other = required := Option.some.inj hm
    cases hforward : n.expr.isForwarding with
    | true => rw [type_inContext_of_forwarding hforward, DataType.widened_of_le hle]
    | false => exact type_inContext_of_not_forwarding hforward _

end Node

namespace Expr

variable {e : Expr} {types types' : ExprId → DataType} {operand : ExprId}

/-- The contexts of the settled operands follow from the types of the settled operands. -/
theorem settledType_eq_of_eq (h : ∀ other ∈ e.settled, types other = types' other)
    (hmem : operand ∈ e.settled) : e.settledType types operand = e.settledType types' operand := by
  cases e with
  | binary op x y =>
      cases op with
      | compare f =>
          have hx : types x = types' x := h x (by simp [settled])
          have hy : types y = types' y := h y (by simp [settled])
          simp only [settledType, hx, hy]
      | _ => exact h operand hmem
  | _ => exact h operand hmem

end Expr

namespace Arena

variable {a b c : Arena} {id operand : ExprId} {n m : Node} {e : Expr}
  {contexts : List (ExprId × DataType)}

theorem Evolves.width_le (h : a.Evolves b) (hid : id < a.size) :
    (a.typeAt id).width ≤ (b.typeAt id).width := by
  obtain ⟨n, hn⟩ := exists_node hid
  obtain ⟨m, hm, hnm⟩ := h id n hn
  rw [typeAt_of_node hn, typeAt_of_node hm]
  exact hnm.width_le

theorem Evolves.width_le_of_required {required : DataType} (h : a.Evolves b) (hid : id < a.size)
    (hrequired : b.requiredAt id = some required) :
    (b.typeAt id).width ≤ max (a.typeAt id).width required.width := by
  obtain ⟨n, hn⟩ := exists_node hid
  obtain ⟨m, hm, hnm⟩ := h id n hn
  rw [requiredAt_of_node hm] at hrequired
  rw [typeAt_of_node hn, typeAt_of_node hm]
  exact hnm.width_le_of_required hrequired

theorem Evolves.typeAt_of_required {required : DataType} (h : a.Evolves b) (hid : id < a.size)
    (hrequired : b.requiredAt id = some required)
    (hle : required.width ≤ (a.typeAt id).width) : b.typeAt id = a.typeAt id := by
  obtain ⟨n, hn⟩ := exists_node hid
  obtain ⟨m, hm, hnm⟩ := h id n hn
  rw [requiredAt_of_node hm] at hrequired
  rw [typeAt_of_node hn] at hle
  rw [typeAt_of_node hn, typeAt_of_node hm, hnm.type_eq_of_required hrequired hle]

/-- Once the settled operands of an expression have their contexts, these can be read off the types
that the operands have then. -/
theorem settledType_of_imposes (hrun : Imposes a (e.settledContexts a.typeAt) c)
    (hoperands : ∀ operand ∈ e.operands, operand < a.size) (hmem : operand ∈ e.settled) :
    e.settledType a.typeAt operand = e.settledType c.typeAt operand := by
  have hevolves := hrun.evolves
  have hrequired : ∀ other ∈ e.settled,
      c.requiredAt other = some (e.settledType a.typeAt other) :=
    fun other hother => hrun.requiredAt_settled hother
  have hlt : ∀ other ∈ e.settled, other < a.size :=
    fun other hother => hoperands other (Expr.mem_operands_of_settled hother)
  -- outside of comparisons every operand is settled at its own type
  have hown : (∀ other, e.settledType a.typeAt other = a.typeAt other) →
      ∀ other ∈ e.settled, a.typeAt other = c.typeAt other := by
    intro hself other hother
    have hcontext := hrequired other hother
    rw [hself] at hcontext
    exact (hevolves.typeAt_of_required (hlt other hother) hcontext (Nat.le_refl _)).symm
  cases e with
  | binary op x y =>
      cases op with
      | compare f =>
          have hx : x ∈ (Expr.binary (.compare f) x y).settled := by simp [Expr.settled]
          have hy : y ∈ (Expr.binary (.compare f) x y).settled := by simp [Expr.settled]
          have hxle := hevolves.width_le_of_required (hlt x hx) (hrequired x hx)
          have hyle := hevolves.width_le_of_required (hlt y hy) (hrequired y hy)
          simp only [Expr.settledType, DataType.width_commonVector] at hxle hyle ⊢
          exact (DataType.commonVector_eq_of_le (hevolves.similar (hlt x hx))
            (hevolves.similar (hlt y hy)) (hevolves.width_le (hlt x hx))
            (hevolves.width_le (hlt y hy)) (by omega) (by omega)).symm
      | _ => exact Expr.settledType_eq_of_eq (hown fun _ => rfl) hmem
  | _ => exact Expr.settledType_eq_of_eq (hown fun _ => rfl) hmem

def Recorded (a : Arena) : Prop :=
  ∀ (id : ExprId) (n : Node), a.nodes[id]? = some n →
    ∀ operand ∈ n.expr.settled, a.requiredAt operand = some (n.expr.settledType a.typeAt operand)

theorem recorded_empty : empty.Recorded := by
  intro id n hn
  simp [empty] at hn

/-- Settled operands are final, so what is recorded of them stays true. -/
theorem Recorded.of_earlier (h : a.Recorded) (hevolves : a.Evolves b) (hlt : id < a.size)
    (hm : b.nodes[id]? = some m) (hmem : operand ∈ m.expr.settled) :
    b.requiredAt operand = some (m.expr.settledType b.typeAt operand) := by
  obtain ⟨n, hn, hnm⟩ := hevolves.exists_earlier hlt hm
  rw [hnm.expr_eq] at hmem ⊢
  have htypes : ∀ other ∈ n.expr.settled, a.typeAt other = b.typeAt other :=
    fun other hother => (hevolves.typeAt_of_some (h id n hn other hother)).symm
  rw [← Expr.settledType_eq_of_eq htypes hmem]
  exact hevolves.requiredAt_of_some (h id n hn operand hmem)

theorem Recorded.of_imposes (h : a.Recorded) (hrun : Imposes a contexts b) : b.Recorded := by
  intro id m hm operand hmem
  exact h.of_earlier hrun.evolves (hrun.size_eq ▸ lt_size_of_node hm) hm hmem

theorem Recorded.push {t : DataType} (h : a.Recorded)
    (hoperands : ∀ operand ∈ e.operands, operand < a.size)
    (hsettled : ∀ operand ∈ e.settled,
      a.requiredAt operand = some (e.settledType a.typeAt operand)) : (a.push e t).Recorded := by
  have hgrown := evolves_push a e t
  intro id n hn operand hmem
  rcases nodes_push_eq_some hn with ⟨rfl, rfl⟩ | hold
  · have htypes : ∀ other ∈ e.settled, a.typeAt other = (a.push e t).typeAt other := by
      intro other hother
      have hlt := hoperands other (Expr.mem_operands_of_settled hother)
      rw [typeAt, typeAt, nodes_push_of_lt a e t hlt]
    rw [← Expr.settledType_eq_of_eq htypes hmem]
    exact hgrown.requiredAt_of_some (hsettled operand hmem)
  · exact h.of_earlier hgrown (lt_size_of_node hold) hn hmem

theorem Recorded.of_adds (h : a.Recorded) (hadds : Adds a e b) : b.Recorded := by
  obtain ⟨hoperands, -, c, hrun, rfl⟩ := hadds
  refine (h.of_imposes hrun).push (fun operand hmem => ?_) fun operand hmem => ?_
  · rw [hrun.size_eq]
    exact hoperands operand hmem
  · rw [hrun.requiredAt_settled hmem, settledType_of_imposes hrun hoperands hmem]

theorem Recorded.of_act {action : Action} (h : a.Recorded) (hact : a.act action = .ok b) :
    b.Recorded := by
  rcases act_eq_ok hact with ⟨e, hadds⟩ | ⟨id, required, hrun⟩
  · exact h.of_adds hadds
  · exact h.of_imposes hrun

theorem Reachable.recorded (h : a.Reachable) : a.Recorded := by
  obtain ⟨actions, hrun⟩ := h
  exact run_preserves (fun hact ha => ha.of_act hact) hrun recorded_empty

end Arena

end VerilogExpr
