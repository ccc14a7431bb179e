import VerilogExpr.Arena
import VerilogExpr.Proofs.Outcomes
import VerilogExpr.Proofs.Widening

/-!
# How arenas change

Expressions are only ever added to an arena, and an expression that is there changes once at most:
when its context is imposed.  `Arena.Evolves` says so of two states of an arena.  Everything that a
later state can be relied on for follows from it: what an expression is and what kind of type it
has stay the same, its width does not shrink, and an expression with a context is left alone.
-/

namespace VerilogExpr

namespace Node

def Evolves (n m : Node) : Prop :=
  m = n ∨ n.required = none ∧ ∃ required, m = n.inContext required

variable {k n m : Node}

@[simp]
theorem expr_inContext (n : Node) (required : DataType) :
    (n.inContext required).expr = n.expr := rfl

@[simp]
theorem required_inContext (n : Node) (required : DataType) :
    (n.inContext required).required = some required := rfl

theorem type_inContext_of_forwarding (h : n.expr.isForwarding = true) (required : DataType) :
    (n.inContext required).type = n.type.widened required := by
  simp [inContext, h]

theorem type_inContext_of_not_forwarding (h : n.expr.isForwarding = false)
    (required : DataType) : (n.inContext required).type = n.type := by
  simp [inContext, h]

theorem Evolves.refl (n : Node) : n.Evolves n := Or.inl rfl

theorem Evolves.inContext (h : n.required = none) (required : DataType) :
    n.Evolves (n.inContext required) :=
  Or.inr ⟨h, required, rfl⟩

/-- A node that has a context stays as it is. -/
theorem Evolves.eq_of_required (h : n.Evolves m) (hn : n.required ≠ none) : m = n := by
  rcases h with heq | ⟨hnone, -⟩
  · exact heq
  · exact absurd hnone hn

/-- A node that has no context yet never had one. -/
theorem Evolves.eq_of_constructed (h : n.Evolves m) (hm : m.required = none) : m = n := by
  rcases h with heq | ⟨-, required, rfl⟩
  · exact heq
  · simp at hm

theorem Evolves.trans (h₁ : k.Evolves n) (h₂ : n.Evolves m) : k.Evolves m := by
  rcases h₁ with rfl | ⟨hk, required, rfl⟩
  · exact h₂
  · rw [h₂.eq_of_required (by simp)]
    exact Evolves.inContext hk required

theorem Evolves.expr_eq (h : n.Evolves m) : m.expr = n.expr := by
  rcases h with rfl | ⟨-, required, rfl⟩
  · rfl
  · rfl

theorem Evolves.similar (h : n.Evolves m) : n.type.Similar m.type := by
  rcases h with rfl | ⟨-, required, rfl⟩
  · exact .refl _
  · cases hforward : n.expr.isForwarding with
    | true =>
        rw [type_inContext_of_forwarding hforward]
        exact DataType.similar_widened _ _
    | false =>
        rw [type_inContext_of_not_forwarding hforward]
        exact .refl _

theorem Evolves.width_le (h : n.Evolves m) : n.type.width ≤ m.type.width := by
  rcases h with rfl | ⟨-, required, rfl⟩
  · exact Nat.le_refl _
  · cases hforward : n.expr.isForwarding with
    | true =>
        rw [type_inContext_of_forwarding hforward]
        exact DataType.width_le_width_widened _ _
    | false => exact Nat.le_of_eq (congrArg _ (type_inContext_of_not_forwarding hforward _).symm)

/-- No context reaches the type of a node that does not forward it. -/
theorem Evolves.type_eq (h : n.Evolves m) (hn : n.expr.isForwarding = false) :
    m.type = n.type := by
  rcases h with rfl | ⟨-, required, rfl⟩
  · rfl
  · exact type_inContext_of_not_forwarding hn required

end Node

namespace Arena

variable {a b c : Arena} {id : ExprId} {n : Node}

def typeAt (a : Arena) (id : ExprId) : DataType := (a.nodes[id]?).elim .bit Node.type

def requiredAt (a : Arena) (id : ExprId) : Option DataType := (a.nodes[id]?).bind Node.required

theorem typeAt_of_node (h : a.nodes[id]? = some n) : a.typeAt id = n.type := by
  simp [typeAt, h]

theorem requiredAt_of_node (h : a.nodes[id]? = some n) : a.requiredAt id = n.required := by
  simp [requiredAt, h]

theorem lt_size_of_node (h : a.nodes[id]? = some n) : id < a.size := by
  obtain ⟨hlt, -⟩ := Array.getElem?_eq_some_iff.mp h
  exact hlt

theorem exists_node (h : id < a.size) : ∃ n, a.nodes[id]? = some n :=
  ⟨a.nodes[id], Array.getElem?_eq_getElem h⟩

theorem node_eq_ok_iff : a.node id = .ok n ↔ a.nodes[id]? = some n := by
  unfold node
  cases a.nodes[id]? <;> simp

theorem type_eq_ok_iff {t : DataType} :
    a.type id = .ok t ↔ id < a.size ∧ a.typeAt id = t := by
  simp only [type, bind_eq_ok_iff, pure_eq_ok_iff, node_eq_ok_iff]
  constructor
  · rintro ⟨n, hn, rfl⟩
    exact ⟨lt_size_of_node hn, typeAt_of_node hn⟩
  · rintro ⟨hlt, rfl⟩
    obtain ⟨n, hn⟩ := exists_node hlt
    exact ⟨n, hn, (typeAt_of_node hn).symm⟩

/-! ### Adding and replacing nodes -/

@[simp]
theorem size_push (a : Arena) (e : Expr) (t : DataType) : (a.push e t).size = a.size + 1 := by
  simp [push, size]

@[simp]
theorem size_replace (a : Arena) (id : ExprId) (n : Node) : (a.replace id n).size = a.size := by
  simp [replace, size]

theorem nodes_push_size (a : Arena) (e : Expr) (t : DataType) :
    (a.push e t).nodes[a.size]? = some ⟨e, t, none⟩ := by
  simp [push, size]

theorem nodes_push_of_ne (a : Arena) (e : Expr) (t : DataType) (h : id ≠ a.size) :
    (a.push e t).nodes[id]? = a.nodes[id]? := by
  simp only [push, Array.getElem?_push]
  exact if_neg h

theorem nodes_push_of_lt (a : Arena) (e : Expr) (t : DataType) (h : id < a.size) :
    (a.push e t).nodes[id]? = a.nodes[id]? :=
  nodes_push_of_ne a e t (Nat.ne_of_lt h)

theorem nodes_replace_self (h : id < a.size) (n : Node) :
    (a.replace id n).nodes[id]? = some n := by
  exact Array.getElem?_setIfInBounds_self_of_lt h

theorem nodes_replace_of_ne {other : ExprId} (h : other ≠ id) (n : Node) :
    (a.replace id n).nodes[other]? = a.nodes[other]? := by
  simp [replace, h.symm]

/-! ### Evolution -/

/-- The second arena is the first one at the same or a later time. -/
def Evolves (a b : Arena) : Prop :=
  ∀ (id : ExprId) (n : Node), a.nodes[id]? = some n →
    ∃ m, b.nodes[id]? = some m ∧ n.Evolves m

theorem Evolves.refl (a : Arena) : a.Evolves a := fun _ n hn => ⟨n, hn, .refl n⟩

theorem Evolves.trans (h₁ : a.Evolves b) (h₂ : b.Evolves c) : a.Evolves c := by
  intro id n hn
  obtain ⟨m, hm, hnm⟩ := h₁ id n hn
  obtain ⟨k, hk, hmk⟩ := h₂ id m hm
  exact ⟨k, hk, hnm.trans hmk⟩

theorem evolves_push (a : Arena) (e : Expr) (t : DataType) : a.Evolves (a.push e t) := by
  intro id n hn
  refine ⟨n, ?_, .refl n⟩
  rw [nodes_push_of_lt a e t (lt_size_of_node hn), hn]

theorem evolves_replace (hn : a.nodes[id]? = some n) (hrequired : n.required = none)
    (required : DataType) : a.Evolves (a.replace id (n.inContext required)) := by
  intro other m hm
  by_cases heq : other = id
  · subst heq
    obtain rfl : n = m := by simpa [hn] using hm
    exact ⟨_, nodes_replace_self (lt_size_of_node hn) _, .inContext hrequired required⟩
  · exact ⟨m, by rw [nodes_replace_of_ne heq, hm], .refl m⟩

theorem Evolves.size_le (h : a.Evolves b) : a.size ≤ b.size := by
  apply Nat.le_of_not_lt
  intro hlt
  obtain ⟨n, hn⟩ := exists_node hlt
  obtain ⟨m, hm, -⟩ := h _ n hn
  exact Nat.lt_irrefl _ (lt_size_of_node hm)

theorem Evolves.lt_size (h : a.Evolves b) (hid : id < a.size) : id < b.size :=
  Nat.lt_of_lt_of_le hid h.size_le

theorem Evolves.node_evolves {m : Node} (h : a.Evolves b) (hn : a.nodes[id]? = some n)
    (hm : b.nodes[id]? = some m) : n.Evolves m := by
  obtain ⟨k, hk, hnk⟩ := h id n hn
  obtain rfl := Option.some.inj (hm.symm.trans hk)
  exact hnk

/-- What a later arena has for a handle of an earlier one. -/
theorem Evolves.exists_earlier {m : Node} (h : a.Evolves b) (hid : id < a.size)
    (hm : b.nodes[id]? = some m) : ∃ n, a.nodes[id]? = some n ∧ n.Evolves m := by
  obtain ⟨n, hn⟩ := exists_node hid
  exact ⟨n, hn, h.node_evolves hn hm⟩

theorem Evolves.similar (h : a.Evolves b) (hid : id < a.size) :
    (a.typeAt id).Similar (b.typeAt id) := by
  obtain ⟨n, hn⟩ := exists_node hid
  obtain ⟨m, hm, hnm⟩ := h id n hn
  rw [typeAt_of_node hn, typeAt_of_node hm]
  exact hnm.similar

theorem Evolves.node_of_required (h : a.Evolves b) (hn : a.nodes[id]? = some n)
    (hrequired : n.required ≠ none) : b.nodes[id]? = some n := by
  obtain ⟨m, hm, hnm⟩ := h id n hn
  rw [hm, hnm.eq_of_required hrequired]

/-- An expression without a context is as it was when it was built. -/
theorem Evolves.node_of_constructed (h : a.Evolves b) (hid : id < a.size)
    (hrequired : b.requiredAt id = none) : b.nodes[id]? = a.nodes[id]? := by
  obtain ⟨n, hn⟩ := exists_node hid
  obtain ⟨m, hm, hnm⟩ := h id n hn
  rw [requiredAt_of_node hm] at hrequired
  rw [hm, hn, hnm.eq_of_constructed hrequired]

theorem Evolves.typeAt_of_constructed (h : a.Evolves b) (hid : id < a.size)
    (hrequired : b.requiredAt id = none) : b.typeAt id = a.typeAt id := by
  unfold typeAt
  rw [h.node_of_constructed hid hrequired]

theorem Evolves.requiredAt_of_some {required : DataType} (h : a.Evolves b)
    (hrequired : a.requiredAt id = some required) : b.requiredAt id = some required := by
  obtain ⟨n, hn, hsome⟩ := Option.bind_eq_some_iff.mp hrequired
  rw [requiredAt_of_node (h.node_of_required hn (by simp [hsome])), hsome]

/-- An expression with a context has its last type. -/
theorem Evolves.typeAt_of_some {required : DataType} (h : a.Evolves b)
    (hrequired : a.requiredAt id = some required) : b.typeAt id = a.typeAt id := by
  obtain ⟨n, hn, hsome⟩ := Option.bind_eq_some_iff.mp hrequired
  have hm := h.node_of_required hn (by simp [hsome])
  rw [typeAt_of_node hm, typeAt_of_node hn]

theorem Evolves.requiredAt_of_none (h : a.Evolves b) (hid : id < a.size)
    (hrequired : b.requiredAt id = none) : a.requiredAt id = none := by
  unfold requiredAt at hrequired ⊢
  rw [h.node_of_constructed hid hrequired] at hrequired
  exact hrequired

end Arena

end VerilogExpr
