import VerilogExpr.Proofs.Arena.Construction

/-!
# Classes of operands

An operand is settled when its expression is built, or it is evaluated in the context of the
expression.  Of the latter, all but the outer delays of a triple are *covered*: an integral
expression is at least as wide as they are, and has none among them that is real.
-/

namespace VerilogExpr

namespace Expr

variable {e : Expr} {types types' : ExprId → DataType} {operand : ExprId}

/-- The operands in the context of an expression that its own type covers. -/
def covered : Expr → List ExprId
  | ternary .minTypMax _ second _ => [second]
  | e => e.forwarded

theorem mem_operands_iff : operand ∈ e.operands ↔ operand ∈ e.forwarded ∨ operand ∈ e.settled := by
  cases e with
  | unary op x => cases hsink : op.isSink <;> simp [operands, forwarded, settled, hsink]
  | binary op x y => cases op <;> simp [operands, forwarded, settled]
  | ternary op x y z =>
      cases op with
      | conditional =>
          simp only [operands, forwarded, settled, List.mem_cons, List.not_mem_nil, or_false]
          exact Or.comm
      | minTypMax => simp [operands, forwarded, settled]
  | _ => simp [operands, forwarded, settled]

theorem mem_operands_of_forwarded (h : operand ∈ e.forwarded) : operand ∈ e.operands :=
  mem_operands_iff.mpr (Or.inl h)

theorem mem_operands_of_settled (h : operand ∈ e.settled) : operand ∈ e.operands :=
  mem_operands_iff.mpr (Or.inr h)

theorem mem_forwarded_of_covered (h : operand ∈ e.covered) : operand ∈ e.forwarded := by
  unfold covered at h
  split at h
  · simp only [List.mem_singleton] at h
    simp [forwarded, h]
  · exact h

theorem forwarded_of_not_forwarding (h : e.isForwarding = false) : e.forwarded = [] := by
  cases e with
  | unary op x =>
      simp only [isForwarding, Bool.not_eq_eq_eq_not, Bool.not_false] at h
      simp [forwarded, h]
  | binary op x y => cases op <;> simp_all [isForwarding, BinaryOp.isSink, forwarded]
  | ternary op x y z => simp [isForwarding] at h
  | _ => rfl

theorem isForwarding_of_mem_forwarded (h : operand ∈ e.forwarded) : e.isForwarding = true := by
  by_contra hnot
  rw [forwarded_of_not_forwarding (Bool.eq_false_iff.mpr hnot)] at h
  exact List.not_mem_nil h

/-! ### What later types of the operands cannot change -/

/-- What an expression demands of types has nothing to do with their widths. -/
theorem Admissible.congr (htypes : ∀ operand ∈ e.operands, (types operand).Similar (types' operand))
    (h : e.Admissible types) : e.Admissible types' := by
  have hreal : ∀ operand ∈ e.operands,
      (types operand).isReal = false → (types' operand).isReal = false := by
    intro operand hmem hfalse
    rw [← (htypes operand hmem).real, hfalse]
  cases e with
  | literal value => trivial
  | reference d => trivial
  | bitSelect d index => exact h
  | partSelect d bounds => exact h
  | element d indices => exact ⟨h.1, fun index hmem => hreal index hmem (h.2 index hmem)⟩
  | unary op x =>
      intro hop
      exact hreal x (by simp [operands]) (h hop)
  | binary op x y =>
      have hx := hreal x (by simp [operands])
      have hy := hreal y (by simp [operands])
      cases op with
      | bitwise f => exact ⟨hx h.1, hy h.2⟩
      | arith f => exact fun hop => ⟨hx (h hop).1, hy (h hop).2⟩
      | power => trivial
      | shift f => exact hx h
      | compare f => exact ⟨hx h.1, hy h.2⟩
      | logic f => trivial
  | ternary op x y z => trivial
  | concat operands => exact ⟨h.1, fun x hmem => hreal x hmem (h.2 x hmem)⟩
  | replicate count operands => exact ⟨h.1, h.2.1, fun x hmem => hreal x hmem (h.2.2 x hmem)⟩

theorem similar_resultType {op : BinaryOp} {t t' u u' : DataType} (ht : t.Similar t')
    (hu : u.Similar u') : (op.resultType t u).Similar (op.resultType t' u') := by
  cases op with
  | bitwise f => exact DataType.similar_commonVector ht hu
  | arith f => exact DataType.similar_mixed ht hu
  | power => exact DataType.similar_power ht hu
  | shift f => exact ht
  | compare f => exact .refl _
  | logic f => exact .refl _

theorem similar_selfType
    (htypes : ∀ operand ∈ e.operands, (types operand).Similar (types' operand)) :
    (e.selfType types).Similar (e.selfType types') := by
  cases e with
  | unary op x =>
      simp only [selfType]
      split
      · exact .refl _
      · exact htypes x (by simp [operands])
  | binary op x y =>
      exact similar_resultType (htypes x (by simp [operands])) (htypes y (by simp [operands]))
  | ternary op x y z =>
      have hy := htypes y (by simp [operands])
      cases op with
      | conditional => exact DataType.similar_mixed hy (htypes z (by simp [operands]))
      | minTypMax => exact hy
  | concat operands => exact ⟨rfl, rfl, rfl⟩
  | replicate count operands => exact ⟨rfl, rfl, rfl⟩
  | _ => exact .refl _

/-! ### Covered operands -/

/-- An integral expression covers its operands: they are integral and no wider than it is. -/
theorem covered_of_integral (hadmissible : e.Admissible types)
    (h : (e.selfType types).isReal = false) (hmem : operand ∈ e.covered) :
    (types operand).isReal = false ∧ (types operand).width ≤ (e.selfType types).width := by
  cases e with
  | unary op x =>
      cases hsink : op.isSink with
      | true => simp [covered, forwarded, hsink] at hmem
      | false =>
          simp only [covered, forwarded, hsink, Bool.false_eq_true, if_false,
            List.mem_singleton] at hmem
          simp only [selfType, hsink, Bool.false_eq_true, if_false] at h ⊢
          subst hmem
          exact ⟨h, Nat.le_refl _⟩
  | binary op x y =>
      cases op with
      | bitwise f =>
          obtain ⟨hx, hy⟩ : (types x).isReal = false ∧ (types y).isReal = false := hadmissible
          simp only [covered, forwarded, List.mem_cons, List.not_mem_nil, or_false] at hmem
          rcases hmem with rfl | rfl
          · exact ⟨hx, Nat.le_max_left _ _⟩
          · exact ⟨hy, Nat.le_max_right _ _⟩
      | arith f =>
          obtain ⟨hx, hy⟩ := DataType.isReal_mixed_eq_false_iff.mp h
          have htype : (Expr.binary (.arith f) x y).selfType types =
              .commonVector (types x) (types y) := DataType.mixed_of_integral h
          simp only [covered, forwarded, List.mem_cons, List.not_mem_nil, or_false] at hmem
          rw [htype]
          rcases hmem with rfl | rfl
          · exact ⟨hx, Nat.le_max_left _ _⟩
          · exact ⟨hy, Nat.le_max_right _ _⟩
      | power =>
          have hbits := DataType.isReal_power_eq_false_iff.mp h
          simp only [covered, forwarded, List.mem_singleton] at hmem
          subst hmem
          refine ⟨DataType.isReal_of_keepsPowerBits hbits.1, ?_⟩
          change _ ≤ (DataType.power _ _).width
          rw [DataType.width_power h]
          exact Nat.le_max_left _ _
      | shift f =>
          simp only [covered, forwarded, List.mem_singleton] at hmem
          subst hmem
          exact ⟨h, Nat.le_refl _⟩
      | compare f => simp [covered, forwarded] at hmem
      | logic f => simp [covered, forwarded] at hmem
  | ternary op x y z =>
      cases op with
      | conditional =>
          obtain ⟨hy, hz⟩ := DataType.isReal_mixed_eq_false_iff.mp h
          have htype : (Expr.ternary .conditional x y z).selfType types =
              .commonVector (types y) (types z) := DataType.mixed_of_integral h
          simp only [covered, forwarded, List.mem_cons, List.not_mem_nil, or_false] at hmem
          rw [htype]
          rcases hmem with rfl | rfl
          · exact ⟨hy, Nat.le_max_left _ _⟩
          · exact ⟨hz, Nat.le_max_right _ _⟩
      | minTypMax =>
          simp only [covered, List.mem_singleton] at hmem
          subst hmem
          exact ⟨h, Nat.le_refl _⟩
  | _ => simp [covered, forwarded] at hmem

end Expr

end VerilogExpr
