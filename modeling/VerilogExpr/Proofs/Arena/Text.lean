import VerilogExpr.Arena.Text
import VerilogExpr.Proofs.Arena.Invariants

/-!
# Asking about expressions

The text of an expression, and whether it has a constant value, can be asked of every expression of
an ordered arena.
-/

namespace VerilogExpr

theorem Expr.exists_text {e : Expr} {plain wrapped : ExprId → Except Violation String}
    (hplain : ∀ operand ∈ e.operands, ∃ s, plain operand = .ok s)
    (hwrapped : ∀ operand ∈ e.operands, ∃ s, wrapped operand = .ok s) :
    ∃ s, e.text plain wrapped = .ok s := by
  cases e with
  | literal value => exact ⟨_, rfl⟩
  | reference d => exact ⟨_, rfl⟩
  | bitSelect d index =>
      cases index with
      | fixed index => exact ⟨_, rfl⟩
      | computed index =>
          obtain ⟨s, hs⟩ := hplain index (by simp [operands, BitIndex.operands])
          exact ⟨_, by simp only [text, BitIndex.text, hs]; rfl⟩
  | partSelect d bounds =>
      cases bounds with
      | fixed left right => exact ⟨_, rfl⟩
      | indexed base direction width =>
          obtain ⟨s, hs⟩ := hplain base (by simp [operands, PartBounds.operands])
          exact ⟨_, by simp only [text, PartBounds.text, hs]; rfl⟩
  | element d indices =>
      obtain ⟨texts, htexts⟩ : ∃ texts, indices.mapM plain = .ok texts := exists_mapM_eq_ok hplain
      exact ⟨_, by simp only [text, htexts]; rfl⟩
  | unary op x =>
      obtain ⟨s, hs⟩ := hwrapped x (by simp [operands])
      exact ⟨_, by simp only [text, hs]; rfl⟩
  | binary op x y =>
      obtain ⟨s, hs⟩ := hwrapped x (by simp [operands])
      obtain ⟨r, hr⟩ := hwrapped y (by simp [operands])
      exact ⟨_, by simp only [text, hs, hr]; rfl⟩
  | ternary op x y z =>
      obtain ⟨s, hs⟩ := hwrapped x (by simp [operands])
      obtain ⟨r, hr⟩ := hwrapped y (by simp [operands])
      obtain ⟨q, hq⟩ := hwrapped z (by simp [operands])
      exact ⟨_, by simp only [text, hs, hr, hq]; rfl⟩
  | concat operands =>
      obtain ⟨texts, htexts⟩ : ∃ texts, operands.mapM plain = .ok texts :=
        exists_mapM_eq_ok hplain
      exact ⟨_, by simp only [text, htexts]; rfl⟩
  | replicate count operands =>
      obtain ⟨texts, htexts⟩ : ∃ texts, operands.mapM plain = .ok texts :=
        exists_mapM_eq_ok hplain
      exact ⟨_, by simp only [text, htexts]; rfl⟩

namespace Arena

variable {a : Arena} {id : ExprId}

/-- To ask for a text is no violation. -/
theorem Ordered.exists_text (h : a.Ordered) (hid : id < a.size) : ∃ s, a.text id = .ok s := by
  induction id using Nat.strongRecOn with
  | ind id ih =>
      obtain ⟨n, hn⟩ := exists_node hid
      have hplain : ∀ operand ∈ n.expr.operands, ∃ s,
          (if operand < id then a.text operand else .error (.youngerOperand id operand)) =
            .ok s := by
        intro operand hmem
        have hlt := h id n hn operand hmem
        rw [if_pos hlt]
        exact ih operand hlt (Nat.lt_trans hlt hid)
      unfold text
      rw [fold]
      simp only [hn]
      refine Expr.exists_text hplain fun operand hmem => ?_
      obtain ⟨s, hs⟩ := hplain operand hmem
      obtain ⟨m, hm⟩ := exists_node (h.lt_size hn hmem)
      refine ⟨if m.expr.isOperation then "(" ++ s ++ ")" else s, ?_⟩
      simp only [wrap, bind_eq_ok_iff]
      exact ⟨m, node_eq_ok_iff.mpr hm, s, hs, rfl⟩

theorem Ordered.exists_isConstant (h : a.Ordered) (hid : id < a.size) :
    ∃ result, a.isConstant id = .ok result := by
  induction id using Nat.strongRecOn with
  | ind id ih =>
      obtain ⟨n, hn⟩ := exists_node hid
      unfold isConstant
      rw [fold]
      simp only [hn]
      split
      · refine exists_allM_eq_ok fun operand hmem => ?_
        have hlt := h id n hn operand hmem
        rw [if_pos hlt]
        exact ih operand hlt (Nat.lt_trans hlt hid)
      · exact ⟨false, rfl⟩

end Arena

end VerilogExpr
