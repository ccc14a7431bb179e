import VerilogExpr.Proofs.Arena.Recorded
import VerilogExpr.Proofs.Dimensions
import VerilogExpr.Proofs.Evaluation.Selects

/-!
# Elements of constant arrays

The operands of an element are its indices.  They are settled when the expression is built, so each
is evaluated at its own width, and the position that they have in the dimensions says which value of
the declaration is read.  That value is converted to the type of the declaration, which no context
widens.
-/

namespace VerilogExpr

theorem Value.IsFinite.exists_converted? {v : Value} (h : v.IsFinite) (t : DataType) :
    ∃ w, v.converted? t = some w := by
  unfold converted?
  split
  · exact ⟨_, rfl⟩
  · cases hnumber : v.number with
    | integer n => exact ⟨_, rfl⟩
    | real x =>
        obtain ⟨n, hn⟩ := h.exists_toInt?
        simp only [toInt?, hnumber] at hn
        exact ⟨truncated t n, by simp [hn]⟩

theorem Value.convertTo_eq_ok_iff {v w : Value} {t : DataType} :
    v.convertTo t = .ok w ↔ v.converted? t = some w := by
  unfold convertTo
  cases v.converted? t <;> simp

namespace Arena

variable {a : Arena} {id operand : ExprId} {d : Declaration} {dimensions : Dimensions}
  {operands : List ExprId} {index : Int} {indices : List Int} {position : Nat}

end Arena

end VerilogExpr
