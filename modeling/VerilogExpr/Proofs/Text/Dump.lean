import VerilogExpr.Proofs.Arena.Listing
import VerilogExpr.Proofs.Evaluation.Constancy
import VerilogExpr.Proofs.Text.Characters

/-!
# Dumps

A dump writes one line for each expression that the dumped one depends on, operands first.
A line starts with the handle of its expression, so no two lines are the same.  Numbers, operators
and types are written without line breaks.  So the lines can be told apart in the text as well, as
long as the names of declarations have no line breaks either.
-/

namespace VerilogExpr

/-! ### Texts without line breaks -/

def Unbroken (s : String) : Prop := '\n' ∉ s.toList

instance (s : String) : Decidable (Unbroken s) := inferInstanceAs (Decidable ('\n' ∉ s.toList))

@[simp] theorem unbroken_append {s t : String} :
    Unbroken (s ++ t) ↔ Unbroken s ∧ Unbroken t := by
  simp [Unbroken, String.toList_append]

theorem unbroken_ite {p : Prop} [Decidable p] {s t : String} (hs : Unbroken s) (ht : Unbroken t) :
    Unbroken (if p then s else t) := by
  split
  · exact hs
  · exact ht

theorem unbroken_of_class {p : Char → Bool} (hp : p '\n' = false) {s : String}
    (h : ∀ c ∈ s.toList, p c = true) : Unbroken s :=
  fun hmem => absurd (hp.symm.trans (h _ hmem)) Bool.false_ne_true

theorem unbroken_repr (n : Nat) : Unbroken n.repr :=
  unbroken_of_class (by decide) (isNumeral_repr n).chars

theorem unbroken_toString_int (n : Int) : Unbroken (toString n) := by
  cases n with
  | ofNat n => exact unbroken_repr n
  | negSucc n =>
      have htext : toString (Int.negSucc n) = "-" ++ (n + 1).repr := rfl
      rw [htext, unbroken_append]
      exact ⟨by decide, unbroken_repr (n + 1)⟩

theorem ExprId.unbroken_text (id : ExprId) : Unbroken id.text := by
  rw [text, unbroken_append]
  exact ⟨by decide, unbroken_repr id⟩

theorem DataType.unbroken_text (t : DataType) : Unbroken t.text := by
  cases t with
  | vector sign sized width =>
      have hsign : Unbroken sign.text := by cases sign <;> decide
      have hsigned : Unbroken (" " ++ sign.text) := unbroken_append.mpr ⟨by decide, hsign⟩
      have hbounds : Unbroken (" [" ++ toString (Bits.wrapIndex ((width : Int) - 1)) ++ ":0]") := by
        rw [unbroken_append, unbroken_append]
        exact ⟨⟨by decide, unbroken_toString_int _⟩, by decide⟩
      rw [text, unbroken_append, unbroken_append, unbroken_append]
      exact ⟨⟨⟨unbroken_ite (by decide) (by decide), by decide⟩,
        unbroken_ite hsigned (by decide)⟩, unbroken_ite (by decide) hbounds⟩
  | integer => decide
  | time => decide
  | real => decide

theorem Real.unbroken_padded (n length : Nat) : Unbroken (padded n length) := by
  rw [padded, unbroken_append]
  refine ⟨?_, unbroken_repr n⟩
  simp [Unbroken]

theorem Real.Decimal.unbroken_text (d : Decimal) : Unbroken d.text := by
  unfold text
  split
  · exact unbroken_repr _
  · split
    · exact unbroken_repr _
    · rw [unbroken_append, unbroken_append]
      exact ⟨⟨unbroken_repr _, by decide⟩, unbroken_padded _ _⟩

theorem Real.unbroken_text (x : Float) : Unbroken (text x) := by
  refine unbroken_ite (by decide) (unbroken_append.mpr ⟨unbroken_ite (by decide) (by decide), ?_⟩)
  split
  · decide
  · exact unbroken_ite (by decide) (Decimal.unbroken_text _)

theorem Value.unbroken_text (v : Value) : Unbroken v.text := by
  unfold text
  split
  · exact Real.unbroken_text _
  · refine unbroken_ite ?_ (unbroken_toString_int _)
    simp only [unbroken_append]
    exact ⟨⟨⟨⟨⟨unbroken_ite (by decide) (by decide), unbroken_repr _⟩, by decide⟩,
      unbroken_ite (by decide) (by decide)⟩, by decide⟩, unbroken_repr _⟩

/-! ### Lines -/

def Node.entry (n : Node) : String :=
  n.expr.label ++
    (if n.expr.operands.isEmpty then ""
      else " " ++ String.intercalate ", " (n.expr.operands.map ExprId.text)) ++
    " : " ++ n.type.text ++ n.required.elim "" fun required => " in " ++ required.text

def Node.line (id : ExprId) (n : Node) : String := id.text ++ " = " ++ n.entry

namespace Arena

variable {a : Arena} {id : ExprId} {n : Node} {ids : List ExprId}

end Arena

end VerilogExpr
