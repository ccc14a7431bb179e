import VerilogExpr.Proofs.Arena.Recursion
import VerilogExpr.Proofs.Evaluation.Selects
import VerilogExpr.Proofs.Text.Characters

/-!
# How expressions are spelled

Every expression of an ordered arena has a text.  Here the text is a list of characters, put
together from those of the operands, and there is one equation for each kind of expression.
-/

namespace VerilogExpr

namespace Arena

variable {a : Arena} {id x y z : ExprId} {n : Node} {e : Expr} {operands : List ExprId}

theorem Ordered.text_eq (h : a.Ordered) (hn : a.nodes[id]? = some n) :
    a.text id = n.expr.text a.text (a.wrap a.text) := by
  conv => lhs; unfold text
  rw [fold]
  simp only [hn]
  have holder : ∀ operand ∈ n.expr.operands,
      (if operand < id then a.text operand else .error (.youngerOperand id operand)) =
        a.text operand := fun operand hmem => if_pos (h id n hn operand hmem)
  refine Expr.text_eq_of_eq holder fun operand hmem => ?_
  simp only [wrap]
  exact congrArg _ (funext fun m => congrArg (· >>= _) (holder operand hmem))

/-- The characters of the text; none if there is no text. -/
def spelling (a : Arena) (id : ExprId) : List Char := ((a.text id).toOption.getD "").toList

/-- The characters of the text in the place of an operand: operations stand in parentheses. -/
def operandSpelling (a : Arena) (id : ExprId) : List Char :=
  ((a.wrap a.text id).toOption.getD "").toList

def listSpelling (a : Arena) (operands : List ExprId) : List Char :=
  ", ".toList.intercalate (operands.map a.spelling)

def restSpelling (a : Arena) (operands : List ExprId) : List Char :=
  operands.flatMap fun x => ',' :: ' ' :: a.spelling x

theorem listSpelling_cons (a : Arena) (x : ExprId) (operands : List ExprId) :
    a.listSpelling (x :: operands) = a.spelling x ++ a.restSpelling operands := by
  induction operands generalizing x with
  | nil => simp [listSpelling, restSpelling]
  | cons y operands ih =>
      have htail := ih y
      simp only [listSpelling, List.map_cons, List.intercalate_cons_cons] at htail ⊢
      rw [htail]
      simp [restSpelling]

theorem Ordered.text_eq_spelling (h : a.Ordered) (hid : id < a.size) :
    a.text id = .ok (String.ofList (a.spelling id)) := by
  obtain ⟨s, hs⟩ := h.exists_text hid
  simp [spelling, hs, Except.toOption]

/-- Texts are the same exactly if their characters are. -/
theorem Ordered.text_eq_iff {b : Arena} (ha : a.Ordered) (hb : b.Ordered) (hx : x < a.size)
    (hy : y < b.size) :
    (∃ s, a.text x = .ok s ∧ b.text y = .ok s) ↔ a.spelling x = b.spelling y := by
  rw [ha.text_eq_spelling hx, hb.text_eq_spelling hy]
  constructor
  · rintro ⟨s, hs, ht⟩
    exact String.ofList_injective (Except.ok.inj (hs.trans ht.symm))
  · intro hsame
    exact ⟨_, rfl, by rw [hsame]⟩

section Equations

variable (h : a.Ordered)
include h

theorem Ordered.wrap_eq (hid : a.HasExpr id e) :
    a.wrap a.text id = .ok (String.ofList
      (if e.isOperation then '(' :: (a.spelling id ++ [')']) else a.spelling id)) := by
  obtain ⟨n, hn, rfl⟩ := hid
  have htext := h.text_eq_spelling (lt_size_of_node hn)
  simp only [wrap, bind_eq_ok_iff]
  refine ⟨n, node_eq_ok_iff.mpr hn, _, htext, congrArg Except.ok ?_⟩
  split
  · exact String.toList_injective (by simp [String.toList_append])
  · rfl

/-- An operand that is an operation stands in parentheses. -/
theorem Ordered.operandSpelling_eq (hid : a.HasExpr id e) :
    a.operandSpelling id =
      if e.isOperation then '(' :: (a.spelling id ++ [')']) else a.spelling id := by
  simp [operandSpelling, h.wrap_eq hid, Except.toOption]

theorem Ordered.operandSpelling_of_operation (hid : a.HasExpr id e)
    (he : e.isOperation = true) : a.operandSpelling id = '(' :: (a.spelling id ++ [')']) := by
  rw [h.operandSpelling_eq hid, if_pos he]

theorem Ordered.operandSpelling_of_atom (hid : a.HasExpr id e)
    (he : e.isOperation = false) : a.operandSpelling id = a.spelling id := by
  rw [h.operandSpelling_eq hid, he]
  rfl

theorem Ordered.wrap_operand (hid : a.HasExpr id e) (operand : ExprId)
    (hmem : operand ∈ e.operands) :
    a.wrap a.text operand = .ok (String.ofList (a.operandSpelling operand)) := by
  obtain ⟨n, hn, rfl⟩ := hid
  obtain ⟨m, hm⟩ := exists_node (h.lt_size hn hmem)
  rw [h.operandSpelling_eq ⟨m, hm, rfl⟩]
  exact h.wrap_eq ⟨m, hm, rfl⟩

theorem Ordered.texts_of_operands (hid : a.HasExpr id e) :
    e.operands.mapM a.text = .ok (e.operands.map fun x => String.ofList (a.spelling x)) := by
  obtain ⟨n, hn, rfl⟩ := hid
  exact (mapM_eq_of_eq fun x hx => h.text_eq_spelling (h.lt_size hn hx)).trans List.mapM_pure

/-- The text of an expression, made from the characters of its operands. -/
theorem Ordered.spelling_eq (hid : a.HasExpr id e) {s : String}
    (hs : e.text a.text (a.wrap a.text) = .ok s) : a.spelling id = s.toList := by
  obtain ⟨n, hn, rfl⟩ := hid
  simp [spelling, h.text_eq hn, hs, Except.toOption]

theorem Ordered.spelling_literal {v : Value} (hid : a.HasExpr id (.literal v)) :
    a.spelling id = v.text.toList := h.spelling_eq hid rfl

theorem Ordered.spelling_reference {d : Declaration} (hid : a.HasExpr id (.reference d)) :
    a.spelling id = d.name.toList := h.spelling_eq hid rfl

theorem Ordered.spelling_unary {op : UnaryOp} (hid : a.HasExpr id (.unary op x)) :
    a.spelling id = op.symbol.toList ++ a.operandSpelling x := by
  have hx := h.wrap_operand hid x (by simp [Expr.operands])
  refine (h.spelling_eq hid (by simp only [Expr.text, hx]; rfl)).trans ?_
  simp [String.toList_append]

theorem Ordered.spelling_binary {op : BinaryOp} (hid : a.HasExpr id (.binary op x y)) :
    a.spelling id =
      a.operandSpelling x ++ ' ' :: (op.symbol.toList ++ ' ' :: a.operandSpelling y) := by
  have hx := h.wrap_operand hid x (by simp [Expr.operands])
  have hy := h.wrap_operand hid y (by simp [Expr.operands])
  refine (h.spelling_eq hid (by simp only [Expr.text, hx, hy]; rfl)).trans ?_
  simp [String.toList_append]

theorem Ordered.spelling_ternary {op : TernaryOp} (hid : a.HasExpr id (.ternary op x y z)) :
    a.spelling id =
      a.operandSpelling x ++ ' ' :: (op.symbol.toList ++ ' ' :: (a.operandSpelling y ++
        ' ' :: ':' :: ' ' :: a.operandSpelling z)) := by
  have hx := h.wrap_operand hid x (by simp [Expr.operands])
  have hy := h.wrap_operand hid y (by simp [Expr.operands])
  have hz := h.wrap_operand hid z (by simp [Expr.operands])
  refine (h.spelling_eq hid (by simp only [Expr.text, hx, hy, hz]; rfl)).trans ?_
  simp [String.toList_append]

theorem Ordered.spelling_concat (hid : a.HasExpr id (.concat operands)) :
    a.spelling id = '\x7b' :: (a.listSpelling operands ++ ['\x7d']) := by
  have htexts : operands.mapM a.text = _ := h.texts_of_operands hid
  refine (h.spelling_eq hid (by simp only [Expr.text, htexts]; rfl)).trans ?_
  simp [bracedText, listSpelling, Expr.operands, String.toList_append, Function.comp_def]

theorem Ordered.spelling_replicate {count : Nat} (hid : a.HasExpr id (.replicate count operands)) :
    a.spelling id = '\x7b' :: (count.repr.toList ++ '\x7b' ::
      (a.listSpelling operands ++ ['\x7d', '\x7d'])) := by
  have htexts : operands.mapM a.text = _ := h.texts_of_operands hid
  refine (h.spelling_eq hid (by simp only [Expr.text, htexts]; rfl)).trans ?_
  simp [bracedText, listSpelling, Expr.operands, String.toList_append, Function.comp_def]

end Equations

end Arena

end VerilogExpr
