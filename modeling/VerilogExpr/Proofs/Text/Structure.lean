import VerilogExpr.Proofs.Text.Spelling

/-!
# The structure of expressions

Which expressions can be read back from their texts, and when two expressions, possibly of different
arenas, have the same structure.  The text depends on the structure only
(`Arena.SameStructure.spelling_eq`).
-/

namespace VerilogExpr

namespace Arena

variable {a b : Arena} {x y : ExprId} {e e' : Expr}

theorem HasExpr.unique (h : a.HasExpr x e) (h' : a.HasExpr x e') : e = e' := by
  obtain ⟨n, hn, rfl⟩ := h
  obtain ⟨m, hm, rfl⟩ := h'
  rw [Option.some.inj (hn.symm.trans hm)]

theorem HasExpr.lt_size (h : a.HasExpr x e) : x < a.size := by
  obtain ⟨n, hn, -⟩ := h
  exact lt_size_of_node hn

/-- Operators, concatenations and replications over declarations that are named by identifiers and
integers that are not negative. -/
inductive Legible (a : Arena) : ExprId → Prop where
  | literal {x : ExprId} {v : Value} {n : Nat} (hx : a.HasExpr x (.literal v))
      (hn : v.number = .integer n) : Legible a x
  | reference {x : ExprId} {d : Declaration} (hx : a.HasExpr x (.reference d))
      (hname : IsIdentifier d.name) : Legible a x
  | unary {x p : ExprId} {op : UnaryOp} (hx : a.HasExpr x (.unary op p)) (hp : Legible a p) :
      Legible a x
  | binary {x p q : ExprId} {op : BinaryOp} (hx : a.HasExpr x (.binary op p q))
      (hp : Legible a p) (hq : Legible a q) : Legible a x
  | ternary {x p q r : ExprId} {op : TernaryOp} (hx : a.HasExpr x (.ternary op p q r))
      (hp : Legible a p) (hq : Legible a q) (hr : Legible a r) : Legible a x
  | concat {x : ExprId} {operands : List ExprId} (hx : a.HasExpr x (.concat operands))
      (hoperands : ∀ p ∈ operands, Legible a p) : Legible a x
  | replicate {x : ExprId} {count : Nat} {operands : List ExprId}
      (hx : a.HasExpr x (.replicate count operands)) (hoperands : ∀ p ∈ operands, Legible a p) :
      Legible a x

/-- Two expressions, possibly of different arenas, have the same kinds, operators and counts at all
places, literals with the same text and declarations with the same name. -/
inductive SameStructure (a b : Arena) : ExprId → ExprId → Prop where
  | literal {x y : ExprId} {v w : Value} (hx : a.HasExpr x (.literal v))
      (hy : b.HasExpr y (.literal w)) (htext : v.text = w.text) : SameStructure a b x y
  | reference {x y : ExprId} {d d' : Declaration} (hx : a.HasExpr x (.reference d))
      (hy : b.HasExpr y (.reference d')) (hname : d.name = d'.name) : SameStructure a b x y
  | unary {x y p p' : ExprId} {op : UnaryOp} (hx : a.HasExpr x (.unary op p))
      (hy : b.HasExpr y (.unary op p')) (hp : SameStructure a b p p') : SameStructure a b x y
  | binary {x y p q p' q' : ExprId} {op : BinaryOp} (hx : a.HasExpr x (.binary op p q))
      (hy : b.HasExpr y (.binary op p' q')) (hp : SameStructure a b p p')
      (hq : SameStructure a b q q') : SameStructure a b x y
  | ternary {x y p q r p' q' r' : ExprId} {op : TernaryOp} (hx : a.HasExpr x (.ternary op p q r))
      (hy : b.HasExpr y (.ternary op p' q' r')) (hp : SameStructure a b p p')
      (hq : SameStructure a b q q') (hr : SameStructure a b r r') : SameStructure a b x y
  | concat {x y : ExprId} {ps ps' : List ExprId} (hx : a.HasExpr x (.concat ps))
      (hy : b.HasExpr y (.concat ps')) (hps : List.Forall₂ (SameStructure a b) ps ps') :
      SameStructure a b x y
  | replicate {x y : ExprId} {count : Nat} {ps ps' : List ExprId}
      (hx : a.HasExpr x (.replicate count ps)) (hy : b.HasExpr y (.replicate count ps'))
      (hps : List.Forall₂ (SameStructure a b) ps ps') : SameStructure a b x y

theorem map_eq_of_forall₂ {α β γ : Type} {R : α → β → Prop} {f : α → γ} {g : β → γ} {as : List α}
    {bs : List β} (h : List.Forall₂ R as bs) (hfg : ∀ u ∈ as, ∀ v, R u v → f u = g v) :
    as.map f = bs.map g := by
  induction h with
  | nil => rfl
  | @cons u v as bs huv _ ih =>
      rw [List.map_cons, List.map_cons, hfg u List.mem_cons_self v huv,
        ih fun w hw => hfg w (List.mem_cons_of_mem u hw)]

/-- Expressions of the same structure are spelled alike as operands if they are as a whole. -/
theorem SameStructure.operandSpelling_eq (h : a.SameStructure b x y) (ha : a.Ordered)
    (hb : b.Ordered) (hspelling : a.spelling x = b.spelling y) :
    a.operandSpelling x = b.operandSpelling y := by
  obtain ⟨e, e', hex, hey, hkind⟩ :
      ∃ e e', a.HasExpr x e ∧ b.HasExpr y e' ∧ e.isOperation = e'.isOperation := by
    cases h <;> refine ⟨_, _, ‹a.HasExpr x _›, ‹b.HasExpr y _›, ?_⟩ <;> rfl
  rw [ha.operandSpelling_eq hex, hb.operandSpelling_eq hey, hkind, hspelling]

/-- The text shows nothing but the structure. -/
theorem SameStructure.spelling_eq (h : a.SameStructure b x y) (ha : a.Ordered) (hb : b.Ordered) :
    a.spelling x = b.spelling y := by
  induction x using Nat.strongRecOn generalizing y with
  | ind x ih =>
      have hlt : ∀ {e : Expr} {p : ExprId}, a.HasExpr x e → p ∈ e.operands → p < x := by
        rintro e p ⟨n, hn, rfl⟩ hmem
        exact ha x n hn p hmem
      have hoperand : ∀ {e : Expr} {p p' : ExprId}, a.HasExpr x e → p ∈ e.operands →
          a.SameStructure b p p' → a.operandSpelling p = b.operandSpelling p' :=
        fun hx hmem hp => hp.operandSpelling_eq ha hb (ih _ (hlt hx hmem) hp)
      have hlist : ∀ {ps ps' : List ExprId}, List.Forall₂ (a.SameStructure b) ps ps' →
          (∀ p ∈ ps, p < x) → a.listSpelling ps = b.listSpelling ps' :=
        fun hps holder => congrArg _
          (map_eq_of_forall₂ hps fun p hp _ hsame => ih p (holder p hp) hsame)
      cases h with
      | literal hx hy htext => rw [ha.spelling_literal hx, hb.spelling_literal hy, htext]
      | reference hx hy hname => rw [ha.spelling_reference hx, hb.spelling_reference hy, hname]
      | unary hx hy hp =>
          rw [ha.spelling_unary hx, hb.spelling_unary hy,
            hoperand hx (by simp [Expr.operands]) hp]
      | binary hx hy hp hq =>
          rw [ha.spelling_binary hx, hb.spelling_binary hy,
            hoperand hx (by simp [Expr.operands]) hp, hoperand hx (by simp [Expr.operands]) hq]
      | ternary hx hy hp hq hr =>
          rw [ha.spelling_ternary hx, hb.spelling_ternary hy,
            hoperand hx (by simp [Expr.operands]) hp, hoperand hx (by simp [Expr.operands]) hq,
            hoperand hx (by simp [Expr.operands]) hr]
      | concat hx hy hps =>
          rw [ha.spelling_concat hx, hb.spelling_concat hy, hlist hps fun _ => hlt hx]
      | replicate hx hy hps =>
          rw [ha.spelling_replicate hx, hb.spelling_replicate hy, hlist hps fun _ => hlt hx]

end Arena

end VerilogExpr
