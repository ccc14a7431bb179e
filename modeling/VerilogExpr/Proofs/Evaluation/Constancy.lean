import VerilogExpr.Proofs.Arena.Recursion
import VerilogExpr.Proofs.Evaluation.Failures
import VerilogExpr.Proofs.Evaluation.Stability

/-!
# Constant expressions and their values

An expression is constant if all declarations that occur in it are.  Constancy is asked of all
operands, and evaluation goes into those that it needs.  So a constant expression fails, if at all,
for a reason that lies in values, never in a declaration (`Arena.Sound.failsOnly_eval`).
Conversely, an expression with a value need not be constant, because a choice evaluates one of its
branches and a delay triple the typical delay only.  All other expressions evaluate all their
operands (`Evaluation.needs_operand`).
-/

namespace VerilogExpr

/-! ### Conditions on everything that an expression depends on -/

namespace Arena

variable {a : Arena} {P : Expr → Prop} {id operand other : ExprId} {n : Node}

/-- All that the expression depends on, itself included, meets the condition. -/
def Everywhere (a : Arena) (P : Expr → Prop) (id : ExprId) : Prop :=
  ∀ other n, a.DependsOn id other → a.nodes[other]? = some n → P n.expr

theorem everywhere_iff (hn : a.nodes[id]? = some n) :
    a.Everywhere P id ↔ P n.expr ∧ ∀ operand ∈ n.expr.operands, a.Everywhere P operand := by
  constructor
  · intro h
    refine ⟨h id n .refl hn, fun operand hmem other m hdepends hm => ?_⟩
    exact h other m (dependsOn_operand hn hmem hdepends) hm
  · rintro ⟨hself, hoperands⟩ other m hdepends hm
    rcases (dependsOn_iff hn).mp hdepends with rfl | ⟨operand, hmem, hrest⟩
    · obtain rfl := Option.some.inj (hn.symm.trans hm)
      exact hself
    · exact hoperands operand hmem other m hrest hm

/-- What holds of every expression of the arena holds everywhere in each of them. -/
theorem everywhere_of_forall (h : ∀ n ∈ a.nodes.toList, P n.expr) (id : ExprId) :
    a.Everywhere P id := by
  intro other n _ hn
  rw [← Array.getElem?_toList] at hn
  exact h n (List.mem_of_getElem? hn)

end Arena

/-! ### Constancy -/

def Expr.IsConstant (e : Expr) : Prop := ∀ d, e.declaration? = some d → d.isConstant = true

theorem Expr.isConstant_iff {e : Expr} :
    e.IsConstant ↔ (e.declaration?.map Declaration.isConstant).getD true = true := by
  unfold IsConstant
  cases e.declaration? <;> simp

def Expr.IsTernary (e : Expr) : Prop := ∃ op x y z, e = .ternary op x y z

namespace Arena

variable {a : Arena} {id : ExprId} {n : Node}

theorem Ordered.isConstant_eq (h : a.Ordered) (hn : a.nodes[id]? = some n) :
    a.isConstant id =
      if (n.expr.declaration?.map Declaration.isConstant).getD true then
        n.expr.operands.allM a.isConstant
      else .ok false := by
  conv => lhs; unfold isConstant
  rw [fold]
  simp only [hn]
  congr 1
  exact allM_eq_of_eq fun operand hmem => if_pos (h id n hn operand hmem)

/-- An expression is constant exactly if all declarations are that occur in it. -/
theorem Ordered.isConstant_eq_true_iff (h : a.Ordered) (hid : id < a.size) :
    a.isConstant id = .ok true ↔ a.Everywhere Expr.IsConstant id := by
  induction id using Nat.strongRecOn with
  | ind id ih =>
      obtain ⟨n, hn⟩ := exists_node hid
      have hoperands : ∀ operand ∈ n.expr.operands,
          a.isConstant operand = .ok true ↔ a.Everywhere Expr.IsConstant operand :=
        fun operand hmem => ih operand (h id n hn operand hmem) (h.lt_size hn hmem)
      rw [h.isConstant_eq hn, everywhere_iff hn, Expr.isConstant_iff]
      split
      · rename_i hself
        rw [allM_eq_true_iff, and_iff_right hself]
        exact forall₂_congr hoperands
      · rename_i hself
        exact iff_of_false nofun fun hall => hself hall.1

/-! ### Failures of constant expressions -/

/-- A constant expression that is supplied with values fails where the evaluation of something that
it depends on fails by itself. -/
theorem Sound.failsOnly_eval (h : a.Sound) (hid : id < a.size)
    (hconstant : a.Everywhere Expr.IsConstant id) (hsupplied : a.Everywhere Expr.Supplied id) :
    FailsOnly (fun f => ∃ other n, a.DependsOn id other ∧ a.nodes[other]? = some n ∧ a.FailsAt n f)
      (a.eval id).outcome := by
  induction id using Nat.strongRecOn with
  | ind id ih =>
      obtain ⟨n, hn⟩ := exists_node hid
      obtain ⟨hadmissible, hsimilar⟩ := h.typed id n hn
      obtain ⟨hself, hconstants⟩ := (everywhere_iff hn).mp hconstant
      obtain ⟨hvalues, hsuppliedOperands⟩ := (everywhere_iff hn).mp hsupplied
      rw [h.ordered.outcome_eval hn]
      refine Evaluation.failsOnly_node hadmissible hsimilar.real hself hvalues ?_
        fun f hf => ⟨id, n, .refl, hn, hf⟩
      refine fun operand hmem => failsOnly_iff.mpr fun f hf => ?_
      have hoperand := ih operand (h.ordered id n hn operand hmem) (h.ordered.lt_size hn hmem)
        (hconstants operand hmem) (hsuppliedOperands operand hmem)
      obtain ⟨other, m, hdepends, hm, hfails⟩ := hoperand.of_eq_error hf
      exact ⟨other, m, dependsOn_operand hn hmem hdepends, hm, hfails⟩

end Arena

def EvalFailure.BlamesDeclaration : EvalFailure → Prop
  | notConstant _ => True
  | noValue _ => True
  | elementMissing _ _ => True
  | _ => False

theorem Arena.FailsAt.not_blamesDeclaration {a : Arena} {n : Node} {f : EvalFailure}
    (h : a.FailsAt n f) : ¬f.BlamesDeclaration := by
  cases h <;> exact id

/-! ### What a value needs -/

namespace Evaluation

section Outcomes

variable {α β : Type} {Q : Prop} {x : Evaluation α}

def Needs (Q : Prop) (x : Evaluation α) : Prop := ∀ result, x.outcome = .ok result → Q

theorem Needs.bind (h : x.Needs Q) (next : α → Evaluation β) : (x >>= next).Needs Q := by
  intro result hresult
  rw [outcome_bind, bind_eq_ok_iff] at hresult
  obtain ⟨first, hfirst, -⟩ := hresult
  exact h first hfirst

theorem needs_bind {next : α → Evaluation β} (h : ∀ result, (next result).Needs Q) :
    (x >>= next).Needs Q := by
  intro result hresult
  rw [outcome_bind, bind_eq_ok_iff] at hresult
  obtain ⟨first, -, hnext⟩ := hresult
  exact h first result hnext

theorem needs_mapM {f : α → Evaluation β} {members : List α} {y : α} (hmem : y ∈ members)
    (h : (f y).Needs Q) : (members.mapM f).Needs Q := by
  have hloop : ∀ acc, (List.mapM.loop f members acc).Needs Q := by
    induction members with
    | nil => cases hmem
    | cons x members ih =>
        intro acc
        rcases List.mem_cons.mp hmem with rfl | hrest
        · exact h.bind _
        · exact needs_bind fun result => ih hrest (result :: acc)
  exact hloop []

theorem needs_foldlM {f : β → α → Evaluation β} {members : List α} {y : α} (hmem : y ∈ members)
    (h : ∀ acc, (f acc y).Needs Q) (init : β) : (members.foldlM f init).Needs Q := by
  induction members generalizing init with
  | nil => cases hmem
  | cons x members ih =>
      rw [List.foldlM_cons]
      rcases List.mem_cons.mp hmem with rfl | hrest
      · exact (h init).bind _
      · exact needs_bind fun next => ih hrest next

end Outcomes

section Operands

variable {a : Arena} {eval : ExprId → Evaluation Value} {n : Node} {t : DataType}
  {id x y operand : ExprId} {operands : List ExprId}

def Succeeds (eval : ExprId → Evaluation Value) (id : ExprId) : Prop :=
  ∃ v, (eval id).outcome = .ok v

theorem needs_self : (eval id).Needs (Succeeds eval id) := fun v hv => ⟨v, hv⟩

theorem needs_operandAs : (operandAs eval id t).Needs (Succeeds eval id) := needs_self.bind _

theorem needs_operandInt : (operandInt eval id t).Needs (Succeeds eval id) :=
  needs_operandAs.bind _

theorem needs_operandBits : (operandBits eval id).Needs (Succeeds eval id) := needs_self.bind _

theorem needs_operandIndex : (operandIndex eval id).Needs (Succeeds eval id) := needs_self.bind _

theorem needs_concatBits (hmem : operand ∈ operands) :
    (concatBits eval operands).Needs (Succeeds eval operand) :=
  needs_foldlM hmem (fun _ => needs_self.bind _) 0

theorem needs_unary (op : UnaryOp) : (unary eval t op id).Needs (Succeeds eval id) := by
  unfold unary
  split
  · exact needs_self.bind _
  · exact needs_operandAs.bind _

theorem needs_left (op : BinaryOp) : (binary a eval t op x y).Needs (Succeeds eval x) := by
  cases op with
  | bitwise f => exact needs_operandAs.bind _
  | arith f => exact needs_operandAs.bind _
  | power =>
      simp only [binary, power]
      split
      · exact needs_self.bind _
      · exact needs_operandInt.bind _
  | shift f => exact needs_operandInt.bind _
  | compare f =>
      exact needs_bind fun _ => needs_bind fun _ => needs_bind fun _ => needs_operandInt.bind _
  | logic f => exact needs_self.bind _

theorem needs_right (op : BinaryOp) : (binary a eval t op x y).Needs (Succeeds eval y) := by
  cases op with
  | bitwise f => exact needs_bind fun _ => needs_operandAs.bind _
  | arith f => exact needs_bind fun _ => needs_operandAs.bind _
  | power =>
      simp only [binary, power]
      split
      · exact needs_bind fun _ => needs_self.bind _
      · exact needs_bind fun _ => needs_operandBits.bind _
  | shift f => exact needs_bind fun _ => needs_operandBits.bind _
  | compare f =>
      refine needs_bind fun _ => needs_bind fun _ => needs_bind fun _ => ?_
      exact needs_bind fun _ => needs_operandInt.bind _
  | logic f => exact needs_bind fun _ => needs_self.bind _

/-- Except for choices and delay triples, there is no value without values of all operands. -/
theorem needs_operand (hternary : ¬n.expr.IsTernary) (hmem : operand ∈ n.expr.operands) :
    (node a eval n).Needs (Succeeds eval operand) := by
  obtain ⟨e, t, required⟩ := n
  cases e with
  | literal value => cases hmem
  | reference d => cases hmem
  | bitSelect d index =>
      cases index with
      | fixed index => cases hmem
      | computed index =>
          obtain rfl := List.mem_singleton.mp hmem
          exact Needs.bind (needs_operandIndex.bind _) _
  | partSelect d bounds =>
      cases bounds with
      | fixed left right => cases hmem
      | indexed base direction width =>
          obtain rfl := List.mem_singleton.mp hmem
          exact Needs.bind (needs_operandIndex.bind _) _
  | element d operands => exact (needs_mapM hmem (needs_operandIndex.bind _)).bind _
  | unary op x =>
      obtain rfl := List.mem_singleton.mp hmem
      exact needs_unary op
  | binary op x y =>
      rcases List.mem_pair.mp hmem with rfl | rfl
      · exact needs_left op
      · exact needs_right op
  | ternary op x y z => exact absurd ⟨op, x, y, z, rfl⟩ hternary
  | concat operands => exact (needs_concatBits hmem).bind _
  | replicate count operands => exact Needs.bind ((needs_concatBits hmem).bind _) _

theorem needs_select (d : Declaration) (bounds : Option BitRange) :
    (lift (d.select bounds)).Needs (d.isConstant = true) := by
  intro result hresult
  cases hconstant : d.isConstant with
  | true => rfl
  | false => simp [Declaration.select, Declaration.constantValue?, hconstant] at hresult

/-- There is no value unless the declaration is constant. -/
theorem needs_isConstant : (node a eval n).Needs n.expr.IsConstant := by
  obtain ⟨e, t, required⟩ := n
  have hnone : e.declaration? = none → e.IsConstant := fun hnone d hd =>
    absurd (hnone.symm.trans hd) nofun
  have hsome : ∀ d, e.declaration? = some d → d.isConstant = true → e.IsConstant := by
    intro d hd hconstant d' hd'
    obtain rfl := Option.some.inj (hd.symm.trans hd')
    exact hconstant
  intro v hv
  cases e with
  | reference d =>
      refine hsome d rfl ?_
      cases hconstant : d.isConstant with
      | true => rfl
      | false => simp [node, Declaration.referenceValue, hconstant] at hv
  | bitSelect d index =>
      exact hsome d rfl (needs_bind (fun _ => (needs_select d _).bind _) v hv)
  | partSelect d bounds =>
      exact hsome d rfl (needs_bind (fun _ => (needs_select d _).bind _) v hv)
  | element d operands =>
      refine hsome d rfl (needs_bind (fun indices result hresult => ?_) v hv)
      cases hconstant : d.isConstant with
      | true => rfl
      | false =>
          cases hdimensions : d.dimensions <;>
            simp [Declaration.elementValue, hconstant, hdimensions] at hresult
  | _ => exact hnone rfl

end Operands

end Evaluation

namespace Arena

variable {a : Arena} {id : ExprId} {v : Value}

/-- Where nothing is chosen, a value is found only if all declarations are constant. -/
theorem Ordered.everywhere_isConstant (h : a.Ordered) (hid : id < a.size)
    (hternary : a.Everywhere (¬·.IsTernary) id) (hv : (a.eval id).outcome = .ok v) :
    a.Everywhere Expr.IsConstant id := by
  induction id using Nat.strongRecOn generalizing v with
  | ind id ih =>
      obtain ⟨n, hn⟩ := exists_node hid
      obtain ⟨hself, hoperands⟩ := (everywhere_iff hn).mp hternary
      rw [h.outcome_eval hn] at hv
      refine (everywhere_iff hn).mpr ⟨Evaluation.needs_isConstant v hv, fun operand hmem => ?_⟩
      obtain ⟨w, hw⟩ := Evaluation.needs_operand hself hmem v hv
      exact ih operand (h id n hn operand hmem) (h.lt_size hn hmem) (hoperands operand hmem) hw

/-- **Constancy and evaluation agree.** Let a constant expression be supplied: the declarations in
it have values, arrays one for each position, and these and the literals are integers or finite
reals.  Its evaluation can then fail only because, somewhere in it, a divisor is zero, a select or an
index leads outside or is no machine integer, or a real that is not finite would have to become an
integer; never because of a declaration.  Conversely, if an expression without choices and delay
triples has a value, then it is constant. -/
theorem Reachable.isConstant_agrees (h : a.Reachable) (hid : id < a.size) :
    (a.isConstant id = .ok true → a.Everywhere Expr.Supplied id → ∀ fault,
      (a.eval id).outcome = .error fault →
        ∃ f other n, fault = .failure f ∧ ¬f.BlamesDeclaration ∧ a.DependsOn id other ∧
          a.nodes[other]? = some n ∧ a.FailsAt n f) ∧
    (a.Everywhere (¬·.IsTernary) id → ∀ v, (a.eval id).outcome = .ok v →
      a.isConstant id = .ok true) := by
  have hordered := h.sound.ordered
  rw [hordered.isConstant_eq_true_iff hid]
  refine ⟨fun hconstant hsupplied fault hfault => ?_, fun hternary v hv => ?_⟩
  · cases fault with
    | violation violation => exact absurd hfault ((h.eval_sound hid).1 violation)
    | failure f =>
        obtain ⟨other, n, hdepends, hn, hfails⟩ :=
          (h.sound.failsOnly_eval hid hconstant hsupplied).of_eq_error hfault
        exact ⟨f, other, n, rfl, hfails.not_blamesDeclaration, hdepends, hn, hfails⟩
  · exact hordered.everywhere_isConstant hid hternary hv

def zeroParameter : Declaration :=
  { Declaration.plain "p" .parameter with value := some ⟨.integer, .integer 0⟩ }

/-- The arena of `(1 + p) / p`. -/
def zeroDivisor : Arena where
  nodes :=
    let sum := DataType.sizedVector .signed 32
    #[⟨.literal ⟨.integer, .integer 1⟩, .integer, none⟩,
      ⟨.reference zeroParameter, .integer, none⟩,
      ⟨.binary (.arith .add) 0 1, sum, none⟩,
      ⟨.binary (.arith .div) 2 1, sum, none⟩]

theorem reachable_zeroDivisor : zeroDivisor.Reachable := by
  refine ⟨zeroDivisor.nodes.toList.map fun n => .add n.expr, ?_⟩
  decide +kernel

/-- The sum has a value, so it is constant.  The quotient fails because of its divisor. -/
theorem isConstant_agrees_zeroDivisor :
    zeroDivisor.isConstant 2 = .ok true ∧
      ∃ other n, zeroDivisor.DependsOn 3 other ∧ zeroDivisor.nodes[other]? = some n ∧
        zeroDivisor.FailsAt n (.divisionByZero (.arith .div)) := by
  have hreachable := reachable_zeroDivisor
  have hplain : ∀ id, zeroDivisor.Everywhere (¬·.IsTernary) id := by
    refine everywhere_of_forall ?_
    simp [zeroDivisor, Expr.IsTernary]
  have hsupplied : ∀ id, zeroDivisor.Everywhere Expr.Supplied id := by
    refine everywhere_of_forall ?_
    simp [zeroDivisor, Expr.Supplied, Declaration.HasValue, zeroParameter, Value.IsFinite]
  have hconstant : zeroDivisor.isConstant 3 = .ok true := by decide +kernel
  have hsum : (zeroDivisor.eval 2).outcome =
      .ok ⟨.sizedVector .signed 32, .integer 1⟩ := by decide +kernel
  have hquotient : (zeroDivisor.eval 3).outcome =
      .error (.failure (.divisionByZero (.arith .div))) := by decide +kernel
  refine ⟨(hreachable.isConstant_agrees (by decide)).2 (hplain 2) _ hsum, ?_⟩
  obtain ⟨f, other, n, hf, -, hdepends, hn, hfails⟩ :=
    (hreachable.isConstant_agrees (by decide)).1 hconstant (hsupplied 3) _ hquotient
  obtain rfl := Fault.failure.inj hf
  exact ⟨other, n, hdepends, hn, hfails⟩

end Arena

end VerilogExpr
