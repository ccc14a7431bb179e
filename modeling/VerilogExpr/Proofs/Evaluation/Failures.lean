import VerilogExpr.Proofs.Evaluation.Elements
import VerilogExpr.Proofs.Evaluation.Modular

/-!
# Why evaluation fails

An evaluation that fails does so at one expression, for a reason that lies in the values of its
operands: a divisor is zero, an index is no machine integer or leads outside, or a real that is not
finite would have to become an integer.  `Arena.FailsAt` says so for each kind of failure.  There is
no other reason, provided that the declarations are constant and have all the values that the
expressions ask them for.

As in the proof of soundness, the kinds of expressions are gone through once, and nothing is asked
of the operands but how they fail themselves.
-/

namespace VerilogExpr

/-! ### Failures of a computation -/

def Fault.IsOneOf (P : EvalFailure → Prop) : Fault → Prop
  | .violation _ => True
  | .failure f => P f

/-- If the computation fails, then with one of the given failures. -/
abbrev FailsOnly {α : Type} (P : EvalFailure → Prop) (x : Except Fault α) : Prop :=
  Concludes (fun _ => True) (Fault.IsOneOf P) x

section Outcomes

variable {α β : Type} {P : EvalFailure → Prop} {x : Except Fault α}

theorem failsOnly_ok (result : α) : FailsOnly P (.ok result) := trivial

theorem failsOnly_iff : FailsOnly P x ↔ ∀ f, x = .error (.failure f) → P f := by
  refine ⟨fun h f hf => h.of_eq_error hf, fun h => ?_⟩
  cases x with
  | ok result => trivial
  | error fault =>
      cases fault with
      | violation v => trivial
      | failure f => exact h f rfl

theorem FailsOnly.bind {next : α → Except Fault β} (hx : FailsOnly P x)
    (hnext : ∀ result, x = .ok result → FailsOnly P (next result)) : FailsOnly P (x >>= next) :=
  hx.with_eq.bind fun result hresult => hnext result hresult.1

/-- A demand that is not met is a violation, which is no failure. -/
theorem failsOnly_demand (demand : Except Violation α) :
    FailsOnly P (demand : Except Fault α) := by
  cases demand with
  | ok result => trivial
  | error v => trivial

theorem FailsOnly.bind_demand {demand : Except Violation α} {next : α → Except Fault β}
    (hnext : ∀ result, demand = .ok result → FailsOnly P (next result)) :
    FailsOnly P ((demand : Except Fault α) >>= next) := by
  cases demand with
  | ok result => exact hnext result rfl
  | error v => trivial

end Outcomes

/-! ### Values -/

section Values

variable {P : EvalFailure → Prop} {t : DataType} {v w : Value} {d : Declaration}

theorem Value.HasType.isFinite (h : v.HasType t) (ht : t.isReal = false) : v.IsFinite := by
  obtain ⟨n, rfl, -⟩ := h.exists_integer ht
  intro x hx
  cases hx

theorem Value.HasType.exists_real (h : v.HasType t) (ht : t.isReal = true) :
    ∃ x, v.number = .real x := by
  obtain ⟨-, hholds⟩ := h
  cases hnumber : v.number with
  | integer n =>
      rw [hnumber] at hholds
      exact absurd (hholds.1.symm.trans ht) Bool.false_ne_true
  | real x => exact ⟨x, rfl⟩

theorem failsOnly_convertTo
    (h : ¬v.IsFinite → t.isReal = false → P (.notConvertible v t)) :
    FailsOnly P (v.convertTo t) := by
  unfold Value.convertTo
  cases hconverted : v.converted? t with
  | some w => exact failsOnly_ok w
  | none =>
      refine h (fun hfinite => ?_) ?_
      · obtain ⟨w, hw⟩ := hfinite.exists_converted? t
        exact absurd (hconverted.symm.trans hw) nofun
      · cases hreal : t.isReal with
        | false => rfl
        | true => simp [Value.converted?, hreal] at hconverted

theorem failsOnly_demandInt (h : ¬v.IsFinite → P (.noInteger v)) : FailsOnly P v.demandInt := by
  unfold Value.demandInt
  cases hint : v.toInt? with
  | some n => exact failsOnly_ok n
  | none =>
      refine h fun hfinite => ?_
      obtain ⟨n, hn⟩ := hfinite.exists_toInt?
      exact absurd (hint.symm.trans hn) nofun

theorem failsOnly_demandBits (h : ¬v.IsFinite → P (.noInteger v)) : FailsOnly P v.demandBits :=
  (failsOnly_demandInt h).bind fun _ _ => failsOnly_ok _

theorem failsOnly_demandInt_of_isFinite (h : v.IsFinite) : FailsOnly P v.demandInt :=
  failsOnly_demandInt (absurd h)

theorem failsOnly_result (t : DataType) (n : Int) : FailsOnly P (Value.result t n) :=
  failsOnly_demand _

/-! ### Declarations -/

def Declaration.HasValue (d : Declaration) : Prop := ∃ v, d.value = some v ∧ v.IsFinite

/-- The bounds of a select are no machine integers, or some index between them is outside the
declared range. -/
def Declaration.Misses (d : Declaration) : Option BitRange → Prop
  | none => True
  | some bounds => ∃ i, bounds.contains i = true ∧ d.bitRange.contains i = false

/-- Selecting bits of a declaration that has a value fails only where the bounds lead outside. -/
theorem failsOnly_select {bounds : Option BitRange} (hconstant : d.isConstant = true)
    (hvalue : d.HasValue) (h : d.Misses bounds → P (.selectOutside d)) :
    FailsOnly P (d.select bounds) := by
  obtain ⟨v, hv, hfinite⟩ := hvalue
  obtain ⟨n, hn⟩ := hfinite.exists_toInt?
  have hread := Declaration.constantValue?_eq_some hconstant hv
  refine failsOnly_iff.mpr fun f hf => ?_
  cases bounds with
  | none =>
      simp only [Declaration.select, hread, Except.error.injEq, Fault.failure.injEq] at hf
      exact hf ▸ h trivial
  | some bounds =>
      obtain ⟨i, hi, hout⟩ := (Declaration.select_eq_error_iff hread hn).mp ⟨_, hf⟩
      have hboth :
          (d.bitRange.contains bounds.left && d.bitRange.contains bounds.right) = false := by
        by_contra hboth
        have hinside := BitRange.bounds_mem_iff.mp ((Bool.not_eq_false _).mp hboth) i hi
        exact Bool.false_ne_true (hout.symm.trans hinside)
      simp only [Declaration.select, hread, hboth, Bool.false_eq_true, if_false,
        Except.error.injEq, Fault.failure.injEq] at hf
      exact hf ▸ h ⟨i, hi, hout⟩

theorem failsOnly_referenceValue (hconstant : d.isConstant = true) (hvalue : d.HasValue)
    (t : DataType) : FailsOnly P (d.referenceValue t) := by
  obtain ⟨v, hv, hfinite⟩ := hvalue
  simp only [Declaration.referenceValue, hconstant, if_true, hv]
  exact failsOnly_convertTo (absurd hfinite)

/-- With a value at every position, an element fails only if its indices lead outside. -/
theorem failsOnly_elementValue {dimensions : Dimensions} {indices : List Int}
    (hconstant : d.isConstant = true) (hdimensions : d.dimensions = some dimensions)
    (hfinite : ∀ v ∈ d.elements, v.IsFinite)
    (hpositions : ∀ position, dimensions.position? indices = some position →
      position < d.elements.length)
    (h : ¬dimensions.Contains indices → P (.elementOutside indices dimensions d)) :
    FailsOnly P (d.elementValue t indices) := by
  simp only [Declaration.elementValue, hdimensions, hconstant, if_true]
  cases hposition : dimensions.position? indices with
  | none =>
      refine h fun hcontains => ?_
      obtain ⟨position, hsome⟩ := Dimensions.exists_position?_iff.mpr hcontains
      exact absurd (hsome.symm.trans hposition) (Option.some_ne_none position)
  | some position =>
      have hlt := hpositions position hposition
      simp only [List.getElem?_eq_getElem hlt]
      exact failsOnly_convertTo (absurd (hfinite _ (List.getElem_mem hlt)))

/-! ### Operators -/

theorem failsOnly_onReals {op : ArithOp} {x y : Float} (hw : w.number = .real y)
    (h : op = .div ∨ op = .mod → w.isTrue = false → P (.divisionByZero (.arith op))) :
    FailsOnly P (op.onReals x w.toReal) := by
  cases op with
  | div =>
      simp only [ArithOp.onReals, Value.toReal, hw]
      split
      · rename_i hzero
        exact h (Or.inl rfl) (by simp only [Value.isTrue, hw, bne, hzero, Bool.not_true])
      · exact failsOnly_ok _
  | _ => trivial

theorem failsOnly_onIntegers {op : ArithOp} {x y : Int} (hw : w.number = .integer y)
    (h : op = .div ∨ op = .mod → w.isTrue = false → P (.divisionByZero (.arith op))) :
    FailsOnly P (op.onIntegers t x y) := by
  have hzero : op = .div ∨ op = .mod → y = 0 → P (.divisionByZero (.arith op)) := by
    rintro hop rfl
    exact h hop (by simp [Value.isTrue, hw])
  unfold ArithOp.onIntegers
  cases hresult : op.apply? x y with
  | some n => exact failsOnly_result t n
  | none =>
      cases op with
      | div => exact hzero (Or.inl rfl) (by simpa [ ArithOp.apply?] using hresult)
      | mod => exact hzero (Or.inr rfl) (by simpa [ ArithOp.apply?] using hresult)
      | _ => cases hresult

theorem failsOnly_sinkValue (op : UnaryOp) (h : ¬v.IsFinite → P (.noInteger v)) :
    FailsOnly P (op.sinkValue t v) := by
  cases op with
  | reduce reduction => exact (failsOnly_demandBits h).bind fun _ _ => failsOnly_result t _
  | _ => exact failsOnly_result t _

theorem failsOnly_forwardingValue (op : UnaryOp) : FailsOnly P (op.forwardingValue t v) := by
  unfold UnaryOp.forwardingValue
  split
  · exact failsOnly_ok _
  · exact failsOnly_result t _
  · exact failsOnly_result t _
  · exact failsOnly_ok _

end Values

/-! ### Operands -/

namespace Evaluation

variable {P : EvalFailure → Prop} {a : Arena} {eval : ExprId → Evaluation Value} {n : Node}
  {t : DataType} {id x y z : ExprId} {d : Declaration} {operands : List ExprId}

/-- The evaluation fails only with the given failures, and so does the conversion of a value that is
not finite to an integer. -/
structure Excused (P : EvalFailure → Prop) (x : Evaluation Value) : Prop where
  fails : FailsOnly P x.outcome
  integer : ∀ v, x.outcome = .ok v → ¬v.IsFinite → P (.noInteger v)
  conversion : ∀ v t, x.outcome = .ok v → ¬v.IsFinite → t.isReal = false →
    P (.notConvertible v t)

theorem hasType_of_operandAs {w : Value} (h : (operandAs eval id t).outcome = .ok w) :
    w.HasType t := by
  simp only [operandAs, outcome_bind, outcome_monadLift, bind_eq_ok_iff,
    Value.convertTo_eq_ok_iff] at h
  obtain ⟨v, -, hconverted⟩ := h
  exact Value.hasType_of_converted hconverted

theorem Excused.operandAs (h : (eval id).Excused P) (t : DataType) :
    FailsOnly P (operandAs eval id t).outcome := by
  simp only [Evaluation.operandAs, outcome_bind, outcome_monadLift]
  exact h.fails.bind fun v hv => failsOnly_convertTo (h.conversion v t hv)

theorem Excused.operandInt (h : (eval id).Excused P) (ht : t.isReal = false) :
    FailsOnly P (operandInt eval id t).outcome := by
  simp only [Evaluation.operandInt, outcome_bind, outcome_monadLift]
  exact (h.operandAs t).bind fun w hw =>
    failsOnly_demandInt_of_isFinite ((hasType_of_operandAs hw).isFinite ht)

theorem Excused.operandBits (h : (eval id).Excused P) :
    FailsOnly P (operandBits eval id).outcome := by
  simp only [Evaluation.operandBits, outcome_bind, outcome_monadLift]
  exact h.fails.bind fun v hv => failsOnly_demandBits (h.integer v hv)

theorem Excused.operandIndex (h : (eval id).Excused P) :
    FailsOnly P (operandIndex eval id).outcome := by
  simp only [Evaluation.operandIndex, outcome_bind, outcome_pure]
  exact h.fails.bind fun _ _ => failsOnly_ok _

theorem failsOnly_bitBounds {index : BitIndex}
    (h : ∀ operand ∈ index.operands, (eval operand).Excused P) :
    FailsOnly P (bitBounds eval index).outcome := by
  cases index with
  | fixed index => exact failsOnly_ok _
  | computed index =>
      simp only [bitBounds, outcome_bind, outcome_pure]
      exact (h index (by simp [BitIndex.operands])).operandIndex.bind fun _ _ => failsOnly_ok _

theorem failsOnly_partBounds {bounds : PartBounds} (range : BitRange)
    (h : ∀ operand ∈ bounds.operands, (eval operand).Excused P) :
    FailsOnly P (partBounds eval range bounds).outcome := by
  cases bounds with
  | fixed left right => exact failsOnly_ok _
  | indexed base direction width =>
      simp only [partBounds, outcome_bind]
      refine (h base (by simp [PartBounds.operands])).operandIndex.bind fun index _ => ?_
      cases index with
      | none => exact failsOnly_ok _
      | some index =>
          simp only [outcome_bind, outcome_pure]
          exact .bind_demand fun _ _ => failsOnly_ok _

theorem failsOnly_elementIndex (d : Declaration) (h : (eval id).Excused P)
    (hindex : (Evaluation.operandIndex eval id).outcome = .ok none → P (.indexNotInteger d)) :
    FailsOnly P (elementIndex eval d id).outcome := by
  simp only [elementIndex, outcome_bind]
  refine h.operandIndex.bind fun index hvalue => ?_
  cases index with
  | none => exact hindex hvalue
  | some index => exact failsOnly_ok _

theorem failsOnly_mapM {α β : Type} {f : α → Evaluation β} {members : List α}
    (h : ∀ x ∈ members, FailsOnly P (f x).outcome) : FailsOnly P (members.mapM f).outcome := by
  rw [outcome_mapM]
  exact concludes_mapM h

theorem failsOnly_concatBits (h : ∀ operand ∈ operands, (eval operand).Excused P) :
    FailsOnly P (concatBits eval operands).outcome := by
  rw [concatBits, outcome_foldlM]
  refine concludes_foldlM (fun x hx acc _ => ?_) trivial
  simp only [appendBits, outcome_bind, outcome_monadLift, outcome_pure]
  exact (h x hx).fails.bind fun v hv =>
    (failsOnly_demandBits ((h x hx).integer v hv)).bind fun _ _ => failsOnly_ok _

/-! ### Expressions -/

theorem failsOnly_unary {op : UnaryOp} (h : (eval x).Excused P) :
    FailsOnly P (unary eval t op x).outcome := by
  unfold unary
  split
  · simp only [outcome_bind, outcome_monadLift]
    exact h.fails.bind fun v hv => failsOnly_sinkValue op (h.integer v hv)
  · simp only [outcome_bind, outcome_monadLift]
    exact (h.operandAs t).bind fun _ _ => failsOnly_forwardingValue op

theorem failsOnly_arith {op : ArithOp} (hx : (eval x).Excused P) (hy : (eval y).Excused P)
    (h : ∀ w, (operandAs eval y t).outcome = .ok w → op = .div ∨ op = .mod → w.isTrue = false →
      P (.divisionByZero (.arith op))) : FailsOnly P (arith eval t op x y).outcome := by
  simp only [arith, outcome_bind]
  refine (hx.operandAs t).bind fun v hv => (hy.operandAs t).bind fun w hw => ?_
  have hvtype := hasType_of_operandAs hv
  have hwtype := hasType_of_operandAs hw
  cases hreal : t.isReal with
  | true =>
      obtain ⟨r, hr⟩ := hwtype.exists_real hreal
      exact failsOnly_onReals hr (h w hw)
  | false =>
      obtain ⟨m, rfl, -⟩ := hwtype.exists_integer hreal
      simp only [Bool.false_eq_true, if_false, outcome_bind, outcome_monadLift]
      exact (failsOnly_demandInt_of_isFinite (hvtype.isFinite hreal)).bind fun _ _ =>
        failsOnly_onIntegers rfl (h _ hw)

/-- An operator fails only if it divides by zero, or if it reads the bits of a real that is not
finite. -/
theorem failsOnly_binary {op : BinaryOp} (hadmits : op.Admits (a.typeAt x) (a.typeAt y))
    (htype : t.isReal = (op.resultType (a.typeAt x) (a.typeAt y)).isReal)
    (hx : (eval x).Excused P) (hy : (eval y).Excused P)
    (h : ∀ f w, op = .arith f → (operandAs eval y t).outcome = .ok w → f = .div ∨ f = .mod →
      w.isTrue = false → P (.divisionByZero op)) :
    FailsOnly P (binary a eval t op x y).outcome := by
  cases op with
  | bitwise f =>
      have hreal : t.isReal = false := htype
      simp only [binary, bitwise, hreal, outcome_bind, outcome_monadLift, Bool.false_eq_true,
        if_false]
      refine (hx.operandAs t).bind fun v hv => (hy.operandAs t).bind fun w hw => ?_
      have hvfinite := (hasType_of_operandAs hv).isFinite hreal
      have hwfinite := (hasType_of_operandAs hw).isFinite hreal
      exact (failsOnly_demandInt_of_isFinite hvfinite).bind fun _ _ =>
        (failsOnly_demandInt_of_isFinite hwfinite).bind fun _ _ => failsOnly_result t _
  | arith f => exact failsOnly_arith hx hy fun w => h f w rfl
  | power =>
      simp only [binary, power]
      cases hreal : t.isReal with
      | true =>
          simp only [if_true, outcome_bind, outcome_pure]
          exact hx.fails.bind fun _ _ => hy.fails.bind fun _ _ => failsOnly_ok _
      | false =>
          simp only [Bool.false_eq_true, if_false, outcome_bind, outcome_monadLift]
          exact (hx.operandInt hreal).bind fun _ _ =>
            hy.operandBits.bind fun _ _ => failsOnly_result t _
  | shift f =>
      have hreal : t.isReal = false := htype.trans hadmits
      simp only [binary, shift, outcome_bind, outcome_monadLift]
      exact (hx.operandInt hreal).bind fun _ _ =>
        hy.operandBits.bind fun _ _ => failsOnly_result t _
  | compare f =>
      simp only [binary, compare, outcome_bind, outcome_monadLift]
      refine .bind_demand fun left _ => .bind_demand fun right _ => ?_
      refine .bind_demand fun common hcommon => ?_
      have hreal : common.isReal = false := by
        obtain ⟨-, -, rfl⟩ := DataType.common_eq_ok_iff.mp hcommon
        rfl
      exact (hx.operandInt hreal).bind fun _ _ =>
        (hy.operandInt hreal).bind fun _ _ => failsOnly_result t _
  | logic f =>
      simp only [binary, logic, outcome_bind, outcome_monadLift]
      exact hx.fails.bind fun _ _ => hy.fails.bind fun _ _ => failsOnly_result t _

theorem failsOnly_ternary {op : TernaryOp} (hx : (eval x).Excused P) (hy : (eval y).Excused P)
    (hz : (eval z).Excused P) : FailsOnly P (ternary eval t op x y z).outcome := by
  cases op with
  | conditional =>
      simp only [ternary, outcome_bind]
      refine hx.fails.bind fun condition _ => ?_
      cases condition.isTrue with
      | true => exact hy.operandAs t
      | false => exact hz.operandAs t
  | minTypMax => exact hy.operandAs t

end Evaluation

/-- The declaration that the expression refers to, or the literal that it is, has the values that
evaluation asks for, none of them infinite. -/
def Expr.Supplied : Expr → Prop
  | literal value => value.IsFinite
  | reference d => d.HasValue
  | bitSelect d _ => d.HasValue
  | partSelect d _ => d.HasValue
  | element d _ => (∀ v ∈ d.elements, v.IsFinite) ∧
      ∀ dimensions indices position, d.dimensions = some dimensions →
        dimensions.position? indices = some position → position < d.elements.length
  | _ => True

namespace Arena

variable {a : Arena} {n : Node}

/-- Why the evaluation of a node fails although those of its operands succeed. -/
inductive FailsAt (a : Arena) (n : Node) : EvalFailure → Prop where
  /-- The divisor is zero, at the type of the division. -/
  | divisor {op : ArithOp} {x y : ExprId} {w : Value} (hexpr : n.expr = .binary (.arith op) x y)
      (hop : op = .div ∨ op = .mod) (hw : (Evaluation.operandAs a.eval y n.type).outcome = .ok w)
      (hzero : w.isTrue = false) : FailsAt a n (.divisionByZero (.arith op))
  | bitSelect {d : Declaration} {index : BitIndex} {bounds : Option BitRange}
      (hexpr : n.expr = .bitSelect d index)
      (hbounds : (Evaluation.bitBounds a.eval index).outcome = .ok bounds)
      (hmisses : d.Misses bounds) : FailsAt a n (.selectOutside d)
  | partSelect {d : Declaration} {part : PartBounds} {bounds : Option BitRange}
      (hexpr : n.expr = .partSelect d part)
      (hbounds : (Evaluation.partBounds a.eval d.bitRange part).outcome = .ok bounds)
      (hmisses : d.Misses bounds) : FailsAt a n (.selectOutside d)
  /-- The index of an element is no machine integer. -/
  | index {d : Declaration} {operands : List ExprId} {x : ExprId}
      (hexpr : n.expr = .element d operands) (hmem : x ∈ operands)
      (hindex : (Evaluation.operandIndex a.eval x).outcome = .ok none) :
      FailsAt a n (.indexNotInteger d)
  | element {d : Declaration} {operands : List ExprId} {indices : List Int}
      {dimensions : Dimensions} (hexpr : n.expr = .element d operands)
      (hindices : (operands.mapM (Evaluation.elementIndex a.eval d)).outcome = .ok indices)
      (hdimensions : d.dimensions = some dimensions) (houtside : ¬dimensions.Contains indices) :
      FailsAt a n (.elementOutside indices dimensions d)
  /-- The bits of an operand are asked for, and its value is a real that is not finite. -/
  | integer {x : ExprId} {v : Value} (hmem : x ∈ n.expr.operands)
      (hv : (a.eval x).outcome = .ok v) (hfinite : ¬v.IsFinite) : FailsAt a n (.noInteger v)
  /-- An operand is converted to an integral type, and its value is a real that is not finite. -/
  | conversion {x : ExprId} {v : Value} {t : DataType} (hmem : x ∈ n.expr.operands)
      (hv : (a.eval x).outcome = .ok v) (hfinite : ¬v.IsFinite) (ht : t.isReal = false) :
      FailsAt a n (.notConvertible v t)

end Arena

/-- A well-typed node that is supplied with constants fails as one of its operands does, or for one
of the reasons that lie in their values. -/
theorem Evaluation.failsOnly_node {P : EvalFailure → Prop} {a : Arena} {n : Node}
    (hadmissible : n.expr.Admissible a.typeAt)
    (htype : n.type.isReal = (n.expr.selfType a.typeAt).isReal)
    (hconstant : ∀ d, n.expr.declaration? = some d → d.isConstant = true)
    (hsupplied : n.expr.Supplied)
    (hoperands : ∀ operand ∈ n.expr.operands, FailsOnly P (a.eval operand).outcome)
    (hself : ∀ f, a.FailsAt n f → P f) : FailsOnly P (node a a.eval n).outcome := by
  have hexcused : ∀ operand ∈ n.expr.operands, (a.eval operand).Excused P := fun operand hmem =>
    ⟨hoperands operand hmem, fun v hv hfinite => hself _ (.integer hmem hv hfinite),
      fun v t hv hfinite ht => hself _ (.conversion hmem hv hfinite ht)⟩
  obtain ⟨e, t, required⟩ := n
  cases e with
  | literal value => exact failsOnly_convertTo (absurd hsupplied)
  | reference d => exact failsOnly_referenceValue (hconstant d rfl) hsupplied t
  | bitSelect d index =>
      simp only [node, bitSelect, outcome_bind, outcome_monadLift]
      refine (failsOnly_bitBounds hexcused).bind fun bounds hbounds => ?_
      refine (failsOnly_select (hconstant d rfl) hsupplied fun hmisses => ?_).bind
        fun _ _ => failsOnly_result t _
      exact hself _ (.bitSelect rfl hbounds hmisses)
  | partSelect d part =>
      simp only [node, partSelect, outcome_bind, outcome_monadLift]
      refine (failsOnly_partBounds d.bitRange hexcused).bind fun bounds hbounds => ?_
      refine (failsOnly_select (hconstant d rfl) hsupplied fun hmisses => ?_).bind
        fun _ _ => failsOnly_result t _
      exact hself _ (.partSelect rfl hbounds hmisses)
  | element d operands =>
      obtain ⟨⟨dimensions, hdimensions, -⟩, -⟩ := hadmissible
      obtain ⟨hfinite, hpositions⟩ := hsupplied
      simp only [node, element, outcome_bind, outcome_monadLift]
      refine (failsOnly_mapM fun x hmem => ?_).bind fun indices hindices => ?_
      · exact failsOnly_elementIndex d (hexcused x hmem) fun hindex =>
          hself _ (.index rfl hmem hindex)
      · exact failsOnly_elementValue (hconstant d rfl) hdimensions hfinite
          (fun position => hpositions dimensions indices position hdimensions) fun houtside =>
          hself _ (.element rfl hindices hdimensions houtside)
  | unary op x => exact failsOnly_unary (hexcused x (by simp [Expr.operands]))
  | binary op x y =>
      refine failsOnly_binary hadmissible htype (hexcused x (by simp [Expr.operands]))
        (hexcused y (by simp [Expr.operands])) ?_
      rintro f w rfl hw hf hzero
      exact hself _ (.divisor rfl hf hw hzero)
  | ternary op x y z =>
      exact failsOnly_ternary (hexcused x (by simp [Expr.operands]))
        (hexcused y (by simp [Expr.operands])) (hexcused z (by simp [Expr.operands]))
  | concat operands =>
      simp only [node, outcome_bind, outcome_monadLift]
      exact (failsOnly_concatBits hexcused).bind fun _ _ => failsOnly_result t _
  | replicate count operands =>
      have hcount : count ≠ 0 := hadmissible.1
      simp only [node, replicateBits, hcount, if_false, outcome_bind, outcome_monadLift,
        outcome_pure]
      refine FailsOnly.bind ?_ fun _ _ => failsOnly_result t _
      exact (failsOnly_concatBits hexcused).bind fun _ _ => failsOnly_ok _

end VerilogExpr
