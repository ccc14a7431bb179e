import VerilogExpr.Proofs.BitRange
import VerilogExpr.Proofs.Bits
import VerilogExpr.Proofs.Evaluation.Locality

/-!
# Soundness of evaluation

Evaluation asks something of the expressions that it works on: that the operand of a reduction has
bits, that a replication has a count, that an array has dimensions.  Construction has checked all
of it, and no context can undo it.  So in a reachable arena the evaluation of an expression ends
with a value of its type, or it fails for a reason that the user is told.

The proof goes through the kinds of expressions once.  It asks nothing of the values of the
operands but that finding them is no violation, since each operator converts them first.
-/

namespace VerilogExpr

def DataType.Holds (t : DataType) : Number → Prop
  | .real _ => t.isReal = true
  | .integer n => t.isReal = false ∧ Bits.Fits n t.width t.isSigned

def Value.HasType (v : Value) (t : DataType) : Prop := v.type = t ∧ t.Holds v.number

def Fault.IsFailure : Fault → Prop
  | .violation _ => False
  | .failure _ => True

/-- No violation, and a result with the given property if there is one. -/
abbrev Ensures {α : Type} (P : α → Prop) (x : Except Fault α) : Prop :=
  Concludes P Fault.IsFailure x

section Outcomes

variable {α β : Type} {P : α → Prop} {Q : β → Prop} {x : Except Fault α}

/-- A demand that is met is no violation. -/
theorem Ensures.bind_of_ok {demand : Except Violation α} {result : α}
    (hdemand : demand = .ok result) {next : α → Except Fault β} (h : Ensures Q (next result)) :
    Ensures Q ((demand : Except Fault α) >>= next) := by
  subst hdemand
  exact h

theorem Ensures.ne_violation (hx : Ensures P x) (v : Violation) : x ≠ .error (.violation v) :=
  fun h => hx.of_eq_error h

namespace Evaluation

theorem outcome_mapM (f : α → Evaluation β) (members : List α) :
    (members.mapM f).outcome = members.mapM fun x => (f x).outcome := by
  have hloop : ∀ acc, (List.mapM.loop f members acc).outcome =
      List.mapM.loop (fun x => (f x).outcome) members acc := by
    induction members with
    | nil => exact fun _ => rfl
    | cons x members ih =>
        intro acc
        simp only [List.mapM.loop, outcome_bind, ih]
  exact hloop []

theorem outcome_foldlM (step : β → α → Evaluation β) (init : β) (members : List α) :
    (members.foldlM step init).outcome =
      members.foldlM (fun acc x => (step acc x).outcome) init := by
  induction members generalizing init with
  | nil => rfl
  | cons x members ih => simp only [List.foldlM_cons, outcome_bind, ih]

end Evaluation

end Outcomes

/-! ### Values -/

section Values

variable {t : DataType} {v : Value}

theorem Value.hasType_ofReal (h : t.isReal = true) (x : Float) : (ofReal x).HasType t := by
  obtain rfl := DataType.isReal_iff.mp h
  exact ⟨rfl, rfl⟩

theorem Value.hasType_truncated (h : t.isReal = false) (n : Int) : (truncated t n).HasType t :=
  ⟨rfl, h, Bits.fits_truncate n t.width t.isSigned⟩

theorem Value.hasType_of_converted {w : Value} (h : v.converted? t = some w) : w.HasType t := by
  unfold converted? at h
  cases hreal : t.isReal with
  | true =>
      simp only [hreal, if_true, Option.some.injEq] at h
      exact h ▸ hasType_ofReal hreal _
  | false =>
      simp only [hreal, Bool.false_eq_true, if_false] at h
      cases hnumber : v.number with
      | integer n =>
          simp only [hnumber, Option.some.injEq] at h
          exact h ▸ hasType_truncated hreal _
      | real x =>
          simp only [hnumber, Option.map_eq_some_iff] at h
          obtain ⟨n, -, rfl⟩ := h
          exact hasType_truncated hreal n

theorem ensures_convertTo (v : Value) (t : DataType) : Ensures (·.HasType t) (v.convertTo t) := by
  unfold Value.convertTo
  cases h : v.converted? t with
  | none => trivial
  | some w => exact Value.hasType_of_converted h

/-- An integral value at another integral type: its bits are read with the sign of the new type
first. -/
theorem Value.convertTo_of_integer {n : Int} (hreal : t.isReal = false)
    (hnumber : v.number = .integer n) :
    v.convertTo t = .ok (truncated t (Bits.truncate n v.type.width t.isSigned)) := by
  simp only [convertTo, converted?, hreal, Bool.false_eq_true, if_false, hnumber]

theorem Value.result_eq_ok (h : t.isReal = false) (n : Int) :
    result t n = .ok (.truncated t n) := by
  unfold result ofInt
  rw [h]
  rfl

theorem ensures_result (h : t.isReal = false) (n : Int) :
    Ensures (·.HasType t) (Value.result t n) := by
  rw [Value.result_eq_ok h]
  exact Value.hasType_truncated h n

theorem ensures_demandInt (v : Value) : Ensures (fun _ => True) v.demandInt := by
  unfold Value.demandInt
  cases v.toInt? with
  | none => trivial
  | some n => trivial

theorem ensures_demandBits (v : Value) : Ensures (fun _ => True) v.demandBits :=
  (ensures_demandInt v).bind fun _ _ => trivial

/-! ### Declarations -/

/-- The bounds of a select are checked against the range that they are resolved in. -/
theorem ensures_select (d : Declaration) (bounds : Option BitRange) :
    Ensures (fun _ => True) (d.select bounds) := by
  unfold Declaration.select
  cases d.constantValue? with
  | none => trivial
  | some value =>
      cases bounds with
      | none => trivial
      | some bounds =>
          obtain ⟨left, right⟩ := bounds
          cases hcontains : d.bitRange.contains left && d.bitRange.contains right with
          | false => simp only [hcontains, Bool.false_eq_true, if_false]; trivial
          | true =>
              obtain ⟨hleft, hright⟩ := Bool.and_eq_true_iff.mp hcontains
              obtain ⟨_, hfrom⟩ := BitRange.exists_lsbOffset? hleft
              obtain ⟨_, hto⟩ := BitRange.exists_lsbOffset? hright
              simp only [hcontains, if_true, hfrom, hto]
              exact (ensures_demandInt value).bind fun _ _ => trivial

theorem ensures_elementValue {d : Declaration} {dimensions : Dimensions}
    (h : d.dimensions = some dimensions) (t : DataType) (indices : List Int) :
    Ensures (·.HasType t) (d.elementValue t indices) := by
  unfold Declaration.elementValue
  simp only [h]
  split
  · split
    · trivial
    · split
      · exact ensures_convertTo _ t
      · trivial
  · trivial

theorem ensures_referenceValue (d : Declaration) (t : DataType) :
    Ensures (·.HasType t) (d.referenceValue t) := by
  unfold Declaration.referenceValue
  split
  · split
    · exact ensures_convertTo _ t
    · trivial
  · trivial

/-! ### Operators -/

theorem ensures_onReals {op : ArithOp} (h : t.isReal = true)
    (hop : (BinaryOp.arith op).rejectsReal = false) (x y : Float) :
    Ensures (·.HasType t) (op.onReals x y) := by
  cases op with
  | add => exact Value.hasType_ofReal h _
  | sub => exact Value.hasType_ofReal h _
  | mul => exact Value.hasType_ofReal h _
  | div =>
      simp only [ArithOp.onReals]
      split
      · trivial
      · exact Value.hasType_ofReal h _
  | mod => simp [BinaryOp.rejectsReal] at hop

theorem ensures_onIntegers {op : ArithOp} (h : t.isReal = false) (x y : Int) :
    Ensures (·.HasType t) (op.onIntegers t x y) := by
  unfold ArithOp.onIntegers
  split
  · exact ensures_result h _
  · trivial

theorem ensures_sinkValue (op : UnaryOp) (h : t.isReal = false) (v : Value) :
    Ensures (·.HasType t) (op.sinkValue t v) := by
  cases op with
  | reduce reduction => exact (ensures_demandBits v).bind fun _ _ => ensures_result h _
  | _ => exact ensures_result h _

theorem ensures_forwardingValue (op : UnaryOp) (hv : v.HasType t) :
    Ensures (·.HasType t) (op.forwardingValue t v) := by
  obtain ⟨-, hholds⟩ := hv
  unfold UnaryOp.forwardingValue
  split
  · rename_i x hnumber
    rw [hnumber] at hholds
    exact Value.hasType_ofReal hholds _
  · rename_i n hnumber
    rw [hnumber] at hholds
    exact ensures_result hholds.1 _
  · rename_i n hnumber
    rw [hnumber] at hholds
    exact ensures_result hholds.1 _
  · exact ⟨rfl, hholds⟩

end Values
/-! ### Expressions -/

namespace Evaluation

variable {a : Arena} {eval : ExprId → Evaluation Value} {n : Node} {t : DataType} {id : ExprId}
  {operands : List ExprId}

def Safe {α : Type} (x : Evaluation α) : Prop := Ensures (fun _ => True) x.outcome

theorem ensures_operandAs (h : (eval id).Safe) (t : DataType) :
    Ensures (·.HasType t) (operandAs eval id t).outcome := by
  simp only [operandAs, outcome_bind, outcome_monadLift]
  exact h.bind fun v _ => ensures_convertTo v t

theorem safe_operandInt (h : (eval id).Safe) (t : DataType) : (operandInt eval id t).Safe := by
  simp only [Safe, operandInt, outcome_bind, outcome_monadLift]
  exact (ensures_operandAs h t).bind fun v _ => ensures_demandInt v

theorem safe_operandBits (h : (eval id).Safe) : (operandBits eval id).Safe := by
  simp only [Safe, operandBits, outcome_bind, outcome_monadLift]
  exact h.bind fun v _ => ensures_demandBits v

theorem safe_operandIndex (h : (eval id).Safe) : (operandIndex eval id).Safe := by
  simp only [Safe, operandIndex, outcome_bind, outcome_pure]
  exact h.bind fun _ _ => trivial

theorem safe_bitBounds {index : BitIndex} (h : ∀ operand ∈ index.operands, (eval operand).Safe) :
    (bitBounds eval index).Safe := by
  cases index with
  | fixed index => trivial
  | computed index =>
      simp only [Safe, bitBounds, outcome_bind, outcome_pure]
      exact (safe_operandIndex (h index (by simp [BitIndex.operands]))).bind fun _ _ => trivial

/-- The width of an indexed select is not zero, so it has bounds. -/
theorem safe_partBounds {bounds : PartBounds} (hwidth : bounds.width ≠ 0) (range : BitRange)
    (h : ∀ operand ∈ bounds.operands, (eval operand).Safe) :
    (partBounds eval range bounds).Safe := by
  cases bounds with
  | fixed left right => trivial
  | indexed base direction width =>
      simp only [Safe, partBounds, outcome_bind]
      refine (safe_operandIndex (h base (by simp [PartBounds.operands]))).bind fun index _ => ?_
      cases index with
      | none => trivial
      | some index =>
          have hnonzero : width ≠ 0 := hwidth
          simp only [outcome_bind, BitRange.indexedBounds, hnonzero, if_false]
          trivial

theorem safe_elementIndex (d : Declaration) (h : (eval id).Safe) :
    (elementIndex eval d id).Safe := by
  simp only [Safe, elementIndex, outcome_bind]
  refine (safe_operandIndex h).bind fun index _ => ?_
  cases index with
  | none => trivial
  | some index => trivial

theorem safe_mapM {α β : Type} {f : α → Evaluation β} {members : List α}
    (h : ∀ x ∈ members, (f x).Safe) : (members.mapM f).Safe := by
  rw [Safe, outcome_mapM]
  exact concludes_mapM h

theorem safe_concatBits (h : ∀ operand ∈ operands, (eval operand).Safe) :
    (concatBits eval operands).Safe := by
  rw [Safe, concatBits, outcome_foldlM]
  refine concludes_foldlM (fun x hx acc _ => ?_) trivial
  simp only [appendBits, outcome_bind, outcome_monadLift, outcome_pure]
  exact (h x hx).bind fun v _ => (ensures_demandBits v).bind fun _ _ => trivial

theorem ensures_unary {op : UnaryOp} (hsink : op.isSink = true → t.isReal = false)
    (h : (eval id).Safe) : Ensures (·.HasType t) (unary eval t op id).outcome := by
  unfold unary
  split
  · rename_i hop
    simp only [outcome_bind, outcome_monadLift]
    exact h.bind fun v _ => ensures_sinkValue op (hsink hop) v
  · simp only [outcome_bind, outcome_monadLift]
    exact (ensures_operandAs h t).bind fun v hv => ensures_forwardingValue op hv

theorem ensures_binary {op : BinaryOp} {left right : ExprId} (hleft : left < a.size)
    (hright : right < a.size) (hadmits : op.Admits (a.typeAt left) (a.typeAt right))
    (htype : t.isReal = (op.resultType (a.typeAt left) (a.typeAt right)).isReal)
    (hl : (eval left).Safe) (hr : (eval right).Safe) :
    Ensures (·.HasType t) (binary a eval t op left right).outcome := by
  cases op with
  | bitwise f =>
      have hreal : t.isReal = false := htype
      simp only [binary, bitwise, hreal, outcome_bind, outcome_monadLift, Bool.false_eq_true,
        if_false]
      refine (ensures_operandAs hl t).bind fun v _ => (ensures_operandAs hr t).bind fun w _ => ?_
      refine (ensures_demandInt v).bind fun x _ => (ensures_demandInt w).bind fun y _ => ?_
      exact ensures_result hreal _
  | arith f =>
      simp only [binary, arith, outcome_bind]
      refine (ensures_operandAs hl t).bind fun v _ => (ensures_operandAs hr t).bind fun w _ => ?_
      cases hreal : t.isReal with
      | true =>
          have hmixed : (DataType.mixed (a.typeAt left) (a.typeAt right)).isReal = true :=
            htype.symm.trans hreal
          have hop : (BinaryOp.arith f).rejectsReal = false := by
            by_contra hrejects
            have hboth := hadmits (Bool.eq_true_of_not_eq_false hrejects)
            rw [DataType.isReal_mixed_eq_false_iff.mpr hboth] at hmixed
            exact Bool.false_ne_true hmixed
          exact ensures_onReals hreal hop _ _
      | false =>
          simp only [Bool.false_eq_true, if_false, outcome_bind, outcome_monadLift]
          refine (ensures_demandInt v).bind fun x _ => (ensures_demandInt w).bind fun y _ => ?_
          exact ensures_onIntegers hreal x y
  | power =>
      simp only [binary, power]
      cases hreal : t.isReal with
      | true =>
          simp only [if_true, outcome_bind, outcome_pure]
          exact hl.bind fun v _ => hr.bind fun w _ => Value.hasType_ofReal hreal _
      | false =>
          simp only [Bool.false_eq_true, if_false, outcome_bind, outcome_monadLift]
          refine (safe_operandInt hl t).bind fun x _ => (safe_operandBits hr).bind fun y _ => ?_
          exact ensures_result hreal _
  | shift f =>
      have hreal : t.isReal = false := htype.trans hadmits
      simp only [binary, shift, outcome_bind, outcome_monadLift]
      refine (safe_operandInt hl t).bind fun x _ => (safe_operandBits hr).bind fun y _ => ?_
      exact ensures_result hreal _
  | compare f =>
      have hreal : t.isReal = false := htype
      have hltype : a.type left = .ok (a.typeAt left) := Arena.type_eq_ok_iff.mpr ⟨hleft, rfl⟩
      have hrtype : a.type right = .ok (a.typeAt right) := Arena.type_eq_ok_iff.mpr ⟨hright, rfl⟩
      have hcommon := DataType.common_eq_ok_iff.mpr ⟨hadmits.1, hadmits.2, rfl⟩
      simp only [binary, compare, outcome_bind, outcome_monadLift]
      refine .bind_of_ok hltype (.bind_of_ok hrtype (.bind_of_ok hcommon ?_))
      refine (safe_operandInt hl _).bind fun x _ => (safe_operandInt hr _).bind fun y _ => ?_
      exact ensures_result hreal _
  | logic f =>
      have hreal : t.isReal = false := htype
      simp only [binary, logic, outcome_bind, outcome_monadLift]
      exact hl.bind fun v _ => hr.bind fun w _ => ensures_result hreal _

theorem ensures_ternary {op : TernaryOp} {first second third : ExprId} (h₁ : (eval first).Safe)
    (h₂ : (eval second).Safe) (h₃ : (eval third).Safe) :
    Ensures (·.HasType t) (ternary eval t op first second third).outcome := by
  cases op with
  | conditional =>
      simp only [ternary, outcome_bind]
      refine h₁.bind fun condition _ => ?_
      cases condition.isTrue with
      | true => exact ensures_operandAs h₂ t
      | false => exact ensures_operandAs h₃ t
  | minTypMax => exact ensures_operandAs h₂ t

/-- A well-typed expression is evaluated to a value of its type if its operands can be evaluated. -/
theorem ensures_node (hlt : ∀ operand ∈ n.expr.operands, operand < a.size)
    (hadmissible : n.expr.Admissible a.typeAt)
    (htype : n.type.isReal = (n.expr.selfType a.typeAt).isReal)
    (hsafe : ∀ operand ∈ n.expr.operands, (eval operand).Safe) :
    Ensures (·.HasType n.type) (node a eval n).outcome := by
  obtain ⟨e, t, required⟩ := n
  cases e with
  | literal value => exact ensures_convertTo value t
  | reference d => exact ensures_referenceValue d t
  | bitSelect d index =>
      simp only [node, bitSelect, outcome_bind, outcome_monadLift]
      refine (safe_bitBounds hsafe).bind fun bounds _ => ?_
      exact (ensures_select d bounds).bind fun _ _ => ensures_result htype _
  | partSelect d bounds =>
      simp only [node, partSelect, outcome_bind, outcome_monadLift]
      refine (safe_partBounds hadmissible.2 d.bitRange hsafe).bind fun bounds _ => ?_
      exact (ensures_select d bounds).bind fun _ _ => ensures_result htype _
  | element d indices =>
      obtain ⟨⟨dimensions, hdimensions, -⟩, -⟩ := hadmissible
      simp only [node, element, outcome_bind, outcome_monadLift]
      refine (safe_mapM fun index hmem => ?_).bind fun indices _ => ?_
      · exact safe_elementIndex d (hsafe index hmem)
      · exact ensures_elementValue hdimensions t indices
  | unary op x =>
      refine ensures_unary (fun hsink => ?_) (hsafe x (by simp [Expr.operands]))
      simpa [Expr.selfType, hsink] using htype
  | binary op x y =>
      have hx : x ∈ (Expr.binary op x y).operands := by simp [Expr.operands]
      have hy : y ∈ (Expr.binary op x y).operands := by simp [Expr.operands]
      exact ensures_binary (hlt x hx) (hlt y hy) hadmissible htype (hsafe x hx) (hsafe y hy)
  | ternary op x y z =>
      exact ensures_ternary (hsafe x (by simp [Expr.operands]))
        (hsafe y (by simp [Expr.operands])) (hsafe z (by simp [Expr.operands]))
  | concat operands =>
      simp only [node, outcome_bind, outcome_monadLift]
      exact (safe_concatBits hsafe).bind fun bits _ => ensures_result htype _
  | replicate count operands =>
      have hcount : count ≠ 0 := hadmissible.1
      simp only [node, replicateBits, hcount, if_false, outcome_bind, outcome_monadLift,
        outcome_pure]
      refine Concludes.bind (P := fun _ => True) ?_ fun bits _ => ensures_result htype _
      exact (safe_concatBits hsafe).bind fun _ _ => trivial

end Evaluation

namespace Arena

variable {a : Arena} {id : ExprId}

/-- In a sound arena evaluation is no violation, and yields a value of the type of the
expression. -/
theorem Sound.ensures_eval (h : a.Sound) (hid : id < a.size) :
    Ensures (·.HasType (a.typeAt id)) (a.eval id).outcome := by
  induction id using Nat.strongRecOn with
  | ind id ih =>
      obtain ⟨n, hn⟩ := exists_node hid
      obtain ⟨hadmissible, hsimilar⟩ := h.typed id n hn
      rw [h.ordered.outcome_eval hn, typeAt_of_node hn]
      refine Evaluation.ensures_node (fun operand hmem => h.ordered.lt_size hn hmem) hadmissible
        hsimilar.real fun operand hmem => ?_
      exact (ih operand (h.ordered id n hn operand hmem) (h.ordered.lt_size hn hmem)).mono
        fun _ _ => trivial

/-- **Soundness of evaluation.** In a reachable arena no evaluation is a violation.  A value that
is found has the type of its expression: it is real exactly if that type is, and otherwise it lies
in the range of the width and the sign. -/
theorem Reachable.eval_sound (h : a.Reachable) (hid : id < a.size) :
    (∀ v, (a.eval id).outcome ≠ .error (.violation v)) ∧
      ∀ v, (a.eval id).outcome = .ok v → a.type id = .ok v.type ∧ v.type.Holds v.number := by
  have hensures := h.sound.ensures_eval hid
  refine ⟨hensures.ne_violation, fun v hv => ?_⟩
  obtain ⟨htype, hholds⟩ := hensures.of_eq_ok hv
  rw [htype, type_eq_ok_iff]
  exact ⟨⟨hid, rfl⟩, hholds⟩

theorem eval_sound_carry :
    carry.Reachable ∧ 2 < carry.size ∧
      carry.type 2 = .ok (.sizedVector .unsigned 8) ∧
      (DataType.sizedVector .unsigned 8).Holds (.integer 16) := by
  have hvalue : (carry.eval 2).outcome = .ok ⟨.sizedVector .unsigned 8, .integer 16⟩ := by
    decide +kernel
  have hlt : 2 < carry.size := by decide
  exact ⟨reachable_carry, hlt, (reachable_carry.eval_sound hlt).2 _ hvalue⟩

end Arena

end VerilogExpr
