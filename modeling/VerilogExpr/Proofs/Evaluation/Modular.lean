import VerilogExpr.Proofs.Evaluation.Unbounded

/-!
# Truncation does no harm

The value of a modular expression is its reference value, cut to the width of its type.  An operator
needs only the low bits of its operands for that, and every operand in its context has its width.
-/

namespace VerilogExpr

variable {a b c : Arena} {id root : ExprId} {n m : Node} {t : DataType} {v w : Value}
  {inner? : ExprId → Option Int}

theorem Value.truncated_eq_of_modEq {x y : Int} (h : x ≡ y [ZMOD 2 ^ t.width]) :
    truncated t x = truncated t y := by
  unfold truncated
  rw [Bits.truncate_eq_of_modEq h]

theorem Value.eq_of_result {x : Int} (h : result t x = .ok v) : v = truncated t x := by
  unfold result ofInt at h
  split at h
  · cases h
  · cases h
    rfl

theorem Value.eq_of_demandInt {x y : Int} (h : (truncated t x).demandInt = .ok y) :
    y ≡ x [ZMOD 2 ^ t.width] := by
  cases h
  exact Bits.truncate_modEq x t.width t.isSigned

namespace Evaluation

def Represents (t : DataType) (reference : Option Int) (x : Evaluation Value) : Prop :=
  ∀ v, x.outcome = .ok v → ∃ r, reference = some r ∧ v.converted? t = some (.truncated t r)

theorem eq_of_operandAs (h : Represents t (inner? id) (a.eval id))
    (hw : (operandAs a.eval id t).outcome = .ok w) :
    ∃ r, inner? id = some r ∧ w = .truncated t r := by
  simp only [operandAs, outcome_bind, outcome_monadLift, bind_eq_ok_iff] at hw
  obtain ⟨v, hv, hconvert⟩ := hw
  obtain ⟨r, hr, hconverted⟩ := h v hv
  unfold Value.convertTo at hconvert
  rw [hconverted] at hconvert
  cases hconvert
  exact ⟨r, hr, rfl⟩

theorem modEq_of_operandInt {x : Int} (h : Represents t (inner? id) (a.eval id))
    (hx : (operandInt a.eval id t).outcome = .ok x) :
    ∃ r, inner? id = some r ∧ x ≡ r [ZMOD 2 ^ t.width] := by
  simp only [operandInt, outcome_bind, outcome_monadLift, bind_eq_ok_iff] at hx
  obtain ⟨w, hw, hdemand⟩ := hx
  obtain ⟨r, hr, rfl⟩ := eq_of_operandAs h hw
  exact ⟨r, hr, Value.eq_of_demandInt hdemand⟩

theorem eq_of_operandBits {bits : Nat} (h : (operandBits a.eval id).outcome = .ok bits) :
    ∃ v, a.value? id = some v ∧ v.bits? = some bits := by
  simp only [operandBits, outcome_bind, outcome_monadLift, bind_eq_ok_iff] at h
  obtain ⟨v, hv, hbits⟩ := h
  refine ⟨v, Arena.value?_eq_some_iff.mpr hv, ?_⟩
  unfold Value.demandBits Value.demandInt at hbits
  unfold Value.bits?
  cases hint : v.toInt? with
  | none =>
      rw [hint] at hbits
      cases hbits
  | some x =>
      rw [hint] at hbits
      cases hbits
      rfl

/-! ### Operators -/

theorem unary_eq_truncated {op : UnaryOp} (hop : op.isSink = false)
    (h : Represents t (inner? id) (a.eval id))
    (hv : (unary a.eval t op id).outcome = .ok v) :
    ∃ r, (Expr.unary op id).unbounded? a.value? inner? = some r ∧ v = .truncated t r := by
  simp only [unary, hop, Bool.false_eq_true, if_false, outcome_bind, outcome_monadLift,
    bind_eq_ok_iff] at hv
  obtain ⟨w, hw, hresult⟩ := hv
  obtain ⟨r, hr, rfl⟩ := eq_of_operandAs h hw
  have hmod := Bits.truncate_modEq r t.width t.isSigned
  cases op with
  | plus =>
      cases hresult
      exact ⟨r, hr, rfl⟩
  | minus =>
      refine ⟨-r, by simp [Expr.unbounded?, hr], ?_⟩
      rw [Value.eq_of_result hresult]
      exact Value.truncated_eq_of_modEq hmod.neg
  | bitNot =>
      refine ⟨Int.lnot r, by simp [Expr.unbounded?, hr], ?_⟩
      rw [Value.eq_of_result hresult, lnot_eq]
      exact Value.truncated_eq_of_modEq (hmod.neg.sub_right 1)
  | logicNot => simp [UnaryOp.isSink] at hop
  | reduce reduction => simp [UnaryOp.isSink] at hop

theorem bitwise_eq_truncated {op : BitwiseOp} {x y : ExprId} (hreal : t.isReal = false)
    (hx : Represents t (inner? x) (a.eval x)) (hy : Represents t (inner? y) (a.eval y))
    (hv : (bitwise a.eval t op x y).outcome = .ok v) :
    ∃ r, (Expr.binary (.bitwise op) x y).unbounded? a.value? inner? = some r ∧
      v = .truncated t r := by
  simp only [bitwise, hreal, Bool.false_eq_true, if_false, outcome_bind, outcome_monadLift,
    bind_eq_ok_iff] at hv
  obtain ⟨left, hleft, right, hright, i, hi, j, hj, hresult⟩ := hv
  obtain ⟨r, hr, rfl⟩ := eq_of_operandAs hx hleft
  obtain ⟨s, hs, rfl⟩ := eq_of_operandAs hy hright
  refine ⟨op.onIntegers r s, by simp [Expr.unbounded?, hr, hs], ?_⟩
  rw [Value.eq_of_result hresult]
  exact Value.truncated_eq_of_modEq
    (BitwiseOp.apply_modEq (Value.eq_of_demandInt hi) (Value.eq_of_demandInt hj))

theorem arith_eq_truncated {op : ArithOp} {x y : ExprId} (hreal : t.isReal = false)
    (hop : (Expr.binary (.arith op) x y).isModular = true)
    (hx : Represents t (inner? x) (a.eval x)) (hy : Represents t (inner? y) (a.eval y))
    (hv : (arith a.eval t op x y).outcome = .ok v) :
    ∃ r, (Expr.binary (.arith op) x y).unbounded? a.value? inner? = some r ∧
      v = .truncated t r := by
  simp only [arith, hreal, Bool.false_eq_true, if_false, outcome_bind, outcome_monadLift,
    bind_eq_ok_iff] at hv
  obtain ⟨left, hleft, right, hright, i, hi, j, hj, hresult⟩ := hv
  obtain ⟨r, hr, rfl⟩ := eq_of_operandAs hx hleft
  obtain ⟨s, hs, rfl⟩ := eq_of_operandAs hy hright
  have hi := Value.eq_of_demandInt hi
  have hj := Value.eq_of_demandInt hj
  cases op with
  | add =>
      refine ⟨r + s, by simp [Expr.unbounded?, hr, hs], ?_⟩
      rw [Value.eq_of_result hresult]
      exact Value.truncated_eq_of_modEq (hi.add hj)
  | sub =>
      refine ⟨r - s, by simp [Expr.unbounded?, hr, hs], ?_⟩
      rw [Value.eq_of_result hresult]
      exact Value.truncated_eq_of_modEq (hi.sub hj)
  | mul =>
      refine ⟨r * s, by simp [Expr.unbounded?, hr, hs], ?_⟩
      rw [Value.eq_of_result hresult]
      exact Value.truncated_eq_of_modEq (hi.mul hj)
  | div => simp [Expr.isModular] at hop
  | mod => simp [Expr.isModular] at hop

theorem power_eq_truncated {x y : ExprId} (hreal : t.isReal = false)
    (hx : Represents t (inner? x) (a.eval x)) (hv : (power a.eval t x y).outcome = .ok v) :
    ∃ r, (Expr.binary .power x y).unbounded? a.value? inner? = some r ∧ v = .truncated t r := by
  simp only [power, hreal, Bool.false_eq_true, if_false, outcome_bind, outcome_monadLift,
    bind_eq_ok_iff] at hv
  obtain ⟨i, hi, k, hk, hresult⟩ := hv
  obtain ⟨r, hr, hmod⟩ := modEq_of_operandInt hx hi
  obtain ⟨u, hu, hbits⟩ := eq_of_operandBits hk
  refine ⟨r ^ k, by simp [Expr.unbounded?, hr, hu, hbits], ?_⟩
  rw [Value.eq_of_result hresult]
  exact Value.truncated_eq_of_modEq (Bits.powMod_modEq hmod k)

theorem shift_eq_truncated {op : ShiftOp} {x y : ExprId} (hop : op.isLeft = true)
    (hx : Represents t (inner? x) (a.eval x)) (hv : (shift a.eval t op x y).outcome = .ok v) :
    ∃ r, (Expr.binary (.shift op) x y).unbounded? a.value? inner? = some r ∧
      v = .truncated t r := by
  simp only [shift, outcome_bind, outcome_monadLift, bind_eq_ok_iff] at hv
  obtain ⟨i, hi, k, hk, hresult⟩ := hv
  obtain ⟨r, hr, hmod⟩ := modEq_of_operandInt hx hi
  obtain ⟨u, hu, hbits⟩ := eq_of_operandBits hk
  refine ⟨r * 2 ^ k, ?_, ?_⟩
  · cases op with
    | logicalLeft => simp [Expr.unbounded?, hr, hu, hbits]
    | arithLeft => simp [Expr.unbounded?, hr, hu, hbits]
    | logicalRight => simp [ShiftOp.isLeft] at hop
    | arithRight => simp [ShiftOp.isLeft] at hop
  · rw [Value.eq_of_result hresult]
    exact Value.truncated_eq_of_modEq (ShiftOp.apply_modEq hop hmod _ k)

theorem ternary_eq_truncated {op : TernaryOp} {x y z : ExprId}
    (h : ∀ operand ∈ (Expr.ternary op x y z).covered,
      Represents t (inner? operand) (a.eval operand))
    (hv : (ternary a.eval t op x y z).outcome = .ok v) :
    ∃ r, (Expr.ternary op x y z).unbounded? a.value? inner? = some r ∧ v = .truncated t r := by
  cases op with
  | conditional =>
      simp only [ternary, outcome_bind, bind_eq_ok_iff] at hv
      obtain ⟨condition, hcondition, hbranch⟩ := hv
      have hvalue := Arena.value?_eq_some_iff.mpr hcondition
      cases htrue : condition.isTrue with
      | true =>
          rw [htrue] at hbranch
          obtain ⟨r, hr, rfl⟩ := eq_of_operandAs (h y (by simp [Expr.covered, Expr.forwarded]))
            hbranch
          exact ⟨r, by simp [Expr.unbounded?, hvalue, htrue, hr], rfl⟩
      | false =>
          rw [htrue] at hbranch
          obtain ⟨r, hr, rfl⟩ := eq_of_operandAs (h z (by simp [Expr.covered, Expr.forwarded]))
            hbranch
          exact ⟨r, by simp [Expr.unbounded?, hvalue, htrue, hr], rfl⟩
  | minTypMax =>
      obtain ⟨r, hr, rfl⟩ := eq_of_operandAs (h y (by simp [Expr.covered])) hv
      exact ⟨r, by simp [Expr.unbounded?, hr], rfl⟩

/-- Every modular operator needs only the low bits of its operands. -/
theorem node_eq_truncated (hop : n.expr.isModular = true) (hreal : n.type.isReal = false)
    (h : ∀ operand ∈ n.expr.covered, Represents n.type (inner? operand) (a.eval operand))
    (hv : (node a a.eval n).outcome = .ok v) :
    ∃ r, n.expr.unbounded? a.value? inner? = some r ∧ v = .truncated n.type r := by
  obtain ⟨e, t, required⟩ := n
  cases e with
  | unary op x =>
      have hsink : op.isSink = false := by simpa [Expr.isModular] using hop
      have hx : x ∈ (Expr.unary op x).covered := by simp [Expr.covered, Expr.forwarded, hsink]
      exact unary_eq_truncated hsink (h x hx) hv
  | binary op x y =>
      cases op with
      | bitwise f =>
          exact bitwise_eq_truncated hreal (h x (by simp [Expr.covered, Expr.forwarded]))
            (h y (by simp [Expr.covered, Expr.forwarded])) hv
      | arith f =>
          exact arith_eq_truncated hreal hop (h x (by simp [Expr.covered, Expr.forwarded]))
            (h y (by simp [Expr.covered, Expr.forwarded])) hv
      | power =>
          exact power_eq_truncated hreal (h x (by simp [Expr.covered, Expr.forwarded])) hv
      | shift f =>
          exact shift_eq_truncated hop (h x (by simp [Expr.covered, Expr.forwarded])) hv
      | compare f => simp [Expr.isModular] at hop
      | logic f => simp [Expr.isModular] at hop
  | ternary op x y z => exact ternary_eq_truncated h hv
  | _ => simp [Expr.isModular] at hop

end Evaluation

theorem Expr.isForwarding_of_isModular {e : Expr} (h : e.isModular = true) :
    e.isForwarding = true := by
  cases e with
  | unary op x => exact h
  | binary op x y => cases op <;> simp_all [isModular, isForwarding, BinaryOp.isSink]
  | ternary op x y z => rfl
  | _ => simp [isModular] at h

theorem Value.HasType.exists_integer (h : v.HasType t) (ht : t.isReal = false) :
    ∃ x, v = ⟨t, .integer x⟩ ∧ Bits.Fits x t.width t.isSigned := by
  obtain ⟨u, number⟩ := v
  obtain ⟨rfl, hholds⟩ := h
  cases number with
  | integer x => exact ⟨x, rfl, hholds.2⟩
  | real x => exact absurd (hholds.symm.trans ht) (by simp)

namespace Arena

open Evaluation

/-- A final modular expression represents its reference at every type of its width, and a leaf does
so at every type. -/
theorem Sound.represents (h : a.Sound) (hmodular : a.Modular id) (hn : a.nodes[id]? = some n)
    (hrequired : n.required ≠ none) (hreal : n.type.isReal = false) (ht : t.isReal = false)
    (hwidth : n.expr.isForwarding = true → n.type.width = t.width) :
    Represents t (a.unbounded? id t.isSigned) (a.eval id) := by
  induction hmodular generalizing n t with
  | leaf hm hleaf =>
      obtain rfl := Option.some.inj (hn.symm.trans hm)
      intro v hv
      have htype := (h.ensures_eval (lt_size_of_node hn)).of_eq_ok hv
      rw [typeAt_of_node hn] at htype
      obtain ⟨x, rfl, -⟩ := htype.exists_integer hreal
      refine ⟨Bits.truncate x n.type.width t.isSigned, ?_, ?_⟩
      · rw [h.ordered.unbounded?_eq hn, hleaf]
        simp [leaf?, Arena.value?_eq_some_iff.mpr hv, Value.getInt?]
      · simp [Value.converted?, ht]
  | operator hm hop hoperands ih =>
      obtain rfl := Option.some.inj (hn.symm.trans hm)
      have hforward := Expr.isForwarding_of_isModular hop
      intro v hv
      rw [h.ordered.outcome_eval hn] at hv
      have hrepresents : ∀ operand ∈ n.expr.covered,
          Represents n.type (a.unbounded? operand n.type.isSigned) (a.eval operand) := by
        intro operand hmem
        have hmem' := Expr.mem_operands_of_forwarded (Expr.mem_forwarded_of_covered hmem)
        obtain ⟨m, hm⟩ := exists_node (h.ordered.lt_size hn hmem')
        obtain ⟨hfinal, hintegral, hsame⟩ :=
          h.width_eq_of_covered hn hrequired hreal hmem hm
        exact ih operand hmem hm hfinal hintegral hreal hsame
      obtain ⟨r, hr, rfl⟩ := node_eq_truncated hop hreal hrepresents hv
      refine ⟨r, ?_, ?_⟩
      · rw [h.ordered.unbounded?_eq hn, hforward, if_pos rfl]
        exact hr
      · have hmod : Bits.truncate (Bits.truncate r n.type.width n.type.isSigned) n.type.width
            t.isSigned ≡ r [ZMOD 2 ^ t.width] := by
          rw [← hwidth hforward]
          calc
            Bits.truncate (Bits.truncate r n.type.width n.type.isSigned) n.type.width t.isSigned
              ≡ Bits.truncate r n.type.width n.type.isSigned [ZMOD 2 ^ n.type.width] :=
                Bits.truncate_modEq _ _ _
            _ ≡ r [ZMOD 2 ^ n.type.width] := Bits.truncate_modEq _ _ _
        simp only [Value.converted?, ht, Bool.false_eq_true, if_false, Value.truncated]
        exact congrArg some (Value.truncated_eq_of_modEq hmod)

/-- Operands in the context of the expression have its width, and their low bits are all that a
modular operator needs. -/
theorem Sound.eval_eq_truncated (h : a.Sound) (hmodular : a.Modular id)
    (hn : a.nodes[id]? = some n) (hrequired : n.required ≠ none) (hreal : n.type.isReal = false)
    (hv : (a.eval id).outcome = .ok v) :
    ∃ r, a.unbounded? id n.type.isSigned = some r ∧ v = .truncated n.type r := by
  obtain ⟨r, hr, hconverted⟩ := h.represents hmodular hn hrequired hreal hreal (fun _ => rfl) v hv
  refine ⟨r, hr, ?_⟩
  have htype := (h.ensures_eval (lt_size_of_node hn)).of_eq_ok hv
  rw [typeAt_of_node hn] at htype
  obtain ⟨x, rfl, hfits⟩ := htype.exists_integer hreal
  simp only [Value.converted?, hreal, Bool.false_eq_true, if_false,
    Bits.truncate_of_fits hfits, Option.some.injEq] at hconverted
  rw [← hconverted, Value.truncated, Bits.truncate_of_fits hfits]

/-- **Context widths truncate once.** In a reachable arena let `root` be a final integral
expression, and everything in its context modular.  Its value is the reference value on integers of
any size, cut to the width and the sign of its type; it is the reference itself if that fits.  A
wider context only adds high bits: if the same expression got another context instead, and is at
least as wide there, then its value there has the same low bits. -/
theorem Reachable.eval_eq_unbounded (h : a.Reachable) (hn : a.nodes[root]? = some n)
    (hfinal : n.state = .finalized) (hreal : n.type.isReal = false) (hmodular : a.Modular root)
    (hv : (a.eval root).outcome = .ok v) :
    (∃ r, a.unbounded? root n.type.isSigned = some r ∧
      v.number = .integer (Bits.truncate r n.type.width n.type.isSigned) ∧
      (Bits.Fits r n.type.width n.type.isSigned → v.number = .integer r)) ∧
    ∀ (c b : Arena) (actions actions' : List Action) (m : Node) (w : Value), c.Reachable →
      root < c.size → c.run actions = .ok a → c.run actions' = .ok b →
      b.nodes[root]? = some m → m.state = .finalized → (b.eval root).outcome = .ok w →
      n.type.width ≤ m.type.width →
      ∃ y, w.number = .integer y ∧
        v.number = .integer (Bits.truncate y n.type.width n.type.isSigned) := by
  rw [Node.state_eq_finalized_iff] at hfinal
  obtain ⟨r, hr, rfl⟩ := h.sound.eval_eq_truncated hmodular hn hfinal hreal hv
  constructor
  · refine ⟨r, hr, rfl, fun hfits => ?_⟩
    rw [Value.truncated, Bits.truncate_of_fits hfits]
  · intro c b actions actions' m w hc hroot hrun hrun' hm hstate hw hle
    rw [Node.state_eq_finalized_iff] at hstate
    have hevolves := evolves_of_run hrun
    have hevolves' := evolves_of_run hrun'
    have hb := hc.sound.of_run hrun'
    obtain ⟨k, hk, hkn⟩ := hevolves.exists_earlier hroot hn
    obtain ⟨m', hm', hkm⟩ := hevolves' root k hk
    obtain rfl := Option.some.inj (hm.symm.trans hm')
    have hsimilar := hkn.similar.symm.trans hkm.similar
    have hmodular' : b.Modular root :=
      (hevolves'.modular_iff hc.sound.ordered hroot).mpr
        ((hevolves.modular_iff hc.sound.ordered hroot).mp hmodular)
    obtain ⟨s, hs, rfl⟩ := hb.eval_eq_truncated hmodular' hm hstate
      (hsimilar.real.symm.trans hreal) hw
    rw [← hsimilar.signed, hc.sound.unbounded?_eq_of_evolves hb.ordered hevolves' hroot,
      ← hc.sound.unbounded?_eq_of_evolves h.sound.ordered hevolves hroot, hr] at hs
    obtain rfl := Option.some.inj hs
    refine ⟨_, rfl, ?_⟩
    have hlow : Bits.truncate r m.type.width m.type.isSigned ≡ r [ZMOD 2 ^ n.type.width] :=
      (Bits.truncate_modEq r _ _).of_dvd (pow_dvd_pow 2 hle)
    rw [Value.truncated, Bits.truncate_eq_of_modEq hlow]

theorem eval_eq_unbounded_carry :
    carry.Reachable ∧ carry.Modular 2 ∧
      (carry.eval 2).outcome = .ok ⟨.sizedVector .unsigned 8, .integer 16⟩ ∧
      ∃ r, carry.unbounded? 2 false = some r ∧
        Number.integer 16 = .integer (Bits.truncate r 8 false) := by
  have hleaf : ∀ operand ∈ [0, 1], carry.Modular operand := by
    intro operand hmem
    rcases List.mem_pair.mp hmem with rfl | rfl
    · exact .leaf rfl rfl
    · exact .leaf rfl rfl
  have hmodular : carry.Modular 2 := .operator rfl rfl hleaf
  have hvalue : (carry.eval 2).outcome = .ok ⟨.sizedVector .unsigned 8, .integer 16⟩ := by
    decide +kernel
  obtain ⟨⟨r, hr, hnumber, -⟩, -⟩ :=
    reachable_carry.eval_eq_unbounded rfl rfl rfl hmodular hvalue
  exact ⟨reachable_carry, hmodular, hvalue, r, hr, hnumber⟩

end Arena

end VerilogExpr
