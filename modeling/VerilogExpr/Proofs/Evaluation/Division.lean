import VerilogExpr.Elaborator
import VerilogExpr.Proofs.Elaboration.Outcomes
import VerilogExpr.Proofs.Evaluation.Lossless
import VerilogExpr.Proofs.Evaluation.Selects

/-!
# Division and remainders

A quotient is cut toward zero and a remainder has the sign of the dividend, so the two give the
dividend back.  Both are found on the integers of the operands at the common type and then cut to
it.  The remainder always fits there.  The quotient fits but for the most negative integer divided
by minus one, where it wraps around to itself.
-/

namespace VerilogExpr

def Overflows (signed : Bool) (width : Nat) (x y : Int) : Prop :=
  signed = true ∧ x = -2 ^ (width - 1) ∧ y = -1

structure DivisionLaw (signed : Bool) (width : Nat) (x y q r : Int) : Prop where
  modEq : q * y + r ≡ x [ZMOD 2 ^ width]
  natAbs_lt : r.natAbs < y.natAbs
  sign_eq : r = 0 ∨ r.sign = x.sign
  eq_iff : q * y + r = x ↔ ¬ Overflows signed width x y
  wraps : Overflows signed width x y → q = -2 ^ (width - 1) ∧ r = 0

namespace Bits

variable {x y : Int} {width : Nat} {signed : Bool}

theorem Fits.width_ne_zero (h : Fits y width signed) (hy : y ≠ 0) : width ≠ 0 := by
  intro hwidth
  simp only [Fits, hwidth, if_true] at h
  exact hy h

theorem Fits.tmod (h : Fits x width signed) (y : Int) : Fits (x.tmod y) width signed := by
  have habs : (x.tmod y).natAbs ≤ x.natAbs := by
    rw [Int.natAbs_tmod]
    exact Nat.mod_le _ _
  rcases Int.le_total 0 x with hnonneg | hnonpos
  · have hmod := Int.tmod_nonneg y hnonneg
    exact h.of_between (by omega) (by omega)
  · have hmod : 0 ≤ (-x).tmod y := Int.tmod_nonneg y (by omega)
    rw [Int.neg_tmod] at hmod
    exact h.of_between (by omega) (by omega)

/-- A quotient is no larger than the dividend, so it leaves the range only by a change of sign. -/
theorem Fits.tdiv (hx : Fits x width signed) (hy : Fits y width signed) (hzero : y ≠ 0)
    (h : ¬ Overflows signed width x y) : Fits (x.tdiv y) width signed := by
  have habs := Int.natAbs_tdiv_le_natAbs x y
  rcases Int.lt_or_le 0 y with hpos | hneg
  · rcases Int.le_total 0 x with hnonneg | hnonpos
    · have hquotient := Int.tdiv_nonneg hnonneg hpos.le
      exact hx.of_between (by omega) (by omega)
    · have hquotient : 0 ≤ (-x).tdiv y := Int.tdiv_nonneg (by omega) hpos.le
      rw [Int.neg_tdiv] at hquotient
      exact hx.of_between (by omega) (by omega)
  · have hwidth := hy.width_ne_zero hzero
    have hhalf : (0 : Int) < 2 ^ (width - 1) := by positivity
    cases signed with
    | false =>
        simp only [Fits, hwidth, if_false, Bool.false_eq_true] at hy
        omega
    | true =>
        simp only [Fits, hwidth, if_false, if_true] at hx ⊢
        by_cases hminus : y = -1
        · have hnot : x ≠ -2 ^ (width - 1) := fun heq => h ⟨rfl, heq, hminus⟩
          rw [hminus, Int.tdiv_neg, Int.tdiv_one]
          omega
        · have hsmall : (x.tdiv y).natAbs ≤ x.natAbs / 2 := by
            rw [Int.natAbs_tdiv]
            exact Nat.div_le_div_left (by omega) Nat.two_pos
          omega

theorem truncate_tdiv_of_overflows (hwidth : width ≠ 0) (h : Overflows signed width x y) :
    truncate (x.tdiv y) width signed = -2 ^ (width - 1) := by
  obtain ⟨rfl, rfl, rfl⟩ := h
  have hhalf : (0 : Int) < 2 ^ (width - 1) := by positivity
  have htwice : (2 : Int) ^ width = 2 * 2 ^ (width - 1) := by
    rw [← pow_succ', Nat.sub_add_cancel (Nat.pos_of_ne_zero hwidth)]
  have hfits : Fits (-2 ^ (width - 1)) width true := by
    simp only [Fits, hwidth, if_false, if_true]
    omega
  have hmod : (2 : Int) ^ (width - 1) ≡ -2 ^ (width - 1) [ZMOD 2 ^ width] := by
    refine (Int.modEq_iff_dvd.mpr ⟨1, ?_⟩).symm
    rw [htwice]
    omega
  rw [Int.tdiv_neg, Int.tdiv_one, neg_neg, truncate_eq_of_modEq hmod, truncate_of_fits hfits]

/-- Division cut to the width satisfies the division law. -/
theorem divisionLaw (hx : Fits x width signed) (hy : Fits y width signed) (hzero : y ≠ 0) :
    DivisionLaw signed width x y (truncate (x.tdiv y) width signed)
      (truncate (x.tmod y) width signed) := by
  have hdivision : x.tdiv y * y + x.tmod y = x := by
    rw [Int.mul_comm]
    exact Int.mul_tdiv_add_tmod x y
  have hwraps : Overflows signed width x y →
      truncate (x.tdiv y) width signed = -2 ^ (width - 1) :=
    truncate_tdiv_of_overflows (hy.width_ne_zero hzero)
  rw [truncate_of_fits (hx.tmod y)]
  refine ⟨?_, ?_, ?_, ?_, fun h => ⟨hwraps h, ?_⟩⟩
  · calc truncate (x.tdiv y) width signed * y + x.tmod y
        ≡ x.tdiv y * y + x.tmod y [ZMOD 2 ^ width] :=
          ((truncate_modEq _ width signed).mul_right y).add_right _
      _ = x := hdivision
  · rw [Int.natAbs_tmod]
    exact Nat.mod_lt _ (Int.natAbs_pos.mpr hzero)
  · have hsign := Int.sign_tmod x y
    split at hsign
    · exact .inl (Int.sign_eq_zero_iff_zero.mp hsign)
    · exact .inr hsign
  · constructor
    · rintro heq ⟨rfl, rfl, rfl⟩
      have hhalf : (0 : Int) < 2 ^ (width - 1) := by positivity
      rw [hwraps ⟨rfl, rfl, rfl⟩, Int.tmod_neg, Int.tmod_one] at heq
      omega
    · intro h
      rw [truncate_of_fits (hx.tdiv hy hzero h), hdivision]
  · obtain ⟨-, -, rfl⟩ := h
    rw [Int.tmod_neg, Int.tmod_one]

theorem reread_eq_zero_iff {own : Bool} (h : Fits x width own) :
    reread x width signed = 0 ↔ x = 0 := by
  constructor
  · intro hzero
    have hmod := reread_modEq x width signed
    rw [hzero] at hmod
    exact eq_of_fits_of_modEq h (fits_zero width own) hmod.symm
  · rintro rfl
    simp [reread]

end Bits

namespace Arena

variable {a : Arena} {id operand : ExprId} {n : Node} {op : ArithOp} {t : DataType} {u v : Value}
  {x y : Int}

def Operates (a : Arena) (id : ExprId) (op : ArithOp) (t : DataType) (u v : Value) : Prop :=
  ∃ n left right, a.nodes[id]? = some n ∧ n.type = t ∧ n.expr = .binary (.arith op) left right ∧
    (a.eval left).outcome = .ok u ∧ (a.eval right).outcome = .ok v

/-- The expression has no value because of a division by zero, and evaluating it reports just
that. -/
structure DividesByZero (a : Arena) (id : ExprId) (op : ArithOp) : Prop where
  outcome_eq : (a.eval id).outcome = .error (.failure (.divisionByZero (.arith op)))
  diagnostics_eq : ∀ options, ((Elaborator.mk options a).evaluate id).diagnostics =
    [⟨.error, (BinaryOp.arith op).description ++ " by zero", []⟩]

theorem dividesByZero_of_outcome
    (h : (a.eval id).outcome = .error (.failure (.divisionByZero (.arith op)))) :
    a.DividesByZero id op := by
  refine ⟨h, fun options => ?_⟩
  unfold Elaborator.evaluate Elaboration.ofEvaluation
  simp only [Elaboration.diagnostics_bind, Elaboration.outcome_bind, h]
  rfl

theorem Sound.hasType_covered (h : a.Sound) (hn : a.nodes[id]? = some n)
    (hmem : operand ∈ n.expr.covered) (hv : (a.eval operand).outcome = .ok v) :
    v.HasType (a.typeAt operand) := by
  have hoperand := Expr.mem_operands_of_forwarded (Expr.mem_forwarded_of_covered hmem)
  exact (h.ensures_eval (h.ordered.lt_size hn hoperand)).of_eq_ok hv

/-- An operand of an integral operation has an integer at the type of the operation. -/
theorem Sound.exists_convertTo (h : a.Sound) (hn : a.nodes[id]? = some n)
    (hreal : n.type.isReal = false) (hmem : operand ∈ n.expr.covered)
    (hv : (a.eval operand).outcome = .ok v) :
    ∃ x, v.convertTo n.type = .ok ⟨n.type, .integer x⟩ := by
  have hintegral := h.typed.isReal_covered hn hreal hmem
  obtain ⟨z, rfl, -⟩ := (h.hasType_covered hn hmem hv).exists_integer hintegral
  exact ⟨_, Value.convertTo_of_integer hreal rfl⟩

/-- A final operation reads an operand as zero only if it is zero. -/
theorem Sound.eq_zero_iff_of_covered (h : a.Sound) (hn : a.nodes[id]? = some n)
    (hrequired : n.required ≠ none) (hreal : n.type.isReal = false)
    (hmem : operand ∈ n.expr.covered) (hv : (a.eval operand).outcome = .ok v)
    (hx : v.convertTo n.type = .ok ⟨n.type, .integer x⟩) : x = 0 ↔ v.number = .integer 0 := by
  have htype := h.hasType_covered hn hmem hv
  obtain ⟨z, rfl, hread⟩ := (h.extendsTo_of_covered hn hrequired hreal hmem).converted v hv
  rw [Evaluation.operandAs, Evaluation.outcome_bind, hv] at hread
  obtain rfl := Number.integer.inj (congrArg Value.number (Except.ok.inj (hx.symm.trans hread)))
  have hfits : Bits.Fits z (a.typeAt operand).width (a.typeAt operand).isSigned := htype.2.2
  rw [Bits.reread_eq_zero_iff hfits, Number.integer.injEq]

/-- An integral operation works on the integers of its operands at its type. -/
theorem Sound.outcome_operates (h : a.Sound) (hoperates : a.Operates id op t u v)
    (hreal : t.isReal = false) (hx : u.convertTo t = .ok ⟨t, .integer x⟩)
    (hy : v.convertTo t = .ok ⟨t, .integer y⟩) : (a.eval id).outcome = op.onIntegers t x y := by
  obtain ⟨n, left, right, hn, rfl, hexpr, hu, hv⟩ := hoperates
  rw [h.ordered.outcome_eval hn]
  simp only [Evaluation.node, hexpr, Evaluation.binary, Evaluation.arith, Evaluation.operandAs,
    Evaluation.outcome_bind, Evaluation.outcome_monadLift, hu, hv, hreal, Bool.false_eq_true,
    if_false]
  simp only [bind, Except.bind, hx, hy, Value.demandInt, Value.toInt?]

/-! ### Quotients and remainders -/

/-- The expression has no value if the divisor is zero, and else the exact result, cut to its
type. -/
structure DividesAs (a : Arena) (id : ExprId) (op : ArithOp) (t : DataType) (y exact : Int) :
    Prop where
  fails_iff : (∃ fault, (a.eval id).outcome = .error fault) ↔ y = 0
  of_zero : y = 0 → a.DividesByZero id op
  of_ne_zero : y ≠ 0 →
    (a.eval id).outcome = .ok ⟨t, .integer (Bits.truncate exact t.width t.isSigned)⟩

theorem dividesAs_of_outcome {exact : Int} (hreal : t.isReal = false)
    (hop : op.apply? x y = if y = 0 then none else some exact)
    (h : (a.eval id).outcome = op.onIntegers t x y) : a.DividesAs id op t y exact := by
  rw [ArithOp.onIntegers, hop] at h
  by_cases hzero : y = 0
  · simp only [hzero, if_true] at h
    exact ⟨iff_of_true ⟨_, h⟩ hzero, fun _ => dividesByZero_of_outcome h,
      fun hne => absurd hzero hne⟩
  · simp only [hzero, if_false, Value.result_eq_ok hreal] at h
    refine ⟨iff_of_false ?_ hzero, fun heq => absurd heq hzero, fun _ => h⟩
    rintro ⟨fault, hfault⟩
    exact absurd (h.symm.trans hfault) (by simp)

/-- **The division law.** Take a quotient or a remainder of an integral type in a reachable arena,
and let its operands have values.  These have integers `x` and `y` at that type.  Evaluation fails
exactly if `y` is zero, and then reports one error that says so.  If the expression is final, `y` is
zero only if the divisor is.  Otherwise a quotient and a remainder of the same type, whose operands
have the same values, satisfy the division law: together they give `x` back, but for the one
division that overflows. -/
theorem Reachable.division_law (h : a.Reachable) (hoperates : a.Operates id op t u v)
    (hop : op = .div ∨ op = .mod) (hreal : t.isReal = false) :
    ∃ x y : Int, u.convertTo t = .ok ⟨t, .integer x⟩ ∧ v.convertTo t = .ok ⟨t, .integer y⟩ ∧
      ((∃ fault, (a.eval id).outcome = .error fault) ↔ y = 0) ∧
      (y = 0 → a.DividesByZero id op) ∧
      (a.Finalized id → (y = 0 ↔ v.number = .integer 0)) ∧
      ∀ (c : Arena) other, c.Reachable → op = .div → c.Operates other .mod t u v → y ≠ 0 →
        ∃ q r : Int, (a.eval id).outcome = .ok ⟨t, .integer q⟩ ∧
          (c.eval other).outcome = .ok ⟨t, .integer r⟩ ∧
          DivisionLaw t.isSigned t.width x y q r := by
  have hnode := hoperates
  obtain ⟨n, left, right, hn, rfl, hexpr, hu, hv⟩ := hnode
  have hleft : left ∈ n.expr.covered := by simp [hexpr, Expr.covered, Expr.forwarded]
  have hright : right ∈ n.expr.covered := by simp [hexpr, Expr.covered, Expr.forwarded]
  obtain ⟨x, hx⟩ := h.sound.exists_convertTo hn hreal hleft hu
  obtain ⟨y, hy⟩ := h.sound.exists_convertTo hn hreal hright hv
  have hfitsx : Bits.Fits x n.type.width n.type.isSigned :=
    ((ensures_convertTo u n.type).of_eq_ok hx).2.2
  have hfitsy : Bits.Fits y n.type.width n.type.isSigned :=
    ((ensures_convertTo v n.type).of_eq_ok hy).2.2
  have houtcome := h.sound.outcome_operates hoperates hreal hx hy
  obtain ⟨exact, hdivides, hquotient⟩ : ∃ exact, a.DividesAs id op n.type y exact ∧
      (op = .div → exact = x.tdiv y) := by
    rcases hop with rfl | rfl
    · exact ⟨x.tdiv y, dividesAs_of_outcome hreal rfl houtcome, fun _ => rfl⟩
    · exact ⟨x.tmod y, dividesAs_of_outcome hreal rfl houtcome, fun hdiv => by cases hdiv⟩
  refine ⟨x, y, hx, hy, hdivides.fails_iff, hdivides.of_zero, ?_, ?_⟩
  · rintro ⟨m, hm, hfinal⟩
    obtain rfl := Option.some.inj (hn.symm.trans hm)
    exact h.sound.eq_zero_iff_of_covered hn (Node.state_eq_finalized_iff.mp hfinal) hreal hright
      hv hy
  · intro c other hc hdiv hmod hzero
    obtain rfl := hquotient hdiv
    have hremainder : c.DividesAs other .mod n.type y (x.tmod y) :=
      dividesAs_of_outcome hreal rfl (hc.sound.outcome_operates hmod hreal hx hy)
    exact ⟨_, _, hdivides.of_ne_zero hzero, hremainder.of_ne_zero hzero,
      Bits.divisionLaw hfitsx hfitsy hzero⟩

/-- The arena of `4'sd-8 / 4'sd-1`, `4'sd-8 % 4'sd-1` and `4'sd-8 / 4'sd0`. -/
def quotients : Arena where
  nodes :=
    let four := DataType.sizedVector .signed 4
    let literal (n : Int) : Node := ⟨.literal ⟨four, .integer n⟩, four, none⟩
    #[literal (-8), literal (-1), ⟨.binary (.arith .div) 0 1, four, none⟩,
      literal (-8), literal (-1), ⟨.binary (.arith .mod) 3 4, four, none⟩,
      literal (-8), literal 0, ⟨.binary (.arith .div) 6 7, four, none⟩]

theorem reachable_quotients : quotients.Reachable := by
  refine ⟨quotients.nodes.toList.map fun n => .add n.expr, ?_⟩
  decide +kernel

/-- The quotient is 8, which four bits with a sign read as -8 again. -/
theorem division_law_quotients :
    (∃ q r : Int, (quotients.eval 2).outcome = .ok ⟨.sizedVector .signed 4, .integer q⟩ ∧
      (quotients.eval 5).outcome = .ok ⟨.sizedVector .signed 4, .integer r⟩ ∧
      DivisionLaw true 4 (-8) (-1) q r) ∧
    quotients.DividesByZero 8 .div := by
  let four := DataType.sizedVector .signed 4
  have hreachable := reachable_quotients
  have hvalues : ∀ place ∈ [(0, -8), (1, -1), (3, -8), (4, -1), (6, -8), (7, 0)],
      (quotients.eval place.1).outcome = .ok ⟨four, .integer place.2⟩ := by decide +kernel
  have hconverted : ∀ n ∈ [-8, -1, 0],
      Value.convertTo ⟨four, .integer n⟩ four = .ok ⟨four, .integer n⟩ := by decide +kernel
  have hread : ∀ {n z : Int}, n ∈ [-8, -1, 0] →
      Value.convertTo ⟨four, .integer n⟩ four = .ok ⟨four, .integer z⟩ → n = z := by
    intro n z hmem hz
    exact Number.integer.inj (congrArg Value.number (Except.ok.inj
      ((hconverted n hmem).symm.trans hz)))
  have hquotient : quotients.Operates 2 .div four ⟨four, .integer (-8)⟩ ⟨four, .integer (-1)⟩ :=
    ⟨_, 0, 1, rfl, rfl, rfl, hvalues (0, -8) (by simp), hvalues (1, -1) (by simp)⟩
  have hremainder : quotients.Operates 5 .mod four ⟨four, .integer (-8)⟩ ⟨four, .integer (-1)⟩ :=
    ⟨_, 3, 4, rfl, rfl, rfl, hvalues (3, -8) (by simp), hvalues (4, -1) (by simp)⟩
  have hzero : quotients.Operates 8 .div four ⟨four, .integer (-8)⟩ ⟨four, .integer 0⟩ :=
    ⟨_, 6, 7, rfl, rfl, rfl, hvalues (6, -8) (by simp), hvalues (7, 0) (by simp)⟩
  constructor
  · obtain ⟨x, y, hx, hy, -, -, -, hlaw⟩ := hreachable.division_law hquotient (.inl rfl) rfl
    obtain rfl := hread (by simp) hx
    obtain rfl := hread (by simp) hy
    exact hlaw quotients 5 hreachable rfl hremainder (by decide)
  · obtain ⟨x, y, -, hy, -, hfails, -⟩ := hreachable.division_law hzero (.inl rfl) rfl
    obtain rfl := hread (by simp) hy
    exact hfails rfl

end Arena

end VerilogExpr
