import VerilogExpr.Proofs.Evaluation.Required
import VerilogExpr.Proofs.Evaluation.ZeroExtension

/-!
# Conversions that lose nothing

Before an operator works on an operand, the bits of the operand are read with the sign of the
operator and extended to its width.  A target that was narrower would cut bits off, and a signed
target would take a large unsigned operand for a negative one.  Neither happens: the type of an
operator comes from those of its operands, and contexts widen it first.  What is left is that a
negative operand of an unsigned operator is read without its sign.
-/

namespace VerilogExpr

namespace Bits

variable {x : Int} {width target : Nat} {signed : Bool}

/-- An integer of the given width as it is read with or without a sign. -/
def reread (x : Int) (width : Nat) (signed : Bool) : Int :=
  if x < 0 ∧ signed = false then x + 2 ^ width else x

theorem Fits.mono (h : Fits x width signed) (hle : width ≤ target) : Fits x target signed := by
  unfold Fits at h ⊢
  by_cases htarget : target = 0
  · have hwidth : width = 0 := Nat.eq_zero_of_le_zero (htarget ▸ hle)
    simpa [hwidth, htarget] using h
  by_cases hwidth : width = 0
  · obtain rfl : x = 0 := by simpa [hwidth] using h
    cases signed <;> simp [htarget]
  have hhalf : (2 : Int) ^ (width - 1) ≤ 2 ^ (target - 1) :=
    pow_le_pow_right₀ (by norm_num) (by omega)
  have hall : (2 : Int) ^ width ≤ 2 ^ target := pow_le_pow_right₀ (by norm_num) hle
  simp only [hwidth, htarget, if_false] at h ⊢
  cases signed with
  | false =>
      simp only [Bool.false_eq_true, if_false] at h ⊢
      exact ⟨h.1, h.2.trans_le hall⟩
  | true =>
      simp only [if_true] at h ⊢
      exact ⟨(neg_le_neg hhalf).trans h.1, h.2.trans_le hhalf⟩

theorem fits_reread_unsigned (h : Fits x width signed) :
    Fits (reread x width false) width false := by
  unfold Fits at h ⊢
  by_cases hwidth : width = 0
  · simp only [hwidth, if_true] at h ⊢
    simp [reread, h]
  have hhalf : (2 : Int) ^ width = 2 * 2 ^ (width - 1) := by
    rw [← pow_succ', Nat.sub_add_cancel (Nat.pos_of_ne_zero hwidth)]
  have hpos : (0 : Int) < 2 ^ (width - 1) := by positivity
  simp only [hwidth, if_false, Bool.false_eq_true, reread, and_true] at h ⊢
  cases signed with
  | false =>
      simp only [Bool.false_eq_true, if_false] at h
      split <;> omega
  | true =>
      simp only [if_true] at h
      split <;> omega

theorem reread_modEq (x : Int) (width : Nat) (signed : Bool) :
    reread x width signed ≡ x [ZMOD 2 ^ width] := by
  unfold reread
  split
  · exact Int.add_modulus_modEq_iff.mpr rfl
  · rfl

theorem truncate_eq_reread {own : Bool} (h : Fits x width own)
    (hsigned : signed = true → own = true) : truncate x width signed = reread x width signed := by
  cases signed with
  | true =>
      rw [hsigned rfl] at h
      simp [truncate_of_fits h, reread]
  | false =>
      calc truncate x width false = truncate (reread x width false) width false :=
            truncate_eq_of_modEq (reread_modEq x width false).symm false
        _ = reread x width false := truncate_of_fits (fits_reread_unsigned h)

end Bits

namespace DataType

variable {t u : DataType}

theorem isSigned_commonVector (t u : DataType) :
    (commonVector t u).isSigned = (t.isSigned && u.isSigned) := by
  change decide (commonSign t u = .signed) = _
  unfold commonSign
  cases t.isSigned <;> cases u.isSigned <;> rfl

theorem isSigned_of_commonVector (h : (commonVector t u).isSigned = true) :
    t.isSigned = true ∧ u.isSigned = true := by
  rwa [isSigned_commonVector, Bool.and_eq_true] at h

end DataType

/-- An integral expression is signed only if the operands that it covers are. -/
theorem Expr.isSigned_covered {e : Expr} {types : ExprId → DataType} {operand : ExprId}
    (h : (e.selfType types).isReal = false) (hsigned : (e.selfType types).isSigned = true)
    (hmem : operand ∈ e.covered) : (types operand).isSigned = true := by
  cases e with
  | unary op x =>
      cases hsink : op.isSink with
      | true => simp [covered, forwarded, hsink] at hmem
      | false =>
          obtain rfl : operand = x := by simpa [covered, forwarded, hsink] using hmem
          simpa [selfType, hsink] using hsigned
  | binary op x y =>
      cases op with
      | bitwise f =>
          obtain ⟨hx, hy⟩ := DataType.isSigned_of_commonVector hsigned
          simp only [covered, forwarded, List.mem_cons, List.not_mem_nil, or_false] at hmem
          rcases hmem with rfl | rfl
          · exact hx
          · exact hy
      | arith f =>
          have htype : (Expr.binary (.arith f) x y).selfType types =
              .commonVector (types x) (types y) := DataType.mixed_of_integral h
          obtain ⟨hx, hy⟩ := DataType.isSigned_of_commonVector (htype ▸ hsigned)
          simp only [covered, forwarded, List.mem_cons, List.not_mem_nil, or_false] at hmem
          rcases hmem with rfl | rfl
          · exact hx
          · exact hy
      | power =>
          -- an integral power is unsigned
          have hbits := DataType.isReal_power_eq_false_iff.mp h
          simp [selfType, BinaryOp.resultType, DataType.power, hbits, DataType.isSigned,
            DataType.sign, DataType.sizedVector] at hsigned
      | shift f =>
          obtain rfl : operand = x := by simpa [covered, forwarded] using hmem
          exact hsigned
      | compare f => simp [covered, forwarded] at hmem
      | logic f => simp [covered, forwarded] at hmem
  | ternary op x y z =>
      cases op with
      | conditional =>
          have htype : (Expr.ternary .conditional x y z).selfType types =
              .commonVector (types y) (types z) := DataType.mixed_of_integral h
          obtain ⟨hy, hz⟩ := DataType.isSigned_of_commonVector (htype ▸ hsigned)
          simp only [covered, forwarded, List.mem_cons, List.not_mem_nil, or_false] at hmem
          rcases hmem with rfl | rfl
          · exact hy
          · exact hz
      | minTypMax =>
          obtain rfl : operand = y := by simpa [covered] using hmem
          exact hsigned
  | _ => simp [covered, forwarded] at hmem

/-- An integer survives the conversion to a type that is at least as wide, and signed only if its
own type is. -/
theorem Value.convertTo_of_wider {x : Int} {own target : DataType}
    (hfits : Bits.Fits x own.width own.isSigned) (htarget : target.isReal = false)
    (hwidth : own.width ≤ target.width)
    (hsigned : target.isSigned = true → own.isSigned = true) :
    (Value.mk own (.integer x)).convertTo target =
      .ok ⟨target, .integer (Bits.reread x own.width target.isSigned)⟩ := by
  have hread := Bits.truncate_eq_reread hfits hsigned
  have hkept : Bits.Fits (Bits.reread x own.width target.isSigned) target.width
      target.isSigned := by
    rw [← hread]
    exact (Bits.fits_truncate x own.width target.isSigned).mono hwidth
  rw [convertTo_of_integer htarget rfl, hread, truncated, Bits.truncate_of_fits hkept]

namespace Arena

variable {a : Arena} {id operand : ExprId} {n : Node} {own target : DataType}

/-- The conversion of an operand from its own type to a target loses nothing: the target is at least
as wide, signed only if the operand is, and so its integer is that of the operand, read with the
sign of the target. -/
structure ExtendsTo (a : Arena) (operand : ExprId) (own target : DataType) : Prop where
  type_eq : a.type operand = .ok own
  integral : own.isReal = false
  width_le : own.width ≤ target.width
  signed : target.isSigned = true → own.isSigned = true
  converted : ∀ v, (a.eval operand).outcome = .ok v → ∃ x, v = ⟨own, .integer x⟩ ∧
    (Evaluation.operandAs a.eval operand target).outcome =
      .ok ⟨target, .integer (Bits.reread x own.width target.isSigned)⟩

/-- To a type that is as wide, and that has a sign only if the own type has one, conversion is an
extension. -/
theorem Sound.extendsTo (h : a.Sound) (hlt : operand < a.size)
    (hintegral : (a.typeAt operand).isReal = false) (htarget : target.isReal = false)
    (hwidth : (a.typeAt operand).width ≤ target.width)
    (hsigned : target.isSigned = true → (a.typeAt operand).isSigned = true) :
    a.ExtendsTo operand (a.typeAt operand) target where
  type_eq := type_eq_ok_iff.mpr ⟨hlt, rfl⟩
  integral := hintegral
  width_le := hwidth
  signed := hsigned
  converted := by
    intro v hv
    obtain ⟨x, rfl, hfits⟩ := ((h.ensures_eval hlt).of_eq_ok hv).exists_integer hintegral
    refine ⟨x, rfl, ?_⟩
    rw [Evaluation.operandAs, Evaluation.outcome_bind, hv]
    exact Value.convertTo_of_wider hfits htarget hwidth hsigned

theorem Sound.extendsTo_of_covered (h : a.Sound) (hn : a.nodes[id]? = some n)
    (hrequired : n.required ≠ none) (hreal : n.type.isReal = false)
    (hmem : operand ∈ n.expr.covered) :
    a.ExtendsTo operand (a.typeAt operand) n.type := by
  have hlt := h.ordered.lt_size hn
    (Expr.mem_operands_of_forwarded (Expr.mem_forwarded_of_covered hmem))
  obtain ⟨m, hm⟩ := exists_node hlt
  obtain ⟨-, hsimilar⟩ := h.typed id n hn
  refine h.extendsTo hlt (h.typed.isReal_covered hn hreal hmem) hreal ?width ?signed
  case width =>
    rw [typeAt_of_node hm]
    exact (h.covering id n hn hreal operand hmem m hm).width_le (Or.inl hrequired)
  case signed =>
    intro hsigned
    exact Expr.isSigned_covered (hsimilar.real.symm.trans hreal)
      (hsimilar.signed.symm.trans hsigned) hmem

/-- **Conversions lose nothing.** In a reachable arena, let an expression be final and integral.
Each operand that is converted to its type, which the outer delays of a triple are not, keeps its
integer, except that an unsigned expression reads a negative operand without its sign.  The same
holds of the operands of a comparison, whether it has a context or not, and the common type of the
types that they have now. -/
theorem Reachable.extendsTo_of_conversion (h : a.Reachable) (hn : a.nodes[id]? = some n) :
    (n.state = .finalized → n.type.isReal = false →
      ∀ operand ∈ n.expr.covered, ∃ own, a.ExtendsTo operand own n.type) ∧
    ∀ op left right, n.expr = .binary (.compare op) left right →
      ∃ leftType rightType common, leftType.common rightType = .ok common ∧
        a.ExtendsTo left leftType common ∧ a.ExtendsTo right rightType common := by
  have hsound := h.sound
  constructor
  · intro hfinal hreal operand hmem
    exact ⟨_, hsound.extendsTo_of_covered hn (Node.state_eq_finalized_iff.mp hfinal) hreal hmem⟩
  · intro op left right hexpr
    obtain ⟨hadmissible, -⟩ := hsound.typed id n hn
    have hlt : ∀ operand ∈ n.expr.operands, operand < a.size :=
      fun operand hmem => hsound.ordered.lt_size hn hmem
    rw [hexpr] at hadmissible hlt
    obtain ⟨hleft, hright⟩ : (a.typeAt left).isReal = false ∧ (a.typeAt right).isReal = false :=
      hadmissible
    refine ⟨_, _, _, DataType.common_eq_ok_iff.mpr ⟨hleft, hright, rfl⟩, ?_, ?_⟩
    · exact hsound.extendsTo (hlt left (by simp [Expr.operands])) hleft rfl
        (Nat.le_max_left _ _) fun hsigned => (DataType.isSigned_of_commonVector hsigned).1
    · exact hsound.extendsTo (hlt right (by simp [Expr.operands])) hright rfl
        (Nat.le_max_right _ _) fun hsigned => (DataType.isSigned_of_commonVector hsigned).2

/-- In `4'sb1111 + (4'sd0 + 8'd0)` the negative operand of the unsigned sum counts as 15, and a
comparison of `4'hf + 4'h1` with `8'sd16` leaves the 16 as it is. -/
theorem extendsTo_of_conversion_sumOfThree :
    (Evaluation.operandAs (sumOfThree .unsigned 1 2 0 3).eval 0 (.sizedVector .unsigned 8)).outcome
        = .ok ⟨.sizedVector .unsigned 8, .integer 15⟩ ∧
      (Evaluation.operandAs comparison.eval 3 (.sizedVector .unsigned 8)).outcome
        = .ok ⟨.sizedVector .unsigned 8, .integer 16⟩ := by
  obtain ⟨-, hresult, -⟩ := unsignedResult_sumOfThree
  constructor
  · have hnode : (sumOfThree .unsigned 1 2 0 3).nodes[4]? =
        some ⟨.binary (.arith .add) 0 3, .sizedVector .unsigned 8,
          some (.sizedVector .unsigned 8)⟩ := rfl
    obtain ⟨hfinal, -⟩ := hresult.reachable.extendsTo_of_conversion hnode
    obtain ⟨own, hextends⟩ := hfinal rfl rfl 0 (by decide)
    have hvalue : ((sumOfThree .unsigned 1 2 0 3).eval 0).outcome =
        .ok ⟨.sizedVector .signed 4, .integer (-1)⟩ := by decide +kernel
    obtain ⟨x, hx, hconverted⟩ := hextends.converted _ hvalue
    cases hx
    exact hconverted
  · have hnode : comparison.nodes[4]? = some ⟨.binary (.compare .eq) 2 3, .bit, some .bit⟩ := rfl
    obtain ⟨-, hcompares⟩ := reachable_comparison.extendsTo_of_conversion hnode
    obtain ⟨leftType, rightType, common, hcommon, hleft, hright⟩ := hcompares .eq 2 3 rfl
    have hvalue : (comparison.eval 3).outcome =
        .ok ⟨.sizedVector .signed 8, .integer 16⟩ := by decide +kernel
    obtain ⟨x, hx, hconverted⟩ := hright.converted _ hvalue
    cases hx
    cases hleft.type_eq
    cases hcommon
    exact hconverted

end Arena

end VerilogExpr
