import VerilogExpr.Proofs.Arena.Effect
import VerilogExpr.Proofs.Bits.Positions
import VerilogExpr.Proofs.Evaluation.Modular
import VerilogExpr.Proofs.Evaluation.Selects
import VerilogExpr.Proofs.Evaluation.Stability

/-!
# Shifts

An amount beyond the width shifts by the width, which moves all bits out already.  So the result is
the one that a shift by the whole amount has on integers of any size: a left shift multiplies by a
power of two, an arithmetic right shift of a signed integer divides by it and rounds down, and any
other right shift divides the bits as an unsigned number.  The amount is settled when the shift is
built, so a context of the shift reaches the left operand alone.
-/

namespace VerilogExpr

/-- The result of a shift on integers of any size, cut to the width where it may not fit. -/
def ShiftOp.exact (op : ShiftOp) (signed : Bool) (width : Nat) (x : Int) (amount : Nat) : Int :=
  let unsignedQuotient := Bits.truncate (Bits.mask x width / 2 ^ amount : Nat) width signed
  match op with
  | logicalLeft => Bits.truncate (x * 2 ^ amount) width signed
  | arithLeft => Bits.truncate (x * 2 ^ amount) width signed
  | arithRight => if signed then x / 2 ^ amount else unsignedQuotient
  | logicalRight => unsignedQuotient

namespace Bits

variable {x : Int} {width amount : Nat} {signed : Bool}

/-- Beyond the width only the sign is left. -/
theorem div_two_pow_of_le (h : Fits x width signed) (hle : width ≤ amount) :
    x / 2 ^ amount = if x < 0 then -1 else 0 := by
  have hlow := h.neg_two_pow_le
  have hpow : (2 : Int) ^ width ≤ 2 ^ amount := pow_le_pow_right₀ (by decide) hle
  split
  · rename_i hneg
    exact Int.ediv_eq_neg_one_of_neg_of_le hneg (by omega)
  · rename_i hnonneg
    exact Int.ediv_eq_zero_of_lt (Int.not_lt.mp hnonneg) (Int.lt_of_lt_of_le h.lt_two_pow hpow)

theorem shiftRight_min (h : Fits x width signed) (amount : Nat) :
    x >>> min amount width = x / 2 ^ amount := by
  rw [Int.shiftRight_eq_div_pow]
  push_cast
  rcases Nat.le_total amount width with hle | hle
  · rw [Nat.min_eq_left hle]
  · rw [Nat.min_eq_right hle, div_two_pow_of_le h (Nat.le_refl width), div_two_pow_of_le h hle]

theorem mask_shiftRight_min (x : Int) (width amount : Nat) :
    mask x width >>> min amount width = mask x width / 2 ^ amount := by
  rw [Nat.shiftRight_eq_div_pow]
  rcases Nat.le_total amount width with hle | hle
  · rw [Nat.min_eq_left hle]
  · have hlt := mask_lt x width
    have hlt' := Nat.lt_of_lt_of_le hlt (Nat.pow_le_pow_right Nat.two_pos hle)
    rw [Nat.min_eq_right hle, Nat.div_eq_of_lt hlt, Nat.div_eq_of_lt hlt']

/-- Rounding a quotient down keeps it in the range. -/
theorem Fits.div_two_pow (h : Fits x width signed) (amount : Nat) :
    Fits (x / 2 ^ amount) width signed := by
  have hpositive : (0 : Int) < 2 ^ amount := by positivity
  have habs := Int.natAbs_ediv_le_natAbs x (2 ^ amount)
  rcases Int.lt_or_le x 0 with hneg | hnonneg
  · have hquotient := Int.ediv_neg_of_neg_of_pos hneg hpositive
    exact h.of_between (by omega) (by omega)
  · have hquotient := Int.ediv_nonneg hnonneg hpositive.le
    exact h.of_between (by omega) (by omega)

end Bits

/-- Cutting the amount to the width does not show in the result. -/
theorem ShiftOp.truncate_apply {op : ShiftOp} {signed : Bool} {width : Nat} {x : Int}
    (h : Bits.Fits x width signed) (amount : Nat) :
    Bits.truncate (op.apply signed width x amount) width signed =
      op.exact signed width x amount := by
  have hleft : op.isLeft = true → Bits.truncate (op.apply signed width x amount) width signed =
      Bits.truncate (x * 2 ^ amount) width signed :=
    fun hop => Bits.truncate_eq_of_modEq (apply_modEq hop rfl signed amount) signed
  have hright : Bits.truncate (Bits.mask x width >>> min amount width : Nat) width signed =
      Bits.truncate (Bits.mask x width / 2 ^ amount : Nat) width signed := by
    rw [Bits.mask_shiftRight_min]
  cases op with
  | logicalLeft => exact hleft rfl
  | arithLeft => exact hleft rfl
  | logicalRight => exact hright
  | arithRight =>
      cases signed with
      | false => exact hright
      | true =>
          simp only [apply, exact, if_true, Bits.shiftRight_min h]
          exact Bits.truncate_of_fits (h.div_two_pow amount)

namespace Arena

variable {a b : Arena} {id left right : ExprId} {n : Node} {op : ShiftOp} {required : DataType}
  {u : Value} {m : Int}

/-- Whatever integer the left operand has at the type of the shift, the shift moves its bits by the
given amount. -/
def ShiftsBy (a : Arena) (id left : ExprId) (op : ShiftOp) (amount : Nat) : Prop :=
  ∃ t, a.type id = .ok t ∧ ∀ v x, (a.eval left).outcome = .ok v →
    v.convertTo t = .ok ⟨t, .integer x⟩ →
    (a.eval id).outcome = .ok ⟨t, .integer (op.exact t.isSigned t.width x amount)⟩

theorem Sound.isReal_shift (h : a.Sound) (hn : a.nodes[id]? = some n)
    (hexpr : n.expr = .binary (.shift op) left right) : n.type.isReal = false := by
  obtain ⟨hadmissible, hsimilar⟩ := h.typed id n hn
  rw [hexpr] at hadmissible hsimilar
  exact hsimilar.real.trans hadmissible

/-- A shift reads its amount as bits, at the own type of the right operand. -/
theorem Sound.shiftsBy (h : a.Sound) (hexpr : a.HasExpr id (.binary (.shift op) left right))
    (hu : (a.eval right).outcome = .ok u) (hm : u.toInt? = some m) :
    a.ShiftsBy id left op (Bits.mask m u.type.width) := by
  obtain ⟨n, hn, hnexpr⟩ := hexpr
  have hreal := h.isReal_shift hn hnexpr
  refine ⟨n.type, type_eq_ok_iff.mpr ⟨lt_size_of_node hn, typeAt_of_node hn⟩, fun v x hv hx => ?_⟩
  have hfits : Bits.Fits x n.type.width n.type.isSigned :=
    ((ensures_convertTo v n.type).of_eq_ok hx).2.2
  have hbits : u.demandBits = .ok (Bits.mask m u.type.width) := by
    simp only [Value.demandBits, Value.demandInt, hm]
    rfl
  rw [h.ordered.outcome_eval hn]
  simp only [Evaluation.node, hnexpr, Evaluation.binary, Evaluation.shift, Evaluation.operandInt,
    Evaluation.operandAs, Evaluation.operandBits, Evaluation.outcome_bind,
    Evaluation.outcome_monadLift, hv, hu, Value.result_eq_ok hreal]
  simp only [bind, Except.bind, hx, hbits, Value.demandInt, Value.toInt?, Value.truncated,
    ShiftOp.truncate_apply hfits]

/-- A context of a shift reaches its left operand, at the type that the shift has from then on. -/
theorem Sound.impose_shift (h : a.Sound) (hn : a.nodes[id]? = some n)
    (hexpr : n.expr = .binary (.shift op) left right) (himpose : a.impose id required = .ok b) :
    b.type id = .ok (n.type.widened required) ∧
      b.requiredAt left = some (n.type.widened required) := by
  have heffect := h.contextEffect himpose
  obtain ⟨n', m, hn', hm, hstep⟩ := heffect.reached [] id (.here hn)
  obtain rfl := Option.some.inj (hn.symm.trans hn')
  obtain ⟨given, hgiven, htype⟩ := hstep.type_eq
  have hroot := heffect.root_required
  rw [requiredAt_of_node hm, hgiven] at hroot
  obtain rfl := Option.some.inj hroot
  have hwidened : m.type = n.type.widened given := by
    simpa [hexpr, Expr.isForwarding, BinaryOp.isSink] using htype
  have hforwarded : left ∈ n.expr.forwarded := by simp [hexpr, Expr.forwarded]
  have hleft := heffect.operand_required [] id n (.here hn) hn left hforwarded
  rw [typeAt_of_node hm, hwidened] at hleft
  exact ⟨type_eq_ok_iff.mpr ⟨lt_size_of_node hm, (typeAt_of_node hm).trans hwidened⟩, hleft⟩

/-- **Shifts are exact for every amount.** Take a shift in a reachable arena whose amount has an
integer.  The bits of that integer at its own width are the amount, so a negative one is a large
amount.  Whatever is done to the arena, the amount keeps its type and its value, and the shift
evaluates to the exact result for its left operand at its type, however large the amount.  A context
that is imposed on the shift widens its type, and is handed on to the left operand alone. -/
theorem Reachable.shift_exact (h : a.Reachable)
    (hexpr : a.HasExpr id (.binary (.shift op) left right))
    (hu : (a.eval right).outcome = .ok u) (hm : u.toInt? = some m) :
    (∀ actions c, a.run actions = .ok c →
      c.type right = a.type right ∧ c.eval right = a.eval right ∧
        c.ShiftsBy id left op (Bits.mask m u.type.width)) ∧
    ∀ required b, a.impose id required = .ok b → ∃ t, a.type id = .ok t ∧
      b.type id = .ok (t.widened required) ∧ b.requiredAt left = some (t.widened required) ∧
      b.requiredAt right = a.requiredAt right := by
  obtain ⟨n, hn, hnexpr⟩ := hexpr
  have hsettled : right ∈ n.expr.settled := by simp [hnexpr, Expr.settled]
  have hfinal := h.sound.finalized_of_settled hn hsettled
  have hright : right < a.size :=
    h.sound.ordered.lt_size hn (Expr.mem_operands_of_settled hsettled)
  constructor
  · intro actions c hrun
    have hc := h.sound.of_run hrun
    have hevolves := evolves_of_run hrun
    have heval := h.sound.eval_eq_of_settled hc.ordered hevolves hn hsettled
    refine ⟨?_, heval, ?_⟩
    · rw [type_eq_ok_iff.mpr ⟨hright, rfl⟩]
      exact type_eq_ok_iff.mpr
        ⟨hevolves.lt_size hright, hevolves.typeAt_of_finalized hfinal⟩
    · exact hc.shiftsBy (hevolves.hasExpr ⟨n, hn, hnexpr⟩) (heval ▸ hu) hm
  · intro required b himpose
    obtain ⟨htype, hleft⟩ := h.sound.impose_shift hn hnexpr himpose
    obtain ⟨t, ht⟩ := Option.ne_none_iff_exists'.mp (finalized_iff.mp hfinal)
    have hevolves := (imposes_singleton_iff.mpr himpose).evolves
    refine ⟨n.type, type_eq_ok_iff.mpr ⟨lt_size_of_node hn, typeAt_of_node hn⟩, htype, hleft, ?_⟩
    rw [ht, hevolves.requiredAt_of_some ht]

/-- The arena of `4'sd-8 >>> 4'sd-1`. -/
def shiftedOut : Arena where
  nodes :=
    let four := DataType.sizedVector .signed 4
    #[⟨.literal ⟨four, .integer (-8)⟩, four, none⟩,
      ⟨.literal ⟨four, .integer (-1)⟩, four, some four⟩,
      ⟨.binary (.shift .arithRight) 0 1, four, none⟩]

theorem reachable_shiftedOut : shiftedOut.Reachable := by
  refine ⟨shiftedOut.nodes.toList.map fun n => .add n.expr, ?_⟩
  decide +kernel

/-- The amount is 15, and only the sign is left.  A context of eight bits does not reach the amount,
which would be 255 there. -/
theorem shift_exact_shiftedOut :
    Bits.mask (-1) 4 = 15 ∧
      (shiftedOut.eval 2).outcome = .ok ⟨.sizedVector .signed 4, .integer (-1)⟩ ∧
      ∃ b, shiftedOut.impose 2 (.sizedVector .signed 8) = .ok b ∧
        b.type 2 = .ok (.sizedVector .signed 8) ∧ b.eval 1 = shiftedOut.eval 1 := by
  let four := DataType.sizedVector .signed 4
  let eight := DataType.sizedVector .signed 8
  have hreachable := reachable_shiftedOut
  have hexpr : shiftedOut.HasExpr 2 (.binary (.shift .arithRight) 0 1) := ⟨_, rfl, rfl⟩
  have hleft : (shiftedOut.eval 0).outcome = .ok ⟨four, .integer (-8)⟩ := by decide +kernel
  have hright : (shiftedOut.eval 1).outcome = .ok ⟨four, .integer (-1)⟩ := by decide +kernel
  have hconverted : Value.convertTo ⟨four, .integer (-8)⟩ four = .ok ⟨four, .integer (-8)⟩ := by
    decide +kernel
  have hexact : ShiftOp.exact .arithRight true 4 (-8) (Bits.mask (-1) 4) = -1 := by decide +kernel
  have himposed : (shiftedOut.impose 2 eight).toOption.isSome = true := by decide +kernel
  obtain ⟨b, hb⟩ := Option.isSome_iff_exists.mp himposed
  rw [toOption_eq_some_iff] at hb
  obtain ⟨hruns, hcontexts⟩ := hreachable.shift_exact hexpr hright rfl
  obtain ⟨-, -, t, ht, hshift⟩ := hruns [] _ rfl
  obtain rfl : four = t := Except.ok.inj ht
  have hvalue := hshift _ _ hleft hconverted
  have hnumber : four.isSigned = true ∧ four.width = 4 := ⟨rfl, rfl⟩
  rw [hnumber.1, hnumber.2] at hvalue
  obtain ⟨t, ht, htype, -, -⟩ := hcontexts eight b hb
  obtain rfl : four = t := Except.ok.inj ht
  have hrun : shiftedOut.run [.impose 2 eight] = .ok b := run_cons_eq_ok_iff.mpr ⟨b, hb, rfl⟩
  obtain ⟨-, hkept, -⟩ := hruns _ b hrun
  exact ⟨by decide +kernel, hexact ▸ hvalue, b, hb, htype, hkept⟩

end Arena

end VerilogExpr
