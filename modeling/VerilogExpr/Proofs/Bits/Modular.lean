import Mathlib.Data.Int.Bitwise
import VerilogExpr.Operator.Meaning
import VerilogExpr.Proofs.Bits

/-!
# Operators that work on low bits

The low bits of a sum, a product, a power or a bitwise combination follow from the low bits of the
operands.  So it does not matter whether the operands are cut to the width first.  For the bitwise
operators an integer is an infinite sequence of bits, and a negative one ends in ones.
-/

namespace VerilogExpr

namespace Bits

variable {x y x' y' : Int} {width : Nat}

theorem mask_natCast (n width : Nat) : mask (n : Int) width = n % 2 ^ width := by
  have hcast : (mask (n : Int) width : Int) = (n % 2 ^ width : Nat) := by
    rw [mask_eq]
    push_cast
    rfl
  exact_mod_cast hcast

/-- The low bits of a negative integer are the flipped low bits of its complement. -/
theorem mask_negSucc (n width : Nat) :
    mask (Int.negSucc n) width = 2 ^ width - (n % 2 ^ width + 1) := by
  have hlt : n % 2 ^ width < 2 ^ width := Nat.mod_lt n (Nat.two_pow_pos width)
  have hnat : ((2 ^ width : Nat) : Int) = 2 ^ width := by push_cast; rfl
  have hmod : Int.negSucc n ≡ (2 ^ width - (n % 2 ^ width + 1) : Nat) [ZMOD 2 ^ width] := by
    rw [Int.negSucc_eq, Nat.cast_sub hlt, ← hnat]
    push_cast
    have hself : (n : Int) % 2 ^ width ≡ n [ZMOD 2 ^ width] := Int.mod_modEq _ _
    calc -((n : Int) + 1) ≡ 0 - (n + 1) [ZMOD 2 ^ width] := by rw [zero_sub]
      _ ≡ 2 ^ width - ((n : Int) % 2 ^ width + 1) [ZMOD 2 ^ width] :=
        Int.ModEq.sub Int.modulus_modEq_zero.symm (hself.symm.add_right 1)
  have hcast : (mask (Int.negSucc n) width : Int) = (2 ^ width - (n % 2 ^ width + 1) : Nat) := by
    rw [mask_eq, hmod]
    refine Int.emod_eq_of_lt (Int.natCast_nonneg _) ?_
    rw [← hnat]
    omega
  exact_mod_cast hcast

/-- A mask has the bits of the integer in two's complement, as many as the width says. -/
theorem testBit_mask (x : Int) (width i : Nat) :
    (mask x width).testBit i = (decide (i < width) && x.testBit i) := by
  cases x with
  | ofNat n =>
      have hmask : mask (Int.ofNat n) width = n % 2 ^ width := mask_natCast n width
      rw [hmask, Nat.testBit_mod_two_pow]
      rfl
  | negSucc n =>
      rw [mask_negSucc, Nat.testBit_two_pow_sub_succ (Nat.mod_lt n (Nat.two_pow_pos width)),
        Nat.testBit_mod_two_pow]
      by_cases hi : i < width
      · simp [hi, Int.testBit]
      · simp [hi]

theorem mask_eq_of_testBit {n : Nat}
    (h : ∀ i, n.testBit i = (decide (i < width) && x.testBit i)) : n = mask x width :=
  Nat.eq_of_testBit_eq fun i => (h i).trans (testBit_mask x width i).symm

theorem modulus_sub_one_testBit (width i : Nat) :
    (modulus width - 1).testBit i = decide (i < width) := by
  rw [modulus_eq, Nat.testBit_two_pow_sub_one]

/-! ### Powers -/

theorem powMod_eq (base exponent modulus : Nat) :
    powMod base exponent modulus = base ^ exponent % modulus := by
  induction exponent using Nat.strongRecOn generalizing base with
  | ind exponent ih =>
      rw [powMod]
      by_cases hzero : exponent = 0
      · simp [hzero]
      · have hhalf : exponent / 2 < exponent := by omega
        have hroot : powMod (base * base % modulus) (exponent / 2) modulus =
            base ^ (2 * (exponent / 2)) % modulus := by
          rw [ih _ hhalf, ← Nat.pow_mod, ← Nat.pow_two, ← Nat.pow_mul]
        simp only [hzero, if_false, hroot]
        have hsplit := Nat.div_add_mod exponent 2
        split
        · rename_i hodd
          rw [hodd] at hsplit
          conv => rhs; rw [← hsplit, Nat.pow_succ']
          rw [Nat.mul_mod_mod]
        · rename_i heven
          have hrest : exponent % 2 = 0 := by omega
          rw [hrest, Nat.add_zero] at hsplit
          rw [hsplit]

theorem powMod_modEq (hx : x ≡ x' [ZMOD 2 ^ width]) (exponent : Nat) :
    (powMod (mask x width) exponent (modulus width) : Int) ≡ x' ^ exponent [ZMOD 2 ^ width] := by
  rw [powMod_eq, modulus_eq]
  push_cast
  have hmask : (mask x width : Int) ≡ x' [ZMOD 2 ^ width] := (mask_modEq x width).trans hx
  calc
    (mask x width : Int) ^ exponent % 2 ^ width ≡ (mask x width : Int) ^ exponent
        [ZMOD 2 ^ width] := Int.mod_modEq _ _
    _ ≡ x' ^ exponent [ZMOD 2 ^ width] := hmask.pow exponent

end Bits

/-! ### Operators -/

def BitwiseOp.onIntegers (op : BitwiseOp) (x y : Int) : Int :=
  match op with
  | and => Int.land x y
  | or => Int.lor x y
  | xor => Int.xor x y
  | xnor => Int.lnot (Int.xor x y)

/-- Operators on masked integers can as well be applied to all bits, and the result masked. -/
theorem BitwiseOp.apply_eq_mask (op : BitwiseOp) (width : Nat) (x y : Int) :
    op.apply width x y = Bits.mask (op.onIntegers x y) width := by
  refine Bits.mask_eq_of_testBit fun i => ?_
  cases op with
  | and =>
      simp only [apply, onIntegers, Nat.testBit_and, Bits.testBit_mask, Int.testBit_land]
      cases decide (i < width) <;> simp
  | or =>
      simp only [apply, onIntegers, Nat.testBit_or, Bits.testBit_mask, Int.testBit_lor]
      cases decide (i < width) <;> simp
  | xor =>
      simp only [apply, onIntegers, Nat.testBit_xor, Bits.testBit_mask, Int.testBit_lxor]
      cases decide (i < width) <;> simp
  | xnor =>
      simp only [apply, onIntegers, Nat.testBit_xor, Bits.testBit_mask, Int.testBit_lxor,
        Int.testBit_lnot, Bits.modulus_sub_one_testBit]
      cases decide (i < width) <;> simp

theorem BitwiseOp.apply_modEq {op : BitwiseOp} {width : Nat} {x y x' y' : Int}
    (hx : x ≡ x' [ZMOD 2 ^ width]) (hy : y ≡ y' [ZMOD 2 ^ width]) :
    (op.apply width x y : Int) ≡ op.onIntegers x' y' [ZMOD 2 ^ width] := by
  have hcut : op.apply width x y = op.apply width x' y' := by
    simp only [apply, Bits.mask_eq_of_modEq hx, Bits.mask_eq_of_modEq hy]
  rw [hcut, apply_eq_mask]
  exact Bits.mask_modEq _ width

theorem BitwiseOp.onIntegers_modEq (op : BitwiseOp) {width : Nat} {x y x' y' : Int}
    (hx : x ≡ x' [ZMOD 2 ^ width]) (hy : y ≡ y' [ZMOD 2 ^ width]) :
    op.onIntegers x y ≡ op.onIntegers x' y' [ZMOD 2 ^ width] := by
  calc
    op.onIntegers x y ≡ Bits.mask (op.onIntegers x y) width [ZMOD 2 ^ width] :=
      (Bits.mask_modEq _ width).symm
    _ = op.apply width x y := by rw [apply_eq_mask]
    _ ≡ op.onIntegers x' y' [ZMOD 2 ^ width] := apply_modEq hx hy

def ShiftOp.isLeft : ShiftOp → Bool
  | logicalLeft => true
  | arithLeft => true
  | _ => false

/-- An amount beyond the width leaves no low bits, so nothing is lost by cutting it. -/
theorem ShiftOp.apply_modEq {op : ShiftOp} (hleft : op.isLeft = true) {width : Nat} {x x' : Int}
    (hx : x ≡ x' [ZMOD 2 ^ width]) (signed : Bool) (amount : Nat) :
    op.apply signed width x amount ≡ x' * 2 ^ amount [ZMOD 2 ^ width] := by
  have hshift : op.apply signed width x amount = x * 2 ^ min amount width := by
    cases op with
    | logicalLeft => exact Int.shiftLeft_eq x _
    | arithLeft => exact Int.shiftLeft_eq x _
    | logicalRight => simp [isLeft] at hleft
    | arithRight => simp [isLeft] at hleft
  rw [hshift]
  by_cases hle : amount ≤ width
  · rw [Nat.min_eq_left hle]
    exact hx.mul_right _
  · have hwidth : width ≤ amount := Nat.le_of_not_le hle
    rw [Nat.min_eq_right hwidth]
    have hzero : ∀ {n : Nat} (z : Int), width ≤ n → z * 2 ^ n ≡ 0 [ZMOD 2 ^ width] := by
      intro n z hn
      exact Int.modEq_zero_iff_dvd.mpr (Dvd.dvd.mul_left (pow_dvd_pow 2 hn) z)
    calc
      x * 2 ^ width ≡ 0 [ZMOD 2 ^ width] := hzero x (Nat.le_refl width)
      _ ≡ x' * 2 ^ amount [ZMOD 2 ^ width] := (hzero x' hwidth).symm

theorem lnot_eq (x : Int) : Int.lnot x = -x - 1 := by
  cases x with
  | ofNat n =>
      simp only [Int.lnot, Int.negSucc_eq, Int.ofNat_eq_natCast]
      omega
  | negSucc n =>
      simp only [Int.lnot, Int.negSucc_eq]
      omega

end VerilogExpr
