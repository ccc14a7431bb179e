import Mathlib.Data.Int.ModEq
import Mathlib.Tactic.Positivity
import VerilogExpr.Bits

/-!
# Low bits of integers

`Bits.truncate` picks, among the integers that agree with a given one in their low bits, the one in
the range of a type.  So it depends on those low bits alone, always lands in the range, and leaves
an integer of the range as it is.
-/

namespace VerilogExpr.Bits

variable {n m : Int} {width : Nat} {signed : Bool}

def Fits (n : Int) (width : Nat) (signed : Bool) : Prop :=
  if width = 0 then n = 0
  else if signed then -2 ^ (width - 1) ≤ n ∧ n < 2 ^ (width - 1)
  else 0 ≤ n ∧ n < 2 ^ width

theorem modulus_eq (width : Nat) : modulus width = 2 ^ width := by
  rw [modulus, Nat.shiftLeft_eq, Nat.one_mul]

theorem mask_eq (n : Int) (width : Nat) : (mask n width : Int) = n % 2 ^ width := by
  have hpos : (0 : Int) < 2 ^ width := by positivity
  rw [mask, modulus_eq, Nat.cast_pow, Nat.cast_ofNat]
  exact Int.toNat_of_nonneg (Int.emod_nonneg n hpos.ne')

theorem mask_lt (n : Int) (width : Nat) : mask n width < 2 ^ width := by
  have hpos : (0 : Int) < 2 ^ width := by positivity
  have hlt := Int.emod_lt_of_pos n hpos
  rw [← mask_eq] at hlt
  exact_mod_cast hlt

theorem mask_modEq (n : Int) (width : Nat) : (mask n width : Int) ≡ n [ZMOD 2 ^ width] := by
  rw [mask_eq]
  exact Int.mod_modEq n _

theorem mask_eq_of_modEq (h : n ≡ m [ZMOD 2 ^ width]) : mask n width = mask m width := by
  have hcast : (mask n width : Int) = mask m width := by rw [mask_eq, mask_eq, h]
  exact_mod_cast hcast

theorem truncate_eq_of_modEq (h : n ≡ m [ZMOD 2 ^ width]) (signed : Bool) :
    truncate n width signed = truncate m width signed := by
  unfold truncate
  rw [mask_eq_of_modEq h]

theorem truncate_modEq (n : Int) (width : Nat) (signed : Bool) :
    truncate n width signed ≡ n [ZMOD 2 ^ width] := by
  unfold truncate
  split
  · rw [modulus_eq, Nat.cast_pow, Nat.cast_ofNat]
    exact Int.sub_modulus_modEq_iff.mpr (mask_modEq n width)
  · exact mask_modEq n width

/-- Truncation lands in the range of the width and the sign. -/
theorem fits_truncate (n : Int) (width : Nat) (signed : Bool) :
    Fits (truncate n width signed) width signed := by
  have hlt := mask_lt n width
  unfold Fits truncate
  simp only [modulus_eq]
  by_cases hwidth : width = 0
  · subst hwidth
    have hmask : mask n 0 = 0 := Nat.lt_one_iff.mp hlt
    simp [hmask]
  · have htwice := Nat.two_pow_pred_mul_two (Nat.pos_of_ne_zero hwidth)
    have hlow : ((2 ^ (width - 1) : Nat) : Int) = 2 ^ (width - 1) := by push_cast; rfl
    have hall : ((2 ^ width : Nat) : Int) = 2 ^ width := by push_cast; rfl
    have hpositive : 0 < width := Nat.pos_of_ne_zero hwidth
    simp only [hwidth, if_false, hpositive, true_and, ← hlow, ← hall]
    cases signed with
    | false =>
        simp only [Bool.false_eq_true, false_and, if_false]
        omega
    | true =>
        simp only [if_true, true_and]
        split <;> omega

/-- The range has no gaps towards zero. -/
theorem Fits.of_between (h : Fits n width signed) (hlow : min n 0 ≤ m) (hhigh : m ≤ max n 0) :
    Fits m width signed := by
  unfold Fits at h ⊢
  by_cases hwidth : width = 0
  · simp only [hwidth, if_true] at h ⊢
    omega
  · have hpositive : (0 : Int) < 2 ^ (width - 1) := by positivity
    have hall : (0 : Int) < 2 ^ width := by positivity
    cases signed with
    | false =>
        simp only [hwidth, if_false, Bool.false_eq_true] at h ⊢
        omega
    | true =>
        simp only [hwidth, if_false, if_true] at h ⊢
        omega

theorem fits_zero (width : Nat) (signed : Bool) : Fits 0 width signed := by
  have hhalf : (0 : Int) < 2 ^ (width - 1) := by positivity
  have hall : (0 : Int) < 2 ^ width := by positivity
  unfold Fits
  split
  · rfl
  · split <;> omega

/-- An integer of the range is the only one there with its low bits. -/
theorem eq_of_fits_of_modEq (hn : Fits n width signed) (hm : Fits m width signed)
    (h : n ≡ m [ZMOD 2 ^ width]) : n = m := by
  unfold Fits at hn hm
  by_cases hwidth : width = 0
  · simp only [hwidth, if_true] at hn hm
    rw [hn, hm]
  · have hlow : ((2 ^ (width - 1) : Nat) : Int) = 2 ^ (width - 1) := by push_cast; rfl
    have hall : ((2 ^ width : Nat) : Int) = 2 ^ width := by push_cast; rfl
    have htwice := Nat.two_pow_pred_mul_two (Nat.pos_of_ne_zero hwidth)
    have hdvd : (2 : Int) ^ width ∣ m - n := h.dvd
    simp only [hwidth, if_false, ← hlow, ← hall] at hn hm
    rw [← hall] at hdvd
    have hdist : (m - n).natAbs < ((2 ^ width : Nat) : Int).natAbs := by
      cases signed with
      | false =>
          simp only [Bool.false_eq_true, if_false] at hn hm
          omega
      | true =>
          simp only [if_true] at hn hm
          omega
    have hzero := Int.eq_zero_of_dvd_of_natAbs_lt_natAbs hdvd hdist
    omega

theorem truncate_of_fits (h : Fits n width signed) : truncate n width signed = n :=
  eq_of_fits_of_modEq (fits_truncate n width signed) h (truncate_modEq n width signed)

theorem truncate_unsigned (n : Int) (width : Nat) : truncate n width false = n % 2 ^ width := by
  simp [truncate, mask_eq]

/-! ### Words -/

theorem wrapIndex_of_isIndex (h : isIndex n = true) : wrapIndex n = n := of_decide_eq_true h

theorem isIndex_iff : isIndex n = true ↔ -2 ^ 63 ≤ n ∧ n < 2 ^ 63 := by
  have hfits : Fits n wordWidth true ↔ -2 ^ 63 ≤ n ∧ n < 2 ^ 63 := by simp [Fits, wordWidth]
  rw [← hfits]
  constructor
  · intro h
    rw [← wrapIndex_of_isIndex h]
    exact fits_truncate n wordWidth true
  · exact fun h => decide_eq_true (truncate_of_fits h)

/-- Without its top bit a number reads the same with and without a sign. -/
theorem truncate_unsigned_of_nonneg (h : 0 ≤ truncate n width true) :
    truncate n width false = truncate n width true := by
  have hlt := mask_lt n width
  unfold truncate at h ⊢
  simp only [modulus_eq] at h ⊢
  split at h
  · omega
  · rename_i hlow
    simp [hlow]

end VerilogExpr.Bits
