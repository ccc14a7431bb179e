import VerilogExpr.Proofs.Bits.Modular

/-!
# Bits by position

Reading the low bits of an integer with another sign keeps the bits below the width, and may change
those above it: these all say whether the integer is negative.  So either nothing changes, or every
bit from the width upwards does.
-/

namespace VerilogExpr.Bits

variable {n m : Int} {width target i : Nat} {signed signed' : Bool}

theorem Fits.nonneg (h : Fits n width false) : 0 ≤ n := by
  unfold Fits at h
  split at h
  · exact Int.le_of_eq h.symm
  · exact h.1

theorem Fits.lt_two_pow (h : Fits n width signed) : n < 2 ^ width := by
  have hle : (2 : Int) ^ (width - 1) ≤ 2 ^ width := pow_le_pow_right₀ (by norm_num) (by omega)
  unfold Fits at h
  split at h
  · subst h
    positivity
  · split at h
    · exact h.2.trans_le hle
    · exact h.2

theorem Fits.neg_two_pow_le (h : Fits n width signed) : -2 ^ width ≤ n := by
  have hle : (2 : Int) ^ (width - 1) ≤ 2 ^ width := pow_le_pow_right₀ (by norm_num) (by omega)
  have hpos : (0 : Int) < 2 ^ width := by positivity
  unfold Fits at h
  split at h
  · omega
  · split at h <;> omega

theorem Fits.unsigned (h : Fits n width signed) (hn : 0 ≤ n) : Fits n width false := by
  have hlt := h.lt_two_pow
  unfold Fits at h ⊢
  by_cases hwidth : width = 0
  · simpa [hwidth] using h
  · simp only [hwidth, if_false, Bool.false_eq_true]
    exact ⟨hn, hlt⟩

/-- From its width upwards, the bits of an integer repeat its sign. -/
theorem Fits.testBit (h : Fits n width signed) (hi : width ≤ i) :
    n.testBit i = decide (n < 0) := by
  have hpow : 2 ^ width ≤ 2 ^ i := Nat.pow_le_pow_right (by norm_num) hi
  have hcast : ((2 ^ width : Nat) : Int) = 2 ^ width := by push_cast; rfl
  have hupper := h.lt_two_pow
  have hlower := h.neg_two_pow_le
  rw [← hcast] at hupper hlower
  cases n with
  | ofNat k =>
      have hk : k < 2 ^ width := Int.ofNat_lt.mp hupper
      have hbit : k.testBit i = false := Nat.testBit_lt_two_pow (Nat.lt_of_lt_of_le hk hpow)
      have hsign : ¬ Int.ofNat k < 0 := Int.not_lt.mpr (Int.natCast_nonneg k)
      rw [decide_eq_false hsign]
      exact hbit
  | negSucc k =>
      have hk : k < 2 ^ width := by omega
      have hbit : k.testBit i = false := Nat.testBit_lt_two_pow (Nat.lt_of_lt_of_le hk hpow)
      rw [decide_eq_true (Int.negSucc_lt_zero k), Int.testBit, hbit]
      rfl

/-- The bits below the width stay as they are. -/
theorem testBit_truncate (hi : i < width) : (truncate n width signed).testBit i = n.testBit i := by
  have hmask := mask_eq_of_modEq (truncate_modEq n width signed)
  have hbit := congrArg (Nat.testBit · i) hmask
  simpa only [testBit_mask, hi, decide_true, Bool.true_and] using hbit

/-- A bit from the width upwards stays as it is only if the integer does. -/
theorem testBit_truncate_iff (hn : Fits n width signed) :
    (truncate n width signed').testBit i = n.testBit i ↔ i < width ∨ Fits n width signed' := by
  constructor
  · intro hbit
    by_cases hi : i < width
    · exact Or.inl hi
    · right
      have hle : width ≤ i := Nat.le_of_not_lt hi
      have hm := fits_truncate n width signed'
      rw [hm.testBit hle, hn.testBit hle, decide_eq_decide] at hbit
      cases signed <;> cases signed'
      case false.false => exact hn
      case true.true => exact hn
      case false.true =>
        have hnonneg := hn.nonneg
        have hsame := eq_of_fits_of_modEq (hm.unsigned (by omega)) hn (truncate_modEq n width true)
        exact hsame ▸ hm
      case true.false =>
        have hnonneg := hm.nonneg
        exact hn.unsigned (by omega)
  · rintro (hi | hfits)
    · exact testBit_truncate hi
    · rw [truncate_of_fits hfits]

/-- Of the low bits up to another width, those from the first one upwards stay as they are only if
the integer does. -/
theorem testBit_mask_truncate_iff (hn : Fits n width signed) :
    (mask (truncate n width signed') target).testBit i = (mask n target).testBit i ↔
      i < width ∨ Fits n width signed' ∨ target ≤ i := by
  rw [testBit_mask, testBit_mask]
  by_cases hi : i < target
  · simp only [hi, decide_true, Bool.true_and, Nat.not_le.mpr hi, or_false]
    exact testBit_truncate_iff hn
  · simp [hi, Nat.le_of_not_lt hi]

/-- Low bits beyond the width stay as they are only if the integer does. -/
theorem mask_truncate_iff (hn : Fits n width signed) :
    mask (truncate n width signed') target = mask n target ↔
      target ≤ width ∨ Fits n width signed' := by
  constructor
  · intro hmask
    by_cases hle : target ≤ width
    · exact Or.inl hle
    · right
      have hlt : width < target := Nat.lt_of_not_le hle
      have hbit := congrArg (Nat.testBit · width) hmask
      simp only [testBit_mask, hlt, decide_true, Bool.true_and] at hbit
      exact ((testBit_truncate_iff hn).mp hbit).resolve_left (Nat.lt_irrefl width)
  · intro h
    refine Nat.eq_of_testBit_eq fun i => ?_
    rw [testBit_mask, testBit_mask]
    by_cases hi : i < target
    · rw [(testBit_truncate_iff hn).mpr (h.imp_left (Nat.lt_of_lt_of_le hi))]
    · simp [hi]

end VerilogExpr.Bits
