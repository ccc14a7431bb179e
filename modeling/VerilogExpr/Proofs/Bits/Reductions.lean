import VerilogExpr.Operator.Meaning
import VerilogExpr.Proofs.Bits

/-!
# Reductions as folds

A reduction is defined by the number of set bits, and that number is counted a byte at a time.  Here
the bits are written out as a list: the count is the number of ones in the list, and a reduction
folds its operator over the list.  Where bits stand side by side, a fold may take each part first.
-/

namespace VerilogExpr

namespace Bits

/-- The low bits of a number, the highest one first. -/
def toList (x width : Nat) : List Bool := (List.range width).reverse.map x.testBit

variable {x y : Nat} {k width : Nat}

@[simp]
theorem length_toList (x width : Nat) : (toList x width).length = width := by
  simp [toList]

/-- Bits side by side are listed side by side. -/
theorem toList_append (hy : y < 2 ^ width) (x k : Nat) :
    toList (x * 2 ^ width + y) (k + width) = toList x k ++ toList y width := by
  have hbit : ∀ i, (x * 2 ^ width + y).testBit i =
      if i < width then y.testBit i else x.testBit (i - width) := by
    intro i
    rw [Nat.mul_comm]
    exact Nat.testBit_two_pow_mul_add x hy i
  have hlow : (List.range width).map (x * 2 ^ width + y).testBit =
      (List.range width).map y.testBit := by
    refine List.map_congr_left fun i hi => ?_
    rw [hbit, if_pos (List.mem_range.mp hi)]
  have hhigh : ((List.range k).map (width + ·)).map (x * 2 ^ width + y).testBit =
      (List.range k).map x.testBit := by
    rw [List.map_map]
    refine List.map_congr_left fun i _ => ?_
    rw [Function.comp_apply, hbit, if_neg (Nat.not_lt.mpr (Nat.le_add_right width i)),
      Nat.add_sub_cancel_left]
  simp only [toList, Nat.add_comm k width, List.range_add, List.map_reverse, List.map_append, hlow,
    hhigh, List.reverse_append]

theorem mem_toList_iff : true ∈ toList x width ↔ ∃ i < width, x.testBit i = true := by
  simp [toList]

/-- A number without ones is zero. -/
theorem count_toList_eq_zero_iff (hx : x < 2 ^ width) :
    (toList x width).count true = 0 ↔ x = 0 := by
  rw [List.count_eq_zero, mem_toList_iff]
  constructor
  · intro hnone
    refine Nat.eq_of_testBit_eq fun i => ?_
    rw [Nat.zero_testBit]
    by_cases hi : i < width
    · exact Bool.eq_false_iff.mpr fun hbit => hnone ⟨i, hi, hbit⟩
    · exact Nat.testBit_lt_two_pow
        (Nat.lt_of_lt_of_le hx (Nat.pow_le_pow_right Nat.two_pos (Nat.le_of_not_lt hi)))
  · rintro rfl
    simp

theorem onesInByte_eq (byte : Nat) : onesInByte byte = (toList byte 8).count true := by
  rw [onesInByte, toList, List.map_reverse, List.count_reverse, List.count, List.countP_map]
  refine List.countP_congr fun i _ => ?_
  simp

/-- Counting a byte at a time counts all ones, whatever the width.  The induction takes the lowest
byte off; a byte of leading zeros makes room for that at any width. -/
theorem onesCount_eq (hx : x < 2 ^ width) : onesCount x = (toList x width).count true := by
  induction x using Nat.strongRecOn generalizing width with
  | ind x ih =>
      rw [onesCount]
      by_cases hzero : x = 0
      · rw [if_pos hzero]
        exact ((count_toList_eq_zero_iff hx).mpr hzero).symm
      · rw [if_neg hzero]
        have hrest : x / 256 < x := Nat.div_lt_self (Nat.pos_of_ne_zero hzero) (by decide)
        have hleading : (toList x (8 + width)).count true = (toList x width).count true := by
          have happend := toList_append hx 0 8
          rw [Nat.zero_mul, Nat.zero_add] at happend
          rw [happend, List.count_append, (count_toList_eq_zero_iff (Nat.two_pow_pos 8)).mpr rfl,
            Nat.zero_add]
        have hbytes : toList x (width + 8) = toList (x / 256) width ++ toList (x % 256) 8 := by
          have happend := toList_append (Nat.mod_lt x (by decide : 0 < 2 ^ 8)) (x / 2 ^ 8) width
          rwa [Nat.div_add_mod'] at happend
        rw [onesInByte_eq, ih _ hrest (Nat.lt_of_le_of_lt hrest.le hx), ← hleading,
          Nat.add_comm 8 width, hbytes, List.count_append, Nat.add_comm]

end Bits

namespace Reduction

def operator : Reduction → Bool → Bool → Bool
  | and => Bool.and
  | nand => Bool.and
  | or => Bool.or
  | nor => Bool.or
  | xor => Bool.xor
  | xnor => Bool.xor

def unit : Reduction → Bool
  | and => true
  | nand => true
  | or => false
  | nor => false
  | xor => false
  | xnor => false

def isComplement : Reduction → Bool
  | nand => true
  | nor => true
  | xnor => true
  | _ => false

def fold (reduction : Reduction) (bits : List Bool) : Bool :=
  bits.foldr reduction.operator reduction.unit

def ofBits (reduction : Reduction) (bits : List Bool) : Bool :=
  if reduction.isComplement then !reduction.fold bits else reduction.fold bits

variable {reduction : Reduction}

theorem operator_assoc (reduction : Reduction) (x y z : Bool) :
    reduction.operator (reduction.operator x y) z =
      reduction.operator x (reduction.operator y z) := by
  cases reduction <;> cases x <;> cases y <;> cases z <;> rfl

theorem operator_unit (reduction : Reduction) (x : Bool) :
    reduction.operator reduction.unit x = x := by
  cases reduction <;> cases x <;> rfl

theorem fold_append (reduction : Reduction) (bits others : List Bool) :
    reduction.fold (bits ++ others) =
      reduction.operator (reduction.fold bits) (reduction.fold others) := by
  induction bits with
  | nil => exact (operator_unit reduction _).symm
  | cons bit bits ih =>
      calc
        reduction.fold (bit :: bits ++ others)
            = reduction.operator bit (reduction.fold (bits ++ others)) := rfl
        _ = reduction.operator (reduction.operator bit (reduction.fold bits))
              (reduction.fold others) := by rw [ih, operator_assoc]

/-- Parts may be folded first. -/
theorem fold_flatten (reduction : Reduction) (parts : List (List Bool)) :
    reduction.fold parts.flatten = reduction.fold (parts.map reduction.fold) := by
  induction parts with
  | nil => rfl
  | cons part parts ih =>
      rw [List.flatten_cons, fold_append, ih]
      rfl

/-! ### Folds and counts -/

theorem fold_and (bits : List Bool) : and.fold bits = (bits.count true == bits.length) := by
  induction bits with
  | nil => rfl
  | cons bit bits ih =>
      have hle := bits.count_le_length (a := true)
      change Bool.and bit (and.fold bits) = _
      rw [ih]
      cases bit with
      | true => simp
      | false =>
          have hne : bits.count true ≠ bits.length + 1 := by omega
          simp [hne]

theorem fold_or (bits : List Bool) : or.fold bits = (bits.count true != 0) := by
  induction bits with
  | nil => rfl
  | cons bit bits ih =>
      change Bool.or bit (or.fold bits) = _
      rw [ih]
      cases bit <;> simp

theorem fold_xor (bits : List Bool) : xor.fold bits = (bits.count true % 2 == 1) := by
  induction bits with
  | nil => rfl
  | cons bit bits ih =>
      change Bool.xor bit (xor.fold bits) = _
      rw [ih]
      cases bit with
      | false => simp
      | true =>
          have hparity := Nat.mod_two_eq_zero_or_one (bits.count true)
          rcases hparity with heven | hodd
          · simp [Nat.add_mod, heven]
          · simp [Nat.add_mod, hodd]

/-- The answer that a reduction finds from the number of ones is that of its fold. -/
theorem apply_eq_ofBits (reduction : Reduction) (bits : List Bool) :
    reduction.apply bits.length (bits.count true) = reduction.ofBits bits := by
  cases reduction with
  | and => exact (fold_and bits).symm
  | or => exact (fold_or bits).symm
  | xor => exact (fold_xor bits).symm
  | nand => exact (congrArg Bool.not (fold_and bits)).symm
  | nor =>
      refine Eq.trans ?_ (congrArg Bool.not (fold_or bits)).symm
      simp [apply, bne]
  | xnor =>
      refine Eq.trans ?_ (congrArg Bool.not (fold_xor bits)).symm
      rcases Nat.mod_two_eq_zero_or_one (bits.count true) with heven | hodd
      · simp [apply, heven]
      · simp [apply, hodd]

/-- A reduction by the number of ones, for the bits of a number. -/
theorem apply_onesCount {x width : Nat} (hx : x < 2 ^ width) :
    reduction.apply width (Bits.onesCount x) = reduction.ofBits (Bits.toList x width) := by
  rw [← apply_eq_ofBits, Bits.length_toList, Bits.onesCount_eq hx]

end Reduction

end VerilogExpr
