import Mathlib.Tactic.Common
import VerilogExpr.Proofs.Arena.Evolution
import VerilogExpr.Proofs.Bits
import VerilogExpr.Dimensions

/-!
# Indices and offsets

Whichever way a range runs, its indices are those between its bounds, and the offset from the least
significant end numbers them without a gap.  A part select that runs in the direction of its range
picks consecutive offsets.

Offsets are exact in every range.  The size is if the number of indices is an index itself, so that
nothing wraps around when they are counted (`BitRange.SizeFits`).
-/

namespace VerilogExpr

namespace BitRange

variable {r bounds : BitRange} {i left right : Int} {offset k : Nat}

/-- A range runs downwards, or upwards and over several indices. -/
theorem descending_or_ascending (r : BitRange) :
    r.isDescending = true ∧ r.right ≤ r.left ∨ r.isDescending = false ∧ r.left < r.right := by
  simp only [isDescending, decide_eq_true_eq, decide_eq_false_iff_not]
  omega

theorem contains_iff : r.contains i = true ↔ min r.left r.right ≤ i ∧ i ≤ max r.left r.right := by
  unfold contains
  rcases r.descending_or_ascending with ⟨hdirection, hle⟩ | ⟨hdirection, hlt⟩
  · simp only [hdirection, if_true, Bool.and_eq_true, decide_eq_true_eq]
    omega
  · simp only [hdirection, Bool.false_eq_true, if_false, Bool.and_eq_true, decide_eq_true_eq]
    omega

theorem left_mem (r : BitRange) : r.contains r.left = true := by
  rw [contains_iff]
  omega

theorem right_mem (r : BitRange) : r.contains r.right = true := by
  rw [contains_iff]
  omega

/-- The indices of a range lie in another range if its bounds do. -/
theorem bounds_mem_iff : (r.contains bounds.left && r.contains bounds.right) = true ↔
    ∀ i, bounds.contains i = true → r.contains i = true := by
  rw [Bool.and_eq_true]
  constructor
  · rintro ⟨hleft, hright⟩ i hi
    rw [contains_iff] at hleft hright hi ⊢
    omega
  · intro h
    exact ⟨h _ bounds.left_mem, h _ bounds.right_mem⟩

/-! ### The number of indices -/

def indexCount (r : BitRange) : Nat := (r.left - r.right).natAbs + 1

/-- The indices of a range can be counted with an index. -/
def SizeFits (r : BitRange) : Prop := Bits.isIndex r.indexCount = true

instance (r : BitRange) : Decidable r.SizeFits :=
  inferInstanceAs (Decidable (Bits.isIndex r.indexCount = true))

theorem SizeFits.size_eq (h : r.SizeFits) : r.size = r.indexCount := by
  have hdistance : Bits.isIndex (r.left - r.right) = true := by
    unfold SizeFits indexCount at h
    rw [Bits.isIndex_iff] at h ⊢
    omega
  rw [size, Bits.wrapIndex_of_isIndex hdistance, indexCount]

/-- The index at an offset, counted in the direction of the range. -/
theorem lsbOffset?_eq_some_iff : r.lsbOffset? i = some offset ↔
    offset < r.indexCount ∧
      i = if r.isDescending then r.right + offset else r.right - offset := by
  simp only [lsbOffset?, Option.ite_none_right_eq_some, Option.some.injEq, contains_iff, indexCount]
  rcases r.descending_or_ascending with ⟨hdirection, hle⟩ | ⟨hdirection, hlt⟩
  · simp only [hdirection, if_true]
    omega
  · simp only [hdirection, Bool.false_eq_true, if_false]
    omega

theorem contains_of_lsbOffset? (h : r.lsbOffset? i = some offset) : r.contains i = true := by
  rw [lsbOffset?, Option.ite_none_right_eq_some] at h
  exact h.1

theorem exists_lsbOffset? (h : r.contains i = true) : ∃ offset, r.lsbOffset? i = some offset := by
  unfold lsbOffset?
  rw [h]
  exact ⟨_, rfl⟩

theorem lsbOffset?_right (r : BitRange) : r.lsbOffset? r.right = some 0 := by
  refine lsbOffset?_eq_some_iff.mpr ⟨Nat.succ_pos _, ?_⟩
  cases r.isDescending <;> simp

end BitRange

end VerilogExpr
