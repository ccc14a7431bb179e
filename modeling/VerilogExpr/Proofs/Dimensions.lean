import Mathlib.Data.List.Forall2
import Mathlib.Tactic.Ring
import VerilogExpr.Dimensions
import VerilogExpr.Proofs.BitRange.Offsets

/-!
# Positions of array elements

An index has an offset in its dimension, counted from the left bound.  The position of an element
is the number that these offsets spell as digits, the first dimension being the highest digit and
the size of a dimension the base of its digit.  So the positions number the elements without a gap,
in the lexicographic order of their offsets.

Positions are words.  They are the numbers that the offsets spell as long as there are not too many
elements for a size (`Dimensions.CountFits`); beyond, elements share a position.
-/

namespace VerilogExpr.Dimensions

/-- The offset of each index from the left bound of its dimension, if there is one index per
dimension and each lies in its range. -/
def offsetsIn? : List BitRange → List Int → Option (List Nat)
  | [], [] => some []
  | range :: ranges, index :: indices => do
    let offset ← range.msbOffset? index
    let offsets ← offsetsIn? ranges indices
    return offset :: offsets
  | _, _ => none

def Contains (d : Dimensions) (indices : List Int) : Prop :=
  List.Forall₂ (fun range index => range.contains index = true) d.ranges indices

variable {d : Dimensions} {range last : BitRange} {ranges outer : List BitRange}
  {index : Int} {indices others front : List Int} {offset position other start rest : Nat}
  {offsets otherOffsets : List Nat}

/-! ### Offsets as digits -/

theorem offsetsIn?_cons_eq_some_iff : offsetsIn? (range :: ranges) indices = some offsets ↔
    ∃ index below offset lower, indices = index :: below ∧ offsets = offset :: lower ∧
      range.msbOffset? index = some offset ∧ offsetsIn? ranges below = some lower := by
  cases indices with
  | nil => simp [offsetsIn?]
  | cons index below =>
      simp only [offsetsIn?, Option.bind_eq_bind, Option.bind_eq_some_iff, Option.pure_def,
        Option.some.injEq, List.cons.injEq]
      constructor
      · rintro ⟨offset, hoffset, lower, hlower, rfl⟩
        exact ⟨index, below, offset, lower, ⟨rfl, rfl⟩, rfl, hoffset, hlower⟩
      · rintro ⟨_, _, offset, lower, ⟨rfl, rfl⟩, rfl, hoffset, hlower⟩
        exact ⟨offset, hoffset, lower, hlower, rfl⟩

theorem offsetsIn?_nil_eq_some_iff :
    offsetsIn? [] indices = some offsets ↔ indices = [] ∧ offsets = [] := by
  cases indices with
  | nil => simp [offsetsIn?, eq_comm]
  | cons index below => simp [offsetsIn?]

/-- Exactly the indices of an element have offsets. -/
theorem exists_offsetsIn?_iff : (∃ offsets, offsetsIn? ranges indices = some offsets) ↔
    (Dimensions.mk ranges).Contains indices := by
  unfold Contains
  induction ranges generalizing indices with
  | nil => simp [offsetsIn?_nil_eq_some_iff]
  | cons range ranges ih =>
      simp only [List.forall₂_cons_left_iff, ← ih, offsetsIn?_cons_eq_some_iff]
      constructor
      · rintro ⟨_, index, below, offset, lower, rfl, rfl, hoffset, hlower⟩
        refine ⟨index, below, ?_, ⟨lower, hlower⟩, rfl⟩
        by_contra hnot
        have hnone := BitRange.msbOffset?_eq_none_iff.mpr (Bool.eq_false_iff.mpr hnot)
        exact absurd (hnone.symm.trans hoffset) nofun
      · rintro ⟨index, below, hcontains, ⟨lower, hlower⟩, rfl⟩
        have hsome : range.msbOffset? index ≠ none := by
          simp [BitRange.msbOffset?_eq_none_iff, hcontains]
        obtain ⟨offset, hoffset⟩ := Option.ne_none_iff_exists'.mp hsome
        exact ⟨_, index, below, offset, lower, rfl, rfl, hoffset, hlower⟩

/-- Wherever the positions start, exactly the indices of an element have one. -/
theorem exists_positionFrom?_iff : (∃ position, positionFrom? start ranges indices = some position) ↔
    ∃ offsets, offsetsIn? ranges indices = some offsets := by
  induction ranges generalizing start indices with
  | nil => cases indices <;> simp [positionFrom?, offsetsIn?]
  | cons range ranges ih =>
      cases indices with
      | nil => simp [positionFrom?, offsetsIn?]
      | cons index below =>
          cases hoffset : range.msbOffset? index with
          | none => simp [positionFrom?, offsetsIn?, hoffset]
          | some offset =>
              simp only [positionFrom?, offsetsIn?, hoffset, Option.bind_eq_bind, Option.bind_some]
              rw [ih]
              cases offsetsIn? ranges below <;> simp

theorem exists_position?_iff :
    (∃ position, d.position? indices = some position) ↔ d.Contains indices :=
  exists_positionFrom?_iff.trans exists_offsetsIn?_iff

end VerilogExpr.Dimensions
