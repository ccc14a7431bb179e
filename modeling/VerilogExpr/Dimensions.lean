import VerilogExpr.Violation

/-!
# Dimensions of arrays

Elements lie in row-major order: the first dimension is the most significant one, and within each
dimension the left bound comes first.  An element is found at the offsets of its indices, and the
indices at an offset come back from the range.

The number of elements and their positions are sizes, and found by size arithmetic.
-/

namespace VerilogExpr

/-! ### From offsets to indices -/

namespace BitRange

def demandOffset (r : BitRange) (offset : Nat) : Except Violation Unit :=
  if r.size ≤ offset then .error (.offsetBeyond offset r r.size) else .ok ()

/-- The index at an offset from the least significant end. -/
def indexAtLsb (r : BitRange) (offset : Nat) : Except Violation Int := do
  r.demandOffset offset
  return if r.isDescending then r.right + offset else r.right - offset

/-- The index at an offset from the most significant end. -/
def indexAtMsb (r : BitRange) (offset : Nat) : Except Violation Int := do
  r.demandOffset offset
  return if r.isDescending then r.left - offset else r.left + offset

/-- The bounds of `[base +: width]` or `[base -: width]`, written in the direction of the range.
The bound opposite the base is found by index arithmetic. -/
def indexedBounds (r : BitRange) (base : Int) (width : Nat) (direction : SelectDirection) :
    Except Violation BitRange :=
  if width = 0 then .error .emptyIndexedSelect
  else
    let span : Int := width - 1
    .ok <| match r.isDescending, direction with
      | true, .upward => ⟨Bits.wrapIndex (base + span), base⟩
      | true, .downward => ⟨base, Bits.wrapIndex (base - span)⟩
      | false, .upward => ⟨base, Bits.wrapIndex (base + span)⟩
      | false, .downward => ⟨Bits.wrapIndex (base - span), base⟩

end BitRange

/-! ### Positions of elements -/

/-- The ranges of the dimensions of an array, first dimension first. -/
structure Dimensions where
  ranges : List BitRange
deriving DecidableEq, Repr

namespace Dimensions

def count (d : Dimensions) : Nat := d.ranges.length

/-- The number of elements of an array with the given dimensions: the product of their sizes. -/
def elementsOf : List BitRange → Nat
  | [] => 1
  | range :: ranges => Bits.wrapSize (range.size * elementsOf ranges)

def elementCount (d : Dimensions) : Nat := elementsOf d.ranges

/-- The position reached from an earlier dimension's position by the remaining indices. -/
def positionFrom? (position : Nat) : List BitRange → List Int → Option Nat
  | [], [] => some position
  | range :: ranges, index :: indices => do
    let offset ← range.msbOffset? index
    positionFrom? (Bits.wrapSize (position * range.size + offset)) ranges indices
  | _, _ => none

/-- The position of an element, if there is one index per dimension and each lies in its range. -/
def position? (d : Dimensions) (indices : List Int) : Option Nat :=
  positionFrom? 0 d.ranges indices

/-- The indices that a position has in the given dimensions, and the part of the position that
belongs to the dimensions before them. -/
def splitPosition (position : Nat) : List BitRange → Except Violation (List Int × Nat)
  | [] => .ok ([], position)
  | range :: ranges => do
    let (indices, rest) ← splitPosition position ranges
    let index ← range.indexAtMsb (rest % range.size)
    return (index :: indices, rest / range.size)

/-- The indices of the element at a position, if there is such an element. -/
def indicesAt (d : Dimensions) (position : Nat) : Except Violation (Option (List Int)) :=
  if position < d.elementCount then do
    let (indices, _) ← splitPosition position d.ranges
    return some indices
  else .ok none

def text (d : Dimensions) : String := String.join (d.ranges.map BitRange.text)

end Dimensions

/-- Indices in brackets, as messages show the place of an element. -/
def indexText (indices : List String) : String := "[" ++ String.intercalate "][" indices ++ "]"

end VerilogExpr
