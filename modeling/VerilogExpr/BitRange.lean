import VerilogExpr.Bits

/-!
# Ranges of indices

A declared range `[left:right]` names its bits by consecutive integers and may run in either
direction: the left index is always that of the most significant bit, the right index that of the
least significant one.  An *offset* counts positions from one of the two ends, starting at zero.

Bounds are indices, so they are less than 2 ^ 64 apart, and every offset is a size.  But their
distance may be too large for an index, and then the size of the range is not the number of its
indices.
-/

namespace VerilogExpr

/-- A range `[left:right]` of indices. -/
structure BitRange where
  /-- The index of the most significant bit. -/
  left : Int
  /-- The index of the least significant bit. -/
  right : Int
deriving DecidableEq, Repr

namespace BitRange

def ofSize (size : Nat) : BitRange := ⟨Bits.wrapIndex ((size : Int) - 1), 0⟩

/-- The number of indices.  Index arithmetic yields the distance of the bounds, and what follows is
exact: no index is further than 2 ^ 63 from zero. -/
def size (r : BitRange) : Nat := (Bits.wrapIndex (r.left - r.right)).natAbs + 1

/-- Whether indices fall from left to right.  A range of one index counts as falling. -/
def isDescending (r : BitRange) : Bool := r.right ≤ r.left

def contains (r : BitRange) (index : Int) : Bool :=
  if r.isDescending then r.right ≤ index && index ≤ r.left
  else r.left ≤ index && index ≤ r.right

/-- The number of positions between an index and the least significant end, if the range has the
index. -/
def lsbOffset? (r : BitRange) (index : Int) : Option Nat :=
  if r.contains index then
    some (if r.isDescending then index - r.right else r.right - index).toNat
  else none

/-- The number of positions between an index and the most significant end, if the range has the
index. -/
def msbOffset? (r : BitRange) (index : Int) : Option Nat :=
  if r.contains index then
    some (if r.isDescending then r.left - index else index - r.left).toNat
  else none

/-- Whether `[left:right]` runs in the direction of the range.  A single index fits either
direction. -/
def sameOrder (r : BitRange) (left right : Int) : Bool :=
  left = right || decide (right < left) == r.isDescending

def text (r : BitRange) : String := "[" ++ toString r.left ++ ":" ++ toString r.right ++ "]"

end BitRange

inductive SelectDirection where
  /-- The bits from the base index upwards, written `+:`. -/
  | upward
  /-- The bits from the base index downwards, written `-:`. -/
  | downward
deriving DecidableEq, Repr

end VerilogExpr
