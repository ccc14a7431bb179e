import VerilogExpr.Bits

/-!
# Reals as scaled integers

A finite real is plus or minus `significand * 2 ^ exponent`.  Rounding to an integer and the
conversion of an integer are exact computations on that form, so nothing here depends on floating
point arithmetic.
-/

namespace VerilogExpr.Real

/-- A finite real, as an integer scaled by a power of two. -/
structure Binary where
  negative : Bool
  significand : Nat
  exponent : Int
  /-- The gap to the next smaller magnitude is half the gap to the next larger one. -/
  narrowBelow : Bool
deriving DecidableEq, Repr

def fractionBits : Nat := 52

/-- The exponent field of infinities and of what is not a number. -/
def specialField : Nat := 2047

def isNegative (x : Float) : Bool := x.toBits.toNat.testBit 63

/-- The parts of a real, unless it is infinite or not a number.  A field of zero marks the reals
below the least normal one, which have no implicit leading bit. -/
def binary? (x : Float) : Option Binary :=
  let bits := x.toBits.toNat
  let field := (bits >>> fractionBits) % Bits.modulus 11
  let fraction := bits % Bits.modulus fractionBits
  if field = specialField then none
  else if field = 0 then some ⟨isNegative x, fraction, -1074, false⟩
  else
    some ⟨isNegative x, Bits.modulus fractionBits + fraction, (field : Int) - 1075,
      fraction = 0 ∧ 1 < field⟩

/-- The magnitude rounded to the nearest integer, a half away from zero. -/
def Binary.round (b : Binary) : Nat :=
  if 0 ≤ b.exponent then b.significand <<< b.exponent.toNat
  else
    let places := (-b.exponent).toNat
    (b.significand + Bits.modulus (places - 1)) >>> places

/-- The nearest integer, a half away from zero.  Infinities and what is not a number have none. -/
def toInt? (x : Float) : Option Int :=
  (binary? x).map fun b => if b.negative then -(b.round : Int) else b.round

/-- The number of binary digits; zero has none. -/
def bitLength (n : Nat) : Nat := if n = 0 then 0 else n.log2 + 1

/-- A number without its lowest `places` binary digits, rounded to nearest, a half to even. -/
def shiftToEven (n places : Nat) : Nat :=
  let quotient := n >>> places
  let unit := Bits.modulus places
  let rest := 2 * (n % unit)
  if rest < unit then quotient
  else if rest = unit then quotient + quotient % 2
  else quotient + 1

/-- The real `significand * 2 ^ exponent` for a significand of at most 53 bits, or infinity if
that is too large. -/
def ofScaled (negative : Bool) (significand exponent : Nat) : Float :=
  let length := bitLength significand
  let signBit := if negative then Bits.modulus 63 else 0
  let field := exponent + length + 1022
  let magnitude :=
    if significand = 0 then 0
    else if specialField ≤ field then specialField <<< fractionBits
    else ((field - 1) <<< fractionBits) + (significand <<< (fractionBits + 1 - length))
  Float.ofBits (UInt64.ofNat (signBit + magnitude))

/-- The real nearest to an integer whose magnitude is first cut to its 64 leading bits; a half goes
to the even neighbour. -/
def ofInt (n : Int) : Float :=
  let magnitude := n.natAbs
  let cut := bitLength magnitude - 64
  let leading := magnitude >>> cut
  let places := bitLength leading - (fractionBits + 1)
  let rounded := shiftToEven leading places
  if bitLength rounded ≤ fractionBits + 1 then ofScaled (n < 0) rounded (cut + places)
  else ofScaled (n < 0) (rounded / 2) (cut + places + 1)

end VerilogExpr.Real
