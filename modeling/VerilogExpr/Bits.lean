/-!
# Integers of a given width

The low bits of an integer of any size, read as a number without or with a sign, and the two
operations on bits that need an algorithm: counting the set ones, and powers modulo a number.

Values have as many bits as their types say, but the indices and sizes of ranges and arrays are
machine words.  Arithmetic on words wraps around, and yields the low bits of the exact result.
-/

namespace VerilogExpr.Bits

def modulus (width : Nat) : Nat := 1 <<< width

/-- The low bits of an integer, as the number they spell.  A negative integer has infinitely many
leading ones. -/
def mask (value : Int) (width : Nat) : Nat := (value % (modulus width : Int)).toNat

/-- The low bits of an integer, read with or without a sign.  With a sign the top bit counts
negatively. -/
def truncate (value : Int) (width : Nat) (signed : Bool) : Int :=
  if signed ∧ 0 < width ∧ modulus (width - 1) ≤ mask value width then
    (mask value width : Int) - modulus width
  else mask value width

/-! ### Words -/

/-- The number of bits in which indices and sizes are kept. -/
def wordWidth : Nat := 64

/-- What index arithmetic makes of an exact result.  Indices have a sign. -/
def wrapIndex (n : Int) : Int := truncate n wordWidth true

/-- What size arithmetic makes of an exact result.  Sizes have no sign. -/
def wrapSize (n : Nat) : Nat := n % modulus wordWidth

/-- Whether an integer is an index, so that index arithmetic keeps it. -/
def isIndex (n : Int) : Bool := wrapIndex n = n

/-! ### Counting and powers -/

/-- The number of ones among the eight bits of a byte. -/
def onesInByte (byte : Nat) : Nat := (List.range 8).countP byte.testBit

/-- The number of ones of a number, counted a byte at a time. -/
def onesCount (n : Nat) : Nat :=
  if n = 0 then 0 else onesInByte (n % 256) + onesCount (n / 256)
termination_by n

/-- The power of a base modulo `modulus`, by repeated squaring. -/
def powMod (base exponent modulus : Nat) : Nat :=
  if exponent = 0 then 1 % modulus
  else
    let root := powMod (base * base % modulus) (exponent / 2) modulus
    if exponent % 2 = 1 then base * root % modulus else root
termination_by exponent

end VerilogExpr.Bits
