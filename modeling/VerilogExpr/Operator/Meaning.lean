import VerilogExpr.Bits
import VerilogExpr.Operator

/-!
# What operators compute

The operators on integers and bits of a given width, without regard to types.  Results may need
more bits than the operands; cutting them is left to the caller.
-/

namespace VerilogExpr

/-- The answer of a reduction over `width` bits, `ones` of them set. -/
def Reduction.apply (reduction : Reduction) (width ones : Nat) : Bool :=
  match reduction with
  | and => ones == width
  | nand => ones != width
  | or => ones != 0
  | nor => ones == 0
  | xor => ones % 2 == 1
  | xnor => ones % 2 == 0

/-- A bitwise operator on the low bits of two integers. -/
def BitwiseOp.apply (op : BitwiseOp) (width : Nat) (x y : Int) : Nat :=
  let left := Bits.mask x width
  let right := Bits.mask y width
  match op with
  | and => left &&& right
  | or => left ||| right
  | xor => left ^^^ right
  | xnor => left ^^^ right ^^^ (Bits.modulus width - 1)

/-- Arithmetic on integers.  Division cuts toward zero, a remainder has the sign of the dividend,
and neither is defined for a divisor of zero. -/
def ArithOp.apply? (op : ArithOp) (x y : Int) : Option Int :=
  match op with
  | add => some (x + y)
  | sub => some (x - y)
  | mul => some (x * y)
  | div => if y = 0 then none else some (x.tdiv y)
  | mod => if y = 0 then none else some (x.tmod y)

/-- A shift of an integer of the given width.  Amounts beyond the width shift by the width, which
moves all bits out already.  Only the arithmetic shift of a signed integer keeps its sign. -/
def ShiftOp.apply (op : ShiftOp) (signed : Bool) (width : Nat) (x : Int) (amount : Nat) : Int :=
  let amount := min amount width
  match op with
  | logicalLeft => x <<< amount
  | arithLeft => x <<< amount
  | arithRight =>
    if signed then x >>> amount else ((Bits.mask x width >>> amount : Nat) : Int)
  | logicalRight => ((Bits.mask x width >>> amount : Nat) : Int)

def CompareOp.apply (op : CompareOp) (x y : Int) : Bool :=
  match op with
  | eq => x = y
  | caseEq => x = y
  | ne => x ≠ y
  | caseNe => x ≠ y
  | lt => x < y
  | le => x ≤ y
  | gt => y < x
  | ge => y ≤ x

def LogicOp.apply (op : LogicOp) (x y : Bool) : Bool :=
  match op with
  | and => x && y
  | or => x || y

end VerilogExpr
