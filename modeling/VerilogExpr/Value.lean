import VerilogExpr.Bits
import VerilogExpr.Real.Decimal
import VerilogExpr.Violation

/-!
# Constant values

A value is a number together with its type.  The values that `Value.ofInt`, `Value.ofReal` and
`Value.converted?` make are *proper*: a real number has type `real`, and an integer lies in the
range of an integral type.
-/

namespace VerilogExpr

inductive Number where
  | integer (n : Int)
  | real (x : Float)
deriving DecidableEq

structure Value where
  type : DataType
  number : Number
deriving DecidableEq

namespace Value

/-- The value of an integral type that has the low bits of an integer. -/
def truncated (t : DataType) (n : Int) : Value :=
  ⟨t, .integer (Bits.truncate n t.width t.isSigned)⟩

/-- An integer as a value of an integral type. -/
def ofInt (t : DataType) (n : Int) : Except Violation Value :=
  if t.isReal then .error (.integerOfReal n) else .ok (truncated t n)

def ofReal (x : Float) : Value := ⟨.real, .real x⟩

def truth (b : Bool) : Int := if b then 1 else 0

/-- The integer of an integral value. -/
def getInt? (v : Value) : Option Int :=
  match v.number with
  | .integer n => some n
  | .real _ => none

/-- Whether the value counts as true: all numbers but zero do. -/
def isTrue (v : Value) : Bool :=
  match v.number with
  | .integer n => n ≠ 0
  | .real x => x != 0

def toReal (v : Value) : Float :=
  match v.number with
  | .integer n => Real.ofInt n
  | .real x => x

/-- The value as an integer; reals are rounded, if they are finite. -/
def toInt? (v : Value) : Option Int :=
  match v.number with
  | .integer n => some n
  | .real x => Real.toInt? x

/-- The value as an index of a select; reals are none. -/
def toIndex? (v : Value) : Option Int :=
  match v.number with
  | .integer n => if Bits.isIndex n then some n else none
  | .real _ => none

/-- The value at another type.  The bits of an integral value are read with the sign of the new
type and then extended or cut to its width; a real is rounded first.  Only a real that is infinite
or not a number has no integral counterpart. -/
def converted? (v : Value) (t : DataType) : Option Value :=
  if t.isReal then some (ofReal v.toReal)
  else
    match v.number with
    | .integer n => some (truncated t (Bits.truncate n v.type.width t.isSigned))
    | .real x => (Real.toInt? x).map (truncated t)

/-- The value as a literal: `8'd200`, `-4'sd3` where the type states its width, and a plain number
elsewhere. -/
def text (v : Value) : String :=
  match v.number with
  | .real x => Real.text x
  | .integer n =>
    if v.type.isSized then
      (if n < 0 then "-" else "") ++ toString v.type.width ++ "'" ++
        (if v.type.isSigned then "s" else "") ++ "d" ++ toString n.natAbs
    else toString n

end Value

end VerilogExpr
