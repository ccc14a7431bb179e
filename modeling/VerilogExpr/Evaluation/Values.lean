import VerilogExpr.Evaluation.Basic
import VerilogExpr.Operator.Meaning

/-!
# Operations on values

What evaluation does with values once it has them: it converts them, reads their bits, looks them
up in declarations and applies operators to them.  Each of these operations either succeeds or
says why there is no constant value.
-/

namespace VerilogExpr

namespace Value

def convertTo (v : Value) (t : DataType) : Except Fault Value :=
  match v.converted? t with
  | some converted => .ok converted
  | none => .error (.failure (.notConvertible v t))

/-- The integer of a value; reals are rounded. -/
def demandInt (v : Value) : Except Fault Int :=
  match v.toInt? with
  | some n => .ok n
  | none => .error (.failure (.noInteger v))

/-- The bits of a value at the width of its own type. -/
def demandBits (v : Value) : Except Fault Nat := do
  let n ← v.demandInt
  return Bits.mask n v.type.width

/-- The result of an operation of the given type, which has to be integral. -/
def result (t : DataType) (n : Int) : Except Fault Value := ofInt t n

end Value

namespace Declaration

/-- The value that a select may read: that of a constant. -/
def constantValue? (d : Declaration) : Option Value := if d.isConstant then d.value else none

/-- The bits of a declaration's value, and the number of bits below the selected ones.  Both bounds
have to lie in the declared range. -/
def select (d : Declaration) (bounds : Option BitRange) : Except Fault (Nat × Nat) :=
  match d.constantValue?, bounds with
  | none, _ => .error (.failure (.notConstant d))
  | some _, none => .error (.failure (.selectOutside d))
  | some value, some ⟨left, right⟩ =>
    if d.bitRange.contains left && d.bitRange.contains right then
      match d.bitRange.lsbOffset? left, d.bitRange.lsbOffset? right with
      | some _, some offset => do
        let n ← value.demandInt
        return (Bits.mask n d.bitRange.size, offset)
      | _, _ => .error (.violation (.selectBeyond left right d.bitRange))
    else .error (.failure (.selectOutside d))

/-- The element of a constant array at the given indices, at the given type. -/
def elementValue (d : Declaration) (t : DataType) (indices : List Int) : Except Fault Value :=
  match d.dimensions with
  | none => .error (.violation (.elementOfScalar d.description))
  | some dimensions =>
    if d.isConstant then
      match dimensions.position? indices with
      | none => .error (.failure (.elementOutside indices dimensions d))
      | some position =>
        match d.elements[position]? with
        | some value => value.convertTo t
        | none => .error (.failure (.elementMissing indices d))
    else .error (.failure (.notConstant d))

def referenceValue (d : Declaration) (t : DataType) : Except Fault Value :=
  if d.isConstant then
    match d.value with
    | some value => value.convertTo t
    | none => .error (.failure (.noValue d))
  else .error (.failure (.notConstant d))

end Declaration

namespace ArithOp

def onReals (op : ArithOp) (x y : Float) : Except Fault Value :=
  match op with
  | add => .ok (.ofReal (x + y))
  | sub => .ok (.ofReal (x - y))
  | mul => .ok (.ofReal (x * y))
  | div =>
    if y == 0 then .error (.failure (.divisionByZero (.arith div)))
    else .ok (.ofReal (x / y))
  | mod => .error (.violation (.realArithmetic (BinaryOp.arith mod).description))

def onIntegers (t : DataType) (op : ArithOp) (x y : Int) : Except Fault Value :=
  match op.apply? x y with
  | some n => Value.result t n
  | none => .error (.failure (.divisionByZero (.arith op)))

end ArithOp

namespace UnaryOp

/-- A sink applied to the value of its operand.  The only sink besides the reductions is the
negation of a truth value. -/
def sinkValue (t : DataType) (op : UnaryOp) (v : Value) : Except Fault Value :=
  match op with
  | reduce reduction => do
    let bits ← v.demandBits
    Value.result t (Value.truth (reduction.apply v.type.width (Bits.onesCount bits)))
  | _ => Value.result t (Value.truth (!v.isTrue))

/-- An operator that is no sink, applied to the value of its operand at its own type. -/
def forwardingValue (t : DataType) (op : UnaryOp) (v : Value) : Except Fault Value :=
  match op, v.number with
  | minus, .real x => .ok (.ofReal (-x))
  | minus, .integer n => Value.result t (-n)
  | bitNot, .integer n => Value.result t (-n - 1)
  | _, number => .ok ⟨t, number⟩

end UnaryOp

end VerilogExpr
