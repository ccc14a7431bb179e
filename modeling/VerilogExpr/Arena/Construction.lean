import VerilogExpr.Arena
import VerilogExpr.Typing

/-!
# Building expressions

`Arena.add` gives a new expression its type, which follows from the types of the operands, and
fixes the context of those operands that are not evaluated in the context of the new expression.
The handle of the new expression is the size of the arena before.
-/

namespace VerilogExpr.Arena

def demandOperand (a : Arena) (id : ExprId) : Except Violation Unit :=
  if id < a.size then .ok () else .error (.unknownOperand id)

/-- The type of an operand that has to be built already. -/
def operandType (a : Arena) (id : ExprId) : Except Violation DataType := do
  a.demandOperand id
  a.type id

def settleOperand (a : Arena) (id : ExprId) : Except Violation Arena := do
  a.demandOperand id
  a.settle id

def addBitSelect (a : Arena) (d : Declaration) (index : BitIndex) : Except Violation Arena :=
  if d.isReal then .error (.bitSelectOfReal d.name)
  else do
    let a ← index.operands.foldlM settleOperand a
    return a.push (.bitSelect d index) .bit

/-- Adds a part select, which is as wide as its bounds say. -/
def addPartSelect (a : Arena) (d : Declaration) (bounds : PartBounds) :
    Except Violation Arena :=
  if d.isReal then .error (.partSelectOfReal d.name)
  else
    match bounds with
    | .fixed left right =>
      .ok (a.push (.partSelect d bounds)
        (.sizedVector .unsigned (BitRange.mk left right).size))
    | .indexed base _ width =>
      if width = 0 then .error (.emptyPartSelect d.name)
      else do
        let a ← a.settleOperand base
        return a.push (.partSelect d bounds) (.sizedVector .unsigned width)

def settleIndex (d : Declaration) (a : Arena) (index : ExprId) : Except Violation Arena := do
  let type ← a.operandType index
  if type.isReal then .error (.realIndex index d.name) else a.settle index

def addElement (a : Arena) (d : Declaration) (indices : List ExprId) :
    Except Violation Arena :=
  match d.dimensions with
  | none => .error (.elementOfScalar d.name)
  | some dimensions =>
    if indices.length ≠ dimensions.count then
      .error (.indexCount indices.length d.name dimensions.count)
    else do
      let a ← indices.foldlM (settleIndex d) a
      return a.push (.element d indices) d.type

/-- Adds a unary operator.  A sink settles its operand; the others take its type. -/
def addUnary (a : Arena) (op : UnaryOp) (operand : ExprId) : Except Violation Arena := do
  let type ← a.operandType operand
  if op.rejectsReal && type.isReal then .error (.realOperand op.description)
  else if op.isSink then do
    let a ← a.settle operand
    return a.push (.unary op operand) .bit
  else .ok (a.push (.unary op operand) type)

def arithType (op : ArithOp) (left right : DataType) : Except Violation DataType :=
  if left.isReal || right.isReal then
    if (BinaryOp.arith op).rejectsReal then
      .error (.realOperand (BinaryOp.arith op).description)
    else .ok .real
  else DataType.common left right

/-- Adds a binary operator.

* bitwise operators and arithmetic: the common type, or `real`, which only arithmetic allows;
* powers and shifts settle the right operand, and a shift has the type of its left operand;
* comparisons impose the common type onto both operands, and logical operators settle them. -/
def addBinary (a : Arena) (op : BinaryOp) (left right : ExprId) : Except Violation Arena := do
  a.demandOperand left
  a.demandOperand right
  let leftType ← a.type left
  let rightType ← a.type right
  match op with
  | .bitwise _ =>
    let type ← leftType.common rightType
    return a.push (.binary op left right) type
  | .arith f =>
    let type ← arithType f leftType rightType
    return a.push (.binary op left right) type
  | .power =>
    let a ← a.settle right
    return a.push (.binary op left right) (leftType.power rightType)
  | .shift _ =>
    if leftType.isReal then .error (.realShift op.description)
    else do
      let a ← a.settle right
      return a.push (.binary op left right) leftType
  | .compare _ =>
    let common ← leftType.common rightType
    let a ← a.impose left common
    let a ← a.impose right common
    return a.push (.binary op left right) .bit
  | .logic _ =>
    let a ← a.settle left
    let a ← a.settle right
    return a.push (.binary op left right) .bit

def choiceType (left right : DataType) : Except Violation DataType :=
  if left.isReal || right.isReal then .ok .real else DataType.common left right

/-- Adds a ternary operator.  A choice settles its condition before it looks at the types of its
branches; a delay triple has the type of its middle operand. -/
def addTernary (a : Arena) (op : TernaryOp) (first second third : ExprId) :
    Except Violation Arena := do
  a.demandOperand first
  a.demandOperand second
  a.demandOperand third
  match op with
  | .conditional =>
    let a ← a.settle first
    let type ← choiceType (← a.type second) (← a.type third)
    return a.push (.ternary op first second third) type
  | .minTypMax =>
    let type ← a.type second
    return a.push (.ternary op first second third) type

/-- Settles an operand of a concatenation and adds its width to that of the operands before. -/
def settlePiece (state : Arena × Nat) (operand : ExprId) : Except Violation (Arena × Nat) := do
  let type ← state.1.operandType operand
  if type.isReal then .error (.realConcatOperand operand)
  else do
    let a ← state.1.settle operand
    return (a, state.2 + type.width)

/-- Settles the operands of a concatenation, and gives their total width. -/
def settlePieces (a : Arena) (operands : List ExprId) : Except Violation (Arena × Nat) :=
  if operands.isEmpty then .error .emptyConcat else operands.foldlM settlePiece (a, 0)

/-- Adds a concatenation, which is unsigned whatever its operands. -/
def addConcat (a : Arena) (operands : List ExprId) : Except Violation Arena := do
  let (a, width) ← a.settlePieces operands
  return a.push (.concat operands) (.sizedVector .unsigned width)

def addReplicate (a : Arena) (count : Nat) (operands : List ExprId) : Except Violation Arena :=
  if count = 0 then .error .emptyReplication
  else do
    let (a, width) ← a.settlePieces operands
    return a.push (.replicate count operands) (.sizedVector .unsigned (width * count))

def add (a : Arena) : Expr → Except Violation Arena
  | .literal value => .ok (a.push (.literal value) value.type)
  | .reference d => .ok (a.push (.reference d) d.type)
  | .bitSelect d index => a.addBitSelect d index
  | .partSelect d bounds => a.addPartSelect d bounds
  | .element d indices => a.addElement d indices
  | .unary op operand => a.addUnary op operand
  | .binary op left right => a.addBinary op left right
  | .ternary op first second third => a.addTernary op first second third
  | .concat operands => a.addConcat operands
  | .replicate count operands => a.addReplicate count operands

/-- The ways to change an arena. -/
inductive Action where
  | add (e : Expr)
  | impose (id : ExprId) (required : DataType)
  | settle (id : ExprId)

def act (a : Arena) : Action → Except Violation Arena
  | .add e => a.add e
  | .impose id required => a.impose id required
  | .settle id => a.settle id

def run (a : Arena) (actions : List Action) : Except Violation Arena := actions.foldlM act a

end VerilogExpr.Arena
