import VerilogExpr.Evaluation.Values

/-!
# Constant evaluation

Every expression is evaluated at its current type, which its context may have widened.  Before an
operator works on an operand, the bits of the operand are read with the sign of the operator and
extended to its width, so `4'hf + 4'h1` is zero by itself and sixteen in a context of eight bits.

The step from the operands of an expression to its value is `Evaluation.node`; `Arena.eval`
iterates it.
-/

namespace VerilogExpr

namespace Evaluation

variable (a : Arena) (eval : ExprId → Evaluation Value)

/-! ### Operands -/

/-- The value of an operand at the type of the operator. -/
def operandAs (id : ExprId) (t : DataType) : Evaluation Value := do
  let v ← eval id
  v.convertTo t

/-- The integer of an operand at the type of the operator. -/
def operandInt (id : ExprId) (t : DataType) : Evaluation Int := do
  let v ← operandAs eval id t
  v.demandInt

/-- The bits of an operand at its own width. -/
def operandBits (id : ExprId) : Evaluation Nat := do
  let v ← eval id
  v.demandBits

/-- The index that an operand computes; a value that is no index gives none. -/
def operandIndex (id : ExprId) : Evaluation (Option Int) := do
  let v ← eval id
  return v.toIndex?

/-! ### Selects -/

def bitBounds : BitIndex → Evaluation (Option BitRange)
  | .fixed index => return some ⟨index, index⟩
  | .computed id => do
    let index ← operandIndex eval id
    return index.map fun i => ⟨i, i⟩

def partBounds (range : BitRange) : PartBounds → Evaluation (Option BitRange)
  | .fixed left right => return some ⟨left, right⟩
  | .indexed base direction width => do
    match ← operandIndex eval base with
    | some index =>
      let bounds ← (range.indexedBounds index width direction : Except Fault BitRange)
      return some bounds
    | none => return none

def bitSelect (t : DataType) (d : Declaration) (index : BitIndex) : Evaluation Value := do
  let bounds ← bitBounds eval index
  let (bits, offset) ← d.select bounds
  Value.result t ((bits >>> offset % 2 : Nat) : Int)

/-- A part select.  Its type cuts off the bits above the selected ones. -/
def partSelect (t : DataType) (d : Declaration) (bounds : PartBounds) : Evaluation Value := do
  let bounds ← partBounds eval d.bitRange bounds
  let (bits, offset) ← d.select bounds
  Value.result t ((bits >>> offset : Nat) : Int)

def elementIndex (d : Declaration) (id : ExprId) : Evaluation Int := do
  match ← operandIndex eval id with
  | some index => return index
  | none => stop (.failure (.indexNotInteger d))

def element (t : DataType) (d : Declaration) (indices : List ExprId) : Evaluation Value := do
  let indices ← indices.mapM (elementIndex eval d)
  d.elementValue t indices

/-! ### Operators -/

def unary (t : DataType) (op : UnaryOp) (operand : ExprId) : Evaluation Value :=
  if op.isSink then do
    let v ← eval operand
    op.sinkValue t v
  else do
    let v ← operandAs eval operand t
    op.forwardingValue t v

def bitwise (t : DataType) (op : BitwiseOp) (left right : ExprId) : Evaluation Value := do
  let v ← operandAs eval left t
  let w ← operandAs eval right t
  if t.isReal then stop (.violation (.realArithmetic (BinaryOp.bitwise op).description))
  else do
    let x ← v.demandInt
    let y ← w.demandInt
    Value.result t (op.apply t.width x y)

def arith (t : DataType) (op : ArithOp) (left right : ExprId) : Evaluation Value := do
  let v ← operandAs eval left t
  let w ← operandAs eval right t
  if t.isReal then op.onReals v.toReal w.toReal
  else do
    let x ← v.demandInt
    let y ← w.demandInt
    op.onIntegers t x y

/-- A power.  The bits of the exponent are read at its own width. -/
def power (t : DataType) (left right : ExprId) : Evaluation Value :=
  if t.isReal then do
    let v ← eval left
    let w ← eval right
    return .ofReal (v.toReal.pow w.toReal)
  else do
    let base ← operandInt eval left t
    let exponent ← operandBits eval right
    Value.result t (Bits.powMod (Bits.mask base t.width) exponent (Bits.modulus t.width))

/-- A shift.  The bits of the amount are read at its own width. -/
def shift (t : DataType) (op : ShiftOp) (left right : ExprId) : Evaluation Value := do
  let x ← operandInt eval left t
  let amount ← operandBits eval right
  Value.result t (op.apply t.isSigned t.width x amount)

/-- A comparison, at the common type of its operands. -/
def compare (t : DataType) (op : CompareOp) (left right : ExprId) : Evaluation Value := do
  let leftType ← (a.type left : Except Fault DataType)
  let rightType ← (a.type right : Except Fault DataType)
  let common ← (leftType.common rightType : Except Fault DataType)
  let x ← operandInt eval left common
  let y ← operandInt eval right common
  Value.result t (Value.truth (op.apply x y))

/-- A logical operator.  Both operands are evaluated, whatever the first one says. -/
def logic (t : DataType) (op : LogicOp) (left right : ExprId) : Evaluation Value := do
  let v ← eval left
  let w ← eval right
  Value.result t (Value.truth (op.apply v.isTrue w.isTrue))

def binary (t : DataType) : BinaryOp → ExprId → ExprId → Evaluation Value
  | .bitwise op => bitwise eval t op
  | .arith op => arith eval t op
  | .power => power eval t
  | .shift op => shift eval t op
  | .compare op => compare a eval t op
  | .logic op => logic eval t op

/-- A ternary operator.  Of a choice only the branch taken is evaluated, of a delay triple only the
typical delay. -/
def ternary (t : DataType) : TernaryOp → ExprId → ExprId → ExprId → Evaluation Value
  | .conditional, first, second, third => do
    let condition ← eval first
    operandAs eval (if condition.isTrue then second else third) t
  | .minTypMax, _, second, _ => operandAs eval second t

/-! ### Concatenations -/

/-- Appends the bits of an operand to those of the operands before. -/
def appendBits (acc : Nat) (id : ExprId) : Evaluation Nat := do
  let v ← eval id
  let bits ← v.demandBits
  return (acc <<< v.type.width) ||| bits

def concatBits (operands : List ExprId) : Evaluation Nat := operands.foldlM (appendBits eval) 0

/-- The bits of `count` copies of a concatenation, `width` bits in all. -/
def replicateBits (count width : Nat) (operands : List ExprId) : Evaluation Nat := do
  let chunk ← concatBits eval operands
  if count = 0 then stop (.violation .emptyReplication)
  else return Nat.repeat (fun acc => (acc <<< (width / count)) ||| chunk) count 0

/-! ### Nodes -/

/-- The value of an expression at its type, given the values of its operands. -/
def node (n : Node) : Evaluation Value :=
  match n.expr with
  | .literal value => lift (value.convertTo n.type)
  | .reference d => lift (d.referenceValue n.type)
  | .bitSelect d index => bitSelect eval n.type d index
  | .partSelect d bounds => partSelect eval n.type d bounds
  | .element d indices => element eval n.type d indices
  | .unary op operand => unary eval n.type op operand
  | .binary op left right => binary a eval n.type op left right
  | .ternary op first second third => ternary eval n.type op first second third
  | .concat operands => do
    let bits ← concatBits eval operands
    Value.result n.type bits
  | .replicate count operands => do
    let bits ← replicateBits eval count n.type.width operands
    Value.result n.type bits

end Evaluation

/-- The constant value of an expression, with the values of all expressions evaluated for it,
operands first. -/
def Arena.eval (a : Arena) (id : ExprId) : Evaluation Value :=
  a.fold (fun v => Evaluation.stop (.violation v))
    (fun id n operand => do
      let value ← Evaluation.node a operand n
      Evaluation.record id value
      return value) id

end VerilogExpr
