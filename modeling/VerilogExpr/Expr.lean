import VerilogExpr.Declaration
import VerilogExpr.Operator
import VerilogExpr.Typing

/-!
# Expressions

An expression names its operands by their handles.  The operands fall into two classes: those that
the context of the expression reaches (`Expr.forwarded`) and those whose context is fixed when the
expression is built (`Expr.settled`).
-/

namespace VerilogExpr

inductive BitIndex where
  | fixed (index : Int)
  | computed (index : ExprId)
deriving DecidableEq, Repr

inductive PartBounds where
  /-- The bounds `[left:right]`. -/
  | fixed (left right : Int)
  /-- The bounds `[base +: width]` or `[base -: width]`. -/
  | indexed (base : ExprId) (direction : SelectDirection) (width : Nat)
deriving DecidableEq, Repr

/-- An expression over earlier expressions. -/
inductive Expr where
  | literal (value : Value)
  | reference (declaration : Declaration)
  | bitSelect (declaration : Declaration) (index : BitIndex)
  | partSelect (declaration : Declaration) (bounds : PartBounds)
  /-- An element of an array, with one index per dimension. -/
  | element (declaration : Declaration) (indices : List ExprId)
  | unary (op : UnaryOp) (operand : ExprId)
  | binary (op : BinaryOp) (left right : ExprId)
  | ternary (op : TernaryOp) (first second third : ExprId)
  | concat (operands : List ExprId)
  | replicate (count : Nat) (operands : List ExprId)
deriving DecidableEq

namespace BitIndex

def operands : BitIndex → List ExprId
  | fixed _ => []
  | computed index => [index]

end BitIndex

namespace PartBounds

def operands : PartBounds → List ExprId
  | fixed _ _ => []
  | indexed base _ _ => [base]

end PartBounds

namespace Expr

/-- The operands, in the order in which they are written. -/
def operands : Expr → List ExprId
  | literal _ => []
  | reference _ => []
  | bitSelect _ index => index.operands
  | partSelect _ bounds => bounds.operands
  | element _ indices => indices
  | unary _ operand => [operand]
  | binary _ left right => [left, right]
  | ternary _ first second third => [first, second, third]
  | concat operands => operands
  | replicate _ operands => operands

/-- The operands that are evaluated in the context of the expression itself. -/
def forwarded : Expr → List ExprId
  | unary op operand => if op.isSink then [] else [operand]
  | binary op left right =>
    match op with
    | .bitwise _ => [left, right]
    | .arith _ => [left, right]
    | .power => [left]
    | .shift _ => [left]
    | .compare _ => []
    | .logic _ => []
  | ternary op first second third =>
    match op with
    | .conditional => [second, third]
    | .minTypMax => [first, second, third]
  | _ => []

/-- The operands whose context is fixed when the expression is built, in the order in which that
happens.  A comparison sizes both its operands to their common type; the others are sized to their
own. -/
def settled : Expr → List ExprId
  | literal _ => []
  | reference _ => []
  | bitSelect _ index => index.operands
  | partSelect _ bounds => bounds.operands
  | element _ indices => indices
  | unary op operand => if op.isSink then [operand] else []
  | binary op left right =>
    match op with
    | .bitwise _ => []
    | .arith _ => []
    | .power => [right]
    | .shift _ => [right]
    | .compare _ => [left, right]
    | .logic _ => [left, right]
  | ternary op first _ _ =>
    match op with
    | .conditional => [first]
    | .minTypMax => []
  | concat operands => operands
  | replicate _ operands => operands

/-- Whether a context widens the expression.  The others keep their type in every context. -/
def isForwarding : Expr → Bool
  | unary op _ => !op.isSink
  | binary op _ _ => !op.isSink
  | ternary _ _ _ _ => true
  | _ => false

/-- The declaration that the expression refers to, if it does. -/
def declaration? : Expr → Option Declaration
  | reference d => some d
  | bitSelect d _ => some d
  | partSelect d _ => some d
  | element d _ => some d
  | _ => none

/-- Whether the text of the expression stands in parentheses where it is an operand. -/
def isOperation : Expr → Bool
  | unary _ _ => true
  | binary _ _ _ => true
  | ternary _ _ _ _ => true
  | _ => false

end Expr

/-- Where an expression stands between its construction and its use. -/
inductive SizingState where
  /-- The type is the one that follows from the operands. -/
  | constructed
  | finalized
deriving DecidableEq, Repr

/-- An expression in an arena, with its type and the type that its context requires, once that is
known. -/
structure Node where
  expr : Expr
  type : DataType
  required : Option DataType
deriving DecidableEq

namespace Node

def state (n : Node) : SizingState := if n.required.isSome then .finalized else .constructed

/-- The width at which the expression is used.  A real context has no width to offer. -/
def usedWidth (n : Node) : Nat :=
  match n.required with
  | some required => if required.isReal then n.type.width else required.width
  | none => n.type.width

/-- The node in a context: it remembers the required type, and is widened to it if its context
reaches its operands. -/
def inContext (n : Node) (required : DataType) : Node :=
  { n with
    type := if n.expr.isForwarding then n.type.widened required else n.type
    required := some required }

end Node

end VerilogExpr
