import VerilogExpr.Arena.Construction
import VerilogExpr.Elaboration.Basic
import VerilogExpr.Evaluation.Nodes

/-!
# Elaboration

The functions here check the operands that a user wrote before they build an expression from them,
and impose the contexts in which expressions stand.  Checking reads the arena; only the last act of
a step changes it.
-/

namespace VerilogExpr

/-- The options of a session with the arena of one unit. -/
structure Elaborator where
  options : Options
  arena : Arena

namespace Elaborator

variable (e : Elaborator)

/-! ### Reports -/

def text (id : ExprId) : Elaboration String := (e.arena.text id : Except Violation String)

/-- Notes the value that was found for an expression, if that is wanted. -/
def reportValue (id : ExprId) (value : Value) : Elaboration Unit :=
  if e.options.reportConstants then do
    let text ← e.text id
    Elaboration.report (valueNote text value)
  else return ()

/-- Notes the context of an expression, if that is wanted. -/
def reportContext (id : ExprId) (required : DataType) : Elaboration Unit :=
  if e.options.reportContexts then do
    let text ← e.text id
    Elaboration.report (contextNote text required)
  else return ()

/-- Notes the type of an expression in the arena that building it has led to, if that is wanted. -/
def reportType (arena : Arena) (id : ExprId) : Elaboration Unit :=
  if e.options.reportTypes then do
    let text ← (arena.text id : Except Violation String)
    let type ← (arena.type id : Except Violation DataType)
    Elaboration.report (typeNote text type)
  else return ()

/-- Rejects an expression, shown by its text. -/
def rejectExpr {α : Type} (id : ExprId) (reason : String → Rejection) : Elaboration α := do
  let text ← e.text id
  Elaboration.reject (reason text)

/-! ### Checks -/

def isConstant (id : ExprId) : Elaboration Bool := (e.arena.isConstant id : Except Violation Bool)

def demandIntegral (role : OperandRole) (id : ExprId) : Elaboration Unit := do
  let type ← (e.arena.type id : Except Violation DataType)
  if type.isReal then e.rejectExpr id (.realOperand role) else return ()

def demandSelectable (d : Declaration) : Elaboration Unit :=
  if d.isReal then Elaboration.reject (.selectOfReal d) else return ()

/-- Rejects the operand of a unary operator if it is real and the operator needs bits. -/
def demandUnary (op : UnaryOp) (operand : ExprId) : Elaboration Unit :=
  if op.rejectsReal then e.demandIntegral (.operator op.description) operand else return ()

/-- Rejects the real ones among the operands of a binary operator that needs bits.  Comparisons are
defined on bits alone. -/
def demandBinary (op : BinaryOp) (left right : ExprId) : Elaboration Unit :=
  if op.rejectsReal || op.isComparison then
    Elaboration.checkAll (e.demandIntegral (.operator op.description)) [left, right]
  else return ()

/-- Rejects an empty concatenation and real operands of a concatenation. -/
def demandPieces (operands : List ExprId) : Elaboration Unit :=
  if operands.isEmpty then Elaboration.reject .emptyConcat
  else Elaboration.checkAll (e.demandIntegral .concatenation) operands

def warnOutside (d : Declaration) (index : Int) (shape : String) : Elaboration Unit :=
  Elaboration.reportIf e.options.warnSelectRange (outsideWarning d index shape)

/-- Warns of the first index outside the declared range. -/
def warnSelect (d : Declaration) (indices : List Int) : Elaboration Unit :=
  match indices.find? fun index => !d.bitRange.contains index with
  | some index => e.warnOutside d index d.bitRange.text
  | none => return ()

/-! ### Values -/

def evaluate (id : ExprId) : Elaboration Value := do
  let value ← Elaboration.ofEvaluation (e.arena.eval id)
  e.reportValue id value
  return value

def evaluateIndex (id : ExprId) : Elaboration Int := do
  let value ← e.evaluate id
  match value.toIndex? with
  | some index => return index
  | none => e.rejectExpr id .notInteger

/-- The index that an operand has to be a constant for. -/
def constantIndex (role : OperandRole) (id : ExprId) : Elaboration Int := do
  if ← e.isConstant id then e.evaluateIndex id else e.rejectExpr id (.notConstant role)

/-- The index that an operand computes if it is a constant. -/
def constantIndex? (id : ExprId) : Elaboration (Option Int) := do
  if ← e.isConstant id then
    let index ← e.evaluateIndex id
    return some index
  else return none

/-! ### Building -/

def build (expr : Expr) : Elaboration Arena := do
  let arena ← (e.arena.add expr : Except Violation Arena)
  Elaboration.log (Event.ofBuilding e.arena arena)
  e.reportType arena e.arena.size
  return arena

/-- Builds a plain decimal literal, which is an `integer`. -/
def integerLiteral (n : Int) : Elaboration Arena :=
  e.build (.literal (.truncated .integer n))

/-- Builds a based literal such as `8'shff` or `'h3`. -/
def basedLiteral (sign : Sign) (size : Option Nat) (n : Int) : Elaboration Arena :=
  match size with
  | some 0 => Elaboration.reject .emptyLiteral
  | some width => e.build (.literal (.truncated (.sizedVector sign width) n))
  | none => e.build (.literal (.truncated (.unsizedVector sign) n))

def unary (op : UnaryOp) (operand : ExprId) : Elaboration Arena := do
  e.demandUnary op operand
  e.build (.unary op operand)

def binary (op : BinaryOp) (left right : ExprId) : Elaboration Arena := do
  e.demandBinary op left right
  e.build (.binary op left right)

def concat (operands : List ExprId) : Elaboration Arena := do
  e.demandPieces operands
  e.build (.concat operands)

/-- Builds a replication, whose count has to be a positive constant. -/
def replicate (count : ExprId) (operands : List ExprId) : Elaboration Arena := do
  let n ← e.constantIndex .replicationCount count
  if n ≤ 0 then e.rejectExpr count (.replicationCount · n)
  else do
    e.demandPieces operands
    e.build (.replicate n.toNat operands)

/-- Builds a bit select.  A constant index becomes part of it. -/
def bitSelect (d : Declaration) (index : ExprId) : Elaboration Arena := do
  demandSelectable d
  e.demandIntegral .bitSelectIndex index
  match ← e.constantIndex? index with
  | some i => do
    e.warnSelect d [i]
    e.build (.bitSelect d (.fixed i))
  | none => e.build (.bitSelect d (.computed index))

/-- Builds a part select with constant bounds, which have to run in the declared direction. -/
def partSelect (d : Declaration) (left right : ExprId) : Elaboration Arena := do
  demandSelectable d
  let (l, r) ← Elaboration.both (e.constantIndex .partSelectBound left)
    (e.constantIndex .partSelectBound right)
  if d.bitRange.sameOrder l r then do
    e.warnSelect d [l, r]
    e.build (.partSelect d (.fixed l r))
  else Elaboration.reject (.oppositeSelect l r d)

/-- Builds an indexed part select, whose width has to be a positive constant.  A constant base makes
the bounds constant. -/
def indexedSelect (d : Declaration) (base : ExprId) (direction : SelectDirection)
    (width : ExprId) : Elaboration Arena := do
  demandSelectable d
  e.demandIntegral .partSelectBase base
  let w ← e.constantIndex .partSelectWidth width
  if w ≤ 0 then e.rejectExpr width .partSelectWidth
  else
    match ← e.constantIndex? base with
    | some b => do
      let bounds ← (d.bitRange.indexedBounds b w.toNat direction : Except Violation BitRange)
      e.warnSelect d [bounds.left, bounds.right]
      e.build (.partSelect d (.fixed bounds.left bounds.right))
    | none => e.build (.partSelect d (.indexed base direction w.toNat))

/-- Warns of a constant index outside its dimension. -/
def warnElement (d : Declaration) (dimensions : Dimensions) (place : BitRange × ExprId) :
    Elaboration Unit := do
  match ← e.constantIndex? place.2 with
  | some i => if place.1.contains i then return () else e.warnOutside d i dimensions.text
  | none => return ()

def element (d : Declaration) (indices : List ExprId) : Elaboration Arena :=
  match d.dimensions with
  | none => Elaboration.reject (.notAnArray d)
  | some dimensions =>
    if indices.length ≠ dimensions.count then
      Elaboration.reject (.indexCount d dimensions indices.length)
    else do
      Elaboration.checkAll (e.demandIntegral .arrayIndex) indices
      (dimensions.ranges.zip indices).forM (e.warnElement d dimensions)
      e.build (.element d indices)

/-! ### Contexts -/

def impose (id : ExprId) (required : DataType) : Elaboration Arena := do
  e.reportContext id required
  let arena ← (e.arena.impose id required : Except Violation Arena)
  Elaboration.log (Event.ofSizing e.arena arena id)
  return arena

/-- Lets an expression be evaluated at its own width. -/
def settle (id : ExprId) : Elaboration Arena := do
  let type ← (e.arena.type id : Except Violation DataType)
  e.impose id type

end Elaborator

end VerilogExpr
