import VerilogExpr.Elaborator

/-!
# Steps of elaboration

Everything that a user can ask of the elaborator, as data, and what it answers.  Steps can be
stored, listed and quantified over.
-/

namespace VerilogExpr.Elaborator

variable (e : Elaborator)

/-- The steps of an elaboration. -/
inductive Step where
  | integerLiteral (n : Int)
  | basedLiteral (sign : Sign) (size : Option Nat) (n : Int)
  | realLiteral (x : Float)
  | reference (d : Declaration)
  | unary (op : UnaryOp) (operand : ExprId)
  | binary (op : BinaryOp) (left right : ExprId)
  | ternary (op : TernaryOp) (first second third : ExprId)
  | concat (operands : List ExprId)
  | replicate (count : ExprId) (operands : List ExprId)
  | bitSelect (d : Declaration) (index : ExprId)
  | partSelect (d : Declaration) (left right : ExprId)
  | indexedSelect (d : Declaration) (base : ExprId) (direction : SelectDirection) (width : ExprId)
  | element (d : Declaration) (indices : List ExprId)
  /-- An expression is assigned to a target of the given type. -/
  | assign (target : DataType) (id : ExprId)
  /-- An expression is connected to a terminal of the given width. -/
  | connect (id : ExprId) (width : Nat)
  | settle (id : ExprId)
  | impose (id : ExprId) (required : DataType)
  | evaluate (id : ExprId)
  | evaluateIndex (id : ExprId)

inductive Answer where
  | expr (id : ExprId)
  | done
  | value (v : Value)
  | index (n : Int)

/-- A step that builds an expression answers with its handle. -/
def answerExpr (x : Elaboration Arena) : Elaboration (Answer × Arena) := do
  let arena ← x
  return (.expr e.arena.size, arena)

/-- A step that imposes a context has no answer. -/
def answerDone (x : Elaboration Arena) : Elaboration (Answer × Arena) := do
  let arena ← x
  return (.done, arena)

/-- The answer of a step and the arena after it. -/
def step : Step → Elaboration (Answer × Arena)
  | .integerLiteral n => e.answerExpr (e.integerLiteral n)
  | .basedLiteral sign size n => e.answerExpr (e.basedLiteral sign size n)
  | .realLiteral x => e.answerExpr (e.build (.literal (.ofReal x)))
  | .reference d => e.answerExpr (e.build (.reference d))
  | .unary op operand => e.answerExpr (e.unary op operand)
  | .binary op left right => e.answerExpr (e.binary op left right)
  | .ternary op first second third => e.answerExpr (e.build (.ternary op first second third))
  | .concat operands => e.answerExpr (e.concat operands)
  | .replicate count operands => e.answerExpr (e.replicate count operands)
  | .bitSelect d index => e.answerExpr (e.bitSelect d index)
  | .partSelect d left right => e.answerExpr (e.partSelect d left right)
  | .indexedSelect d base direction width =>
    e.answerExpr (e.indexedSelect d base direction width)
  | .element d indices => e.answerExpr (e.element d indices)
  | .assign target id => answerDone (e.impose id target)
  | .connect id width => answerDone (e.impose id (.sizedVector .unsigned width))
  | .settle id => answerDone (e.settle id)
  | .impose id required => answerDone (e.impose id required)
  | .evaluate id => do
    let value ← e.evaluate id
    return (.value value, e.arena)
  | .evaluateIndex id => do
    let index ← e.evaluateIndex id
    return (.index index, e.arena)

end VerilogExpr.Elaborator
