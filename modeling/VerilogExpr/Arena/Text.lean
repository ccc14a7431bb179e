import VerilogExpr.Arena

/-!
# Text of expressions

`Arena.text` writes an expression as source text; an operand that is itself an operation stands in
parentheses.  `Arena.dump` lists an expression and everything that it depends on, one line each,
operands before the expressions that use them.
-/

namespace VerilogExpr

def bracedText (operands : List String) : String :=
  "\x7b" ++ String.intercalate ", " operands ++ "\x7d"

/-- The index of a bit select, given the text of computed indices. -/
def BitIndex.text (textOf : ExprId → Except Violation String) :
    BitIndex → Except Violation String
  | fixed index => .ok (toString index)
  | computed index => textOf index

/-- The bounds of a part select, given the text of computed ones. -/
def PartBounds.text (textOf : ExprId → Except Violation String) :
    PartBounds → Except Violation String
  | fixed left right => .ok (toString left ++ ":" ++ toString right)
  | indexed base direction width => do
    let base ← textOf base
    let sign := match direction with
      | .upward => " +: "
      | .downward => " -: "
    return base ++ sign ++ toString width

/-- An expression, given the text of its operands, plain and in parentheses where they need them. -/
def Expr.text (plain wrapped : ExprId → Except Violation String) :
    Expr → Except Violation String
  | literal value => .ok value.text
  | reference d => .ok d.name
  | bitSelect d index => do
    let index ← index.text plain
    return d.name ++ "[" ++ index ++ "]"
  | partSelect d bounds => do
    let bounds ← bounds.text plain
    return d.name ++ "[" ++ bounds ++ "]"
  | element d indices => do
    let indices ← indices.mapM plain
    return d.name ++ String.join (indices.map fun index => "[" ++ index ++ "]")
  | unary op operand => do
    let operand ← wrapped operand
    return op.symbol ++ operand
  | binary op left right => do
    let left ← wrapped left
    let right ← wrapped right
    return left ++ " " ++ op.symbol ++ " " ++ right
  | ternary op first second third => do
    let first ← wrapped first
    let second ← wrapped second
    let third ← wrapped third
    return first ++ " " ++ op.symbol ++ " " ++ second ++ " : " ++ third
  | concat operands => do
    let operands ← operands.mapM plain
    return bracedText operands
  | replicate count operands => do
    let operands ← operands.mapM plain
    return bracedText [toString count ++ bracedText operands]

/-- What kind of expression this is, as a dump shows it. -/
def Expr.label : Expr → String
  | literal value => "const " ++ value.text
  | reference d => "primary " ++ d.name
  | bitSelect d _ => "bit select " ++ d.name
  | partSelect d _ => "part select " ++ d.name
  | element d _ => "array element " ++ d.name
  | unary op _ => "unary " ++ op.symbol
  | binary op _ _ => "binary " ++ op.symbol
  | ternary .conditional _ _ _ => "condition"
  | ternary .minTypMax _ _ _ => "mintypmax"
  | concat _ => "concat"
  | replicate count _ => "replicate " ++ toString count

namespace Arena

/-- Puts the text of an operation in parentheses. -/
def wrap (a : Arena) (textOf : ExprId → Except Violation String) (id : ExprId) :
    Except Violation String := do
  let n ← a.node id
  let text ← textOf id
  return if n.expr.isOperation then "(" ++ text ++ ")" else text

def text (a : Arena) (id : ExprId) : Except Violation String :=
  a.fold .error (fun _ n textOf => n.expr.text textOf (a.wrap textOf)) id

/-- Adds an expression to a list of handles, behind everything that it depends on.  What is in the
list already stays where it is. -/
def listAfter (a : Arena) (id : ExprId) : List ExprId → Except Violation (List ExprId) :=
  a.fold (fun v _ => .error v)
    (fun id n list listed =>
      if id ∈ listed then .ok listed
      else do
        let listed ← n.expr.operands.foldlM (fun listed operand => list operand listed) listed
        return listed ++ [id]) id

/-- An expression and everything that it depends on, each once, operands first. -/
def listing (a : Arena) (id : ExprId) : Except Violation (List ExprId) := a.listAfter id []

def dumpLine (a : Arena) (id : ExprId) : Except Violation String := do
  let n ← a.node id
  let operands := n.expr.operands
  return id.text ++ " = " ++ n.expr.label ++
    (if operands.isEmpty then ""
      else " " ++ String.intercalate ", " (operands.map ExprId.text)) ++
    " : " ++ n.type.text ++
    (match n.required with
      | some required => " in " ++ required.text
      | none => "") ++ "\n"

def dump (a : Arena) (id : ExprId) : Except Violation String := do
  let ids ← a.listing id
  let lines ← ids.mapM a.dumpLine
  return String.join lines

end Arena

end VerilogExpr
