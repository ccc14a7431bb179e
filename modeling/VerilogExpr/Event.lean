import VerilogExpr.Arena.Text

/-!
# Events

What a log tells of the work in an arena: each expression that is built, each context that is
imposed and each value that is found.  The events of building and sizing are read off the arena
before and after, so that the operations themselves need not report them.
-/

namespace VerilogExpr

/-- A line of a log. -/
inductive Event where
  | built (id : ExprId) (description : String) (type : DataType)
  | sized (id : ExprId) (before required after : DataType)
  | evaluated (id : ExprId) (value : Value)

/-- How an expression is described when it is built.  Operands appear by their handles. -/
def Expr.summary : Expr → String
  | literal value => "const " ++ value.text
  | reference d => "primary " ++ d.name
  | bitSelect d _ => "bit select of " ++ d.name
  | partSelect d _ => "part select of " ++ d.name
  | element d indices => "element of " ++ d.name ++ " at " ++ indexText (indices.map ExprId.text)
  | unary op operand => op.symbol ++ operand.text
  | binary op left right => left.text ++ " " ++ op.symbol ++ " " ++ right.text
  | ternary op first second third =>
    first.text ++ " " ++ op.symbol ++ " " ++ second.text ++ " : " ++ third.text
  | concat operands => "concat of " ++ toString operands.length ++ " operands"
  | replicate count operands =>
    toString count ++ " times concat of " ++ toString operands.length ++ " operands"

namespace Event

/-- Whether the event belongs to the coarse log of what is built. -/
def isCoarse : Event → Bool
  | built _ _ _ => true
  | _ => false

def text : Event → String
  | built id description type => id.text ++ " = " ++ description ++ " : " ++ type.text
  | sized id before required after =>
    id.text ++ " : " ++ before.text ++ " in context `" ++ required.text ++ "` -> " ++ after.text
  | evaluated id value => id.text ++ " evaluates to " ++ value.text

/-- The contexts imposed between two arenas onto an expression and what is evaluated with it, each
expression before its operands. -/
def ofSizing (before after : Arena) (id : ExprId) : List Event :=
  after.fold (fun _ => [])
    (fun id n ofOperand =>
      match before.nodes[id]?, n.required with
      | some old, some required =>
        sized id old.type required n.type :: n.expr.forwarded.flatMap ofOperand
      | _, _ => []) id

/-- The events of building the expression that a later arena has at the size of an earlier one. -/
def ofBuilding (before after : Arena) : List Event :=
  match after.nodes[before.size]? with
  | some n =>
    n.expr.settled.flatMap (ofSizing before after) ++
      [built before.size n.expr.summary n.type]
  | none => []

def ofFound (found : List (ExprId × Value)) : List Event :=
  found.map fun (id, value) => evaluated id value

end Event

end VerilogExpr
