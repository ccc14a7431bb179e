import VerilogExpr.Expr

/-!
# Arenas

An arena holds the expressions of one unit in the order of their construction.  The operands of an
expression are older than the expression itself, so a computation over an expression can recurse
on its handle: `Arena.fold` is that recursion.

The context of an expression requires a type of it.  The expression records that type, and if it is
evaluated in its context it widens to the required width and hands its own type on to the operands
of the same context.  A context is imposed at most once on each expression.
-/

namespace VerilogExpr

/-- The expressions of one unit, oldest first. -/
structure Arena where
  nodes : Array Node
deriving DecidableEq

namespace Arena

/-- The arena without expressions. -/
def empty : Arena := ⟨#[]⟩

/-- The number of expressions, which is also the handle of the next one. -/
def size (a : Arena) : Nat := a.nodes.size

def node (a : Arena) (id : ExprId) : Except Violation Node :=
  match a.nodes[id]? with
  | some n => .ok n
  | none => .error (.unknownExpr id)

def type (a : Arena) (id : ExprId) : Except Violation DataType := do
  return (← a.node id).type

/-- The arena with the node of a handle replaced. -/
def replace (a : Arena) (id : ExprId) (n : Node) : Arena := ⟨a.nodes.setIfInBounds id n⟩

/-- The arena with one more expression, which no context has reached yet. -/
def push (a : Arena) (e : Expr) (type : DataType) : Arena := ⟨a.nodes.push ⟨e, type, none⟩⟩

/-- Computes a result for an expression from the results of its operands.  A handle that names
nothing, and an operand that is not older than its expression, are violations. -/
def fold {β : Type} (a : Arena) (violation : Violation → β)
    (visit : ExprId → Node → (ExprId → β) → β) (id : ExprId) : β :=
  match a.nodes[id]? with
  | none => violation (.unknownExpr id)
  | some n =>
    visit id n fun operand =>
      if operand < id then a.fold violation visit operand
      else violation (.youngerOperand id operand)
termination_by id

/-- Whether an expression has a constant value: literals and references to constant declarations
do, and so does everything else whose operands do. -/
def isConstant (a : Arena) (id : ExprId) : Except Violation Bool :=
  a.fold .error (fun _ n operandIsConstant =>
    if (n.expr.declaration?.map Declaration.isConstant).getD true then
      n.expr.operands.allM operandIsConstant
    else .ok false) id

/-- The nodes of `later` that are new or whose types differ from those in `a`, by handle. -/
def changes (a later : Arena) : List (ExprId × Node) :=
  later.nodes.toList.zipIdx.filterMap fun (n, id) =>
    match a.nodes[id]? with
    | some old => if old.type = n.type ∧ old.required = n.required then none else some (id, n)
    | none => some (id, n)

/-! ### Imposing contexts -/

/-- Imposes the type that a context requires onto an expression and everything that is evaluated in
its context. -/
def impose (a : Arena) (id : ExprId) (required : DataType) : Except Violation Arena :=
  match a.nodes[id]? with
  | none => .error (.unknownExpr id)
  | some n =>
    match n.required with
    | some present => .error (.secondContext required id present)
    | none =>
      n.expr.forwarded.foldlM
        (fun b operand =>
          if operand < id then b.impose operand (n.inContext required).type
          else .error (.youngerOperand id operand))
        (a.replace id (n.inContext required))
termination_by id

/-- Imposes the own type of an expression, so that it is evaluated at its own width. -/
def settle (a : Arena) (id : ExprId) : Except Violation Arena := do
  a.impose id (← a.type id)

end Arena

end VerilogExpr
