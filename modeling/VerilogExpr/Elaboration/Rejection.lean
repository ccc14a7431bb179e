import VerilogExpr.Evaluation.Basic

/-!
# What elaboration tells the user

The reasons to reject an input, the warning of an index outside a declared shape, and the notes
that options ask for.  Expressions appear by their text.
-/

namespace VerilogExpr

/-- What an operand is used for. -/
inductive OperandRole where
  | operator (description : String)
  | concatenation
  | replicationCount
  | bitSelectIndex
  | partSelectBound
  | partSelectBase
  | partSelectWidth
  | arrayIndex
deriving DecidableEq, Repr

def OperandRole.text : OperandRole → String
  | operator description => description
  | concatenation => "concatenation"
  | replicationCount => "replication count"
  | bitSelectIndex => "bit select index"
  | partSelectBound => "part select bound"
  | partSelectBase => "part select base"
  | partSelectWidth => "part select width"
  | arrayIndex => "array index"

/-- A reason to reject the user's input. -/
inductive Rejection where
  | evaluation (failure : EvalFailure)
  | emptyLiteral
  | realOperand (role : OperandRole) (expr : String)
  | notConstant (role : OperandRole) (expr : String)
  | notInteger (expr : String)
  | replicationCount (expr : String) (count : Int)
  | emptyConcat
  | selectOfReal (declaration : Declaration)
  | oppositeSelect (left right : Int) (declaration : Declaration)
  | partSelectWidth (expr : String)
  | notAnArray (declaration : Declaration)
  | indexCount (declaration : Declaration) (dimensions : Dimensions) (given : Nat)

/-- The note that shows how a declaration was written. -/
def declaredAs (d : Declaration) (shape : String) : String := d.name ++ " is declared as " ++ shape

def Rejection.diagnostic : Rejection → Diagnostic
  | evaluation failure => ⟨.error, failure.message, []⟩
  | emptyLiteral => ⟨.error, "size of a literal must be positive", []⟩
  | realOperand role expr =>
    ⟨.error, "illegal real type in operand of " ++ role.text, ["`" ++ expr ++ "` is real"]⟩
  | notConstant role expr => ⟨.error, role.text ++ " `" ++ expr ++ "` is not constant", []⟩
  | notInteger expr => ⟨.error, "`" ++ expr ++ "` is not an integer", []⟩
  | replicationCount expr count =>
    ⟨.error, "replication count `" ++ expr ++ "` must be positive",
      ["count evaluates to " ++ toString count]⟩
  | emptyConcat => ⟨.error, "concatenation must not be empty", []⟩
  | selectOfReal d => ⟨.error, "cannot select bits of " ++ d.description, []⟩
  | oppositeSelect left right d =>
    ⟨.error, "part select " ++ (BitRange.mk left right).text ++
      " runs opposite to the range of " ++ d.description, [declaredAs d d.bitRange.text]⟩
  | partSelectWidth expr => ⟨.error, "part select width `" ++ expr ++ "` must be positive", []⟩
  | notAnArray d => ⟨.error, d.description ++ " is not an array", []⟩
  | indexCount d dimensions given =>
    ⟨.error, d.description ++ " has " ++ toString dimensions.count ++ " dimensions, but " ++
      toString given ++ " indices were given", [declaredAs d dimensions.text]⟩

/-- The warning of a constant index outside a declared shape. -/
def outsideWarning (d : Declaration) (index : Int) (shape : String) : Diagnostic :=
  ⟨.warning, "index " ++ toString index ++ " is outside the range of " ++ d.description,
    [declaredAs d shape]⟩

/-- The note of the value that was found for an expression. -/
def valueNote (expr : String) (value : Value) : Diagnostic :=
  ⟨.note, "`" ++ expr ++ "` = " ++ value.text, []⟩

/-- The note of the type that an expression was built with. -/
def typeNote (expr : String) (type : DataType) : Diagnostic :=
  ⟨.note, "type of `" ++ expr ++ "` is " ++ type.text, []⟩

/-- The note of the context that was imposed onto an expression. -/
def contextNote (expr : String) (required : DataType) : Diagnostic :=
  ⟨.note, "`" ++ expr ++ "` appears in context " ++ required.text, []⟩

end VerilogExpr
