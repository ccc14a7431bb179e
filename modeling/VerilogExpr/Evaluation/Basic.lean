import VerilogExpr.Arena

/-!
# Outcomes of evaluation

An evaluation yields a value or stops with a `Fault`, and keeps a record of the expressions that it
has found values for, in that order.  A fault is either a violation or a reason why the user's
expression has no constant value.
-/

namespace VerilogExpr

/-- A reason why an expression has no constant value. -/
inductive EvalFailure where
  | notConstant (declaration : Declaration)
  | noValue (declaration : Declaration)
  | notConvertible (value : Value) (type : DataType)
  | noInteger (value : Value)
  | selectOutside (declaration : Declaration)
  | indexNotInteger (declaration : Declaration)
  | elementOutside (indices : List Int) (dimensions : Dimensions) (declaration : Declaration)
  | elementMissing (indices : List Int) (declaration : Declaration)
  | divisionByZero (op : BinaryOp)
deriving DecidableEq

def EvalFailure.message : EvalFailure → String
  | notConstant d => d.description ++ " is not constant"
  | noValue d => d.description ++ " has no value"
  | notConvertible value type => value.text ++ " cannot be converted to " ++ type.text
  | noInteger value => value.text ++ " has no integer value"
  | selectOutside d =>
    "select outside of the range " ++ d.bitRange.text ++ " of " ++ d.description
  | indexNotInteger d => "index of " ++ d.description ++ " is not an integer"
  | elementOutside indices dimensions d =>
    "element " ++ indexText (indices.map toString) ++ " outside of the dimensions " ++
      dimensions.text ++ " of " ++ d.description
  | elementMissing indices d =>
    "element " ++ indexText (indices.map toString) ++ " of " ++ d.description ++ " has no value"
  | divisionByZero op => op.description ++ " by zero"

/-- What stops an evaluation. -/
inductive Fault where
  | violation (v : Violation)
  | failure (f : EvalFailure)
deriving DecidableEq

/-- The outcome of an evaluation, with the values found on the way. -/
structure Evaluation (α : Type) where
  outcome : Except Fault α
  found : List (ExprId × Value)

namespace Evaluation

def lift {α : Type} (outcome : Except Fault α) : Evaluation α := ⟨outcome, []⟩

def stop {α : Type} (fault : Fault) : Evaluation α := lift (.error fault)

/-- Continues with the result of an evaluation, if there is one. -/
def andThen {α β : Type} (x : Evaluation α) (next : α → Evaluation β) : Evaluation β :=
  match x.outcome with
  | .ok result => ⟨(next result).outcome, x.found ++ (next result).found⟩
  | .error fault => ⟨.error fault, x.found⟩

instance : Monad Evaluation where
  pure result := lift (.ok result)
  bind := andThen

instance : MonadLift (Except Fault) Evaluation where
  monadLift := lift

instance : MonadLift (Except Violation) (Except Fault) where
  monadLift outcome := outcome.mapError .violation

def record (id : ExprId) (value : Value) : Evaluation Unit := ⟨.ok (), [(id, value)]⟩

/-- The outcome of a sequence is the sequence of the outcomes. -/
@[simp] theorem outcome_bind {α β : Type} (x : Evaluation α) (next : α → Evaluation β) :
    (x >>= next).outcome = x.outcome >>= fun result => (next result).outcome := by
  change (andThen x next).outcome = _
  unfold andThen
  cases x.outcome <;> rfl

@[simp] theorem outcome_pure {α : Type} (result : α) :
    (pure result : Evaluation α).outcome = .ok result := rfl

@[simp] theorem outcome_lift {α : Type} (outcome : Except Fault α) :
    (lift outcome).outcome = outcome := rfl

@[simp] theorem outcome_monadLift {α : Type} (outcome : Except Fault α) :
    (monadLift outcome : Evaluation α).outcome = outcome := rfl

@[simp] theorem outcome_record (id : ExprId) (value : Value) :
    (record id value).outcome = .ok () := rfl

end Evaluation

end VerilogExpr
