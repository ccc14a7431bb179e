import VerilogExpr.BitRange
import VerilogExpr.DataType
import VerilogExpr.Diagnostic

/-!
# Violated preconditions

The functions of this library ask something of their callers, for instance that the operand of a
reduction is not real.  A `Violation` names a broken demand.  It is a defect of the caller and not
of the user's input, so work ends there; a problem of the user's input is a `Diagnostic` instead.

Expressions live in an arena and refer to each other by position.  These handles come first, since
violations name the expressions concerned by them.
-/

namespace VerilogExpr

/-! ### Handles of expressions -/

/-- The position of an expression in its arena. -/
abbrev ExprId := Nat

namespace ExprId

/-- Handles are kept in 32 bits, and the largest pattern names no expression. -/
def limit : Nat := 4294967295

/-- The handle of a position, if handles reach that far. -/
def ofPosition? (position : Nat) : Option ExprId :=
  if position < limit then some position else none

/-- A handle as it is written in messages and dumps. -/
def text (id : ExprId) : String := "e" ++ toString (id : Nat)

end ExprId

/-! ### Violations -/

/-- A demand that a caller did not meet. -/
inductive Violation where
  /-- The width of `real` was to be changed. -/
  | widthOfReal
  /-- The common type of operands was asked for, one of them real. -/
  | commonTypeOfReal (left right : DataType)
  /-- An integer was to be given the type `real`. -/
  | integerOfReal (value : Int)
  /-- An offset lies beyond the end of its range. -/
  | offsetBeyond (offset : Nat) (range : BitRange) (size : Nat)
  /-- An indexed part select covers no index. -/
  | emptyIndexedSelect
  /-- A handle names no expression. -/
  | unknownExpr (id : ExprId)
  /-- An operand names no expression. -/
  | unknownOperand (id : ExprId)
  /-- An operand is not older than the expression it belongs to. -/
  | youngerOperand (id operand : ExprId)
  /-- A bit was selected from a real declaration. -/
  | bitSelectOfReal (name : String)
  /-- Bits were selected from a real declaration. -/
  | partSelectOfReal (name : String)
  /-- An indexed part select was built without width. -/
  | emptyPartSelect (name : String)
  /-- An element was taken from a declaration without dimensions. -/
  | elementOfScalar (declaration : String)
  /-- The number of indices differs from the number of dimensions. -/
  | indexCount (given : Nat) (name : String) (dimensions : Nat)
  /-- An index into an array is real. -/
  | realIndex (id : ExprId) (name : String)
  /-- An operator that needs bits was given a real operand. -/
  | realOperand (operator : String)
  /-- The value to be shifted is real. -/
  | realShift (operator : String)
  /-- A replication repeats its operands zero times. -/
  | emptyReplication
  /-- A concatenation has no operand. -/
  | emptyConcat
  /-- An operand of a concatenation is real. -/
  | realConcatOperand (id : ExprId)
  /-- A second context was imposed onto an expression. -/
  | secondContext (required : DataType) (id : ExprId) (present : DataType)
  /-- The bounds of a select were checked against another range than they are resolved in. -/
  | selectBeyond (left right : Int) (range : BitRange)
  /-- An operator without a meaning on reals was applied to them. -/
  | realArithmetic (operator : String)
deriving DecidableEq, Repr

namespace Violation

def message : Violation → String
  | widthOfReal => "real type has no adjustable width"
  | commonTypeOfReal left right =>
    "cannot combine real operand types `" ++ left.text ++ "` and `" ++ right.text ++ "`"
  | integerOfReal value => "create int value `" ++ toString value ++ "` with real type"
  | offsetBeyond offset range size =>
    "offset " ++ toString offset ++ " outside of range " ++ range.text ++ " of size " ++
      toString size
  | emptyIndexedSelect => "indexed part-select of zero width"
  | unknownExpr id => id.text ++ " is not an expression of this arena"
  | unknownOperand id => "operand " ++ id.text ++ " has not been constructed in this arena"
  | youngerOperand id operand => "operand " ++ operand.text ++ " is not older than " ++ id.text
  | bitSelectOfReal name => "bit select of real " ++ name
  | partSelectOfReal name => "part select of real " ++ name
  | emptyPartSelect name => "part select of " ++ name ++ " with zero width"
  | elementOfScalar declaration => "element of " ++ declaration ++ " which is not an array"
  | indexCount given name dimensions =>
    toString given ++ " indices into array " ++ name ++ " of " ++ toString dimensions ++
      " dimensions"
  | realIndex id name => "real index " ++ id.text ++ " into array " ++ name
  | realOperand operator => "real operand of " ++ operator
  | realShift operator => "real left operand of " ++ operator
  | emptyReplication => "replication with zero count"
  | emptyConcat => "concatenation without operands"
  | realConcatOperand id => "real operand " ++ id.text ++ " in concatenation"
  | secondContext required id present =>
    "context `" ++ required.text ++ "` imposed onto " ++ id.text ++
      " which already has context `" ++ present.text ++ "`"
  | selectBeyond left right range =>
    "select " ++ (BitRange.mk left right).text ++ " not within " ++ range.text
  | realArithmetic operator => operator ++ " applied to real operands"

/-- A violation as the last diagnostic of a run. -/
def diagnostic (v : Violation) : Diagnostic := ⟨.bug, v.message, []⟩

end Violation

end VerilogExpr
