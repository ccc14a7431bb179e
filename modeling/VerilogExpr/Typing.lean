import VerilogExpr.Violation

/-!
# Types of operations

How the type of an operation follows from the types of its operands, and how a context widens it.
A width never shrinks here, and one unsigned operand makes an operation unsigned.
-/

namespace VerilogExpr.DataType

/-- The vector of the given width with the sign and the mark of `t`. -/
def resized (t : DataType) (width : Nat) : DataType := .vector t.sign t.isSized width

/-- An integral type at another width.  The named domains become plain vectors. -/
def withWidth (t : DataType) (width : Nat) : Except Violation DataType :=
  if t.isReal then .error .widthOfReal else .ok (t.resized width)

/-- The sign of an operation: signed if both operands are. -/
def commonSign (a b : DataType) : Sign :=
  if a.isSigned && b.isSigned then .signed else .unsigned

/-- The vector that holds both operands: as wide as the wider one, and of stated width. -/
def commonVector (a b : DataType) : DataType :=
  .sizedVector (commonSign a b) (max a.width b.width)

/-- The type in which two integral operands meet. -/
def common (a b : DataType) : Except Violation DataType :=
  if a.isReal || b.isReal then .error (.commonTypeOfReal a b) else .ok (commonVector a b)

/-- Whether a power keeps the bits of an operand of this type: only unsigned vectors of stated
width do. -/
def keepsPowerBits (t : DataType) : Bool := t.isSized && !t.isSigned

/-- The type of the power `a ** b`.  Unless both operands keep their bits it is `real`. -/
def power (a b : DataType) : DataType :=
  if a.keepsPowerBits && b.keepsPowerBits then .sizedVector .unsigned (max a.width b.width)
  else .real

/-- The type of an operation in a context that requires the second type.  A wider context widens
it, keeping sign and mark; `real` on either side changes nothing. -/
def widened (current required : DataType) : DataType :=
  if current.isReal || required.isReal then current
  else if required.width ≤ current.width then current
  else current.resized required.width

end VerilogExpr.DataType
