/-!
# Operators

Operators are grouped by the rule that sizes their operands: the group of a binary operator is its
constructor.  A *sink* has a one-bit result whatever its context, so the context goes no further.
-/

namespace VerilogExpr

/-- The operators that fold the bits of one operand into a single bit. -/
inductive Reduction where
  | and
  | nand
  | or
  | nor
  | xor
  | xnor
deriving DecidableEq, Repr

inductive UnaryOp where
  | plus
  | minus
  | bitNot
  | logicNot
  | reduce (reduction : Reduction)
deriving DecidableEq, Repr

/-- Operators that work on each pair of bits. -/
inductive BitwiseOp where
  | and
  | or
  | xor
  | xnor
deriving DecidableEq, Repr

inductive ArithOp where
  | add
  | sub
  | mul
  | div
  | mod
deriving DecidableEq, Repr

/-- Shifts.  Only the arithmetic shift to the right may differ from its logical namesake. -/
inductive ShiftOp where
  | logicalLeft
  | logicalRight
  | arithLeft
  | arithRight
deriving DecidableEq, Repr

/-- Comparisons.  Without unknown bits the case equalities agree with the plain ones. -/
inductive CompareOp where
  | eq
  | ne
  | lt
  | le
  | gt
  | ge
  | caseEq
  | caseNe
deriving DecidableEq, Repr

inductive LogicOp where
  | and
  | or
deriving DecidableEq, Repr

/-- Operators with two operands, by the rule that sizes them. -/
inductive BinaryOp where
  | bitwise (op : BitwiseOp)
  | arith (op : ArithOp)
  | power
  | shift (op : ShiftOp)
  | compare (op : CompareOp)
  | logic (op : LogicOp)
deriving DecidableEq, Repr

inductive TernaryOp where
  /-- The choice `c ? a : b`. -/
  | conditional
  /-- The delay triple `min : typ : max`. -/
  | minTypMax
deriving DecidableEq, Repr

def Reduction.symbol : Reduction → String
  | and => "&"
  | nand => "~&"
  | or => "|"
  | nor => "~|"
  | xor => "^"
  | xnor => "~^"

namespace UnaryOp

def isReduction : UnaryOp → Bool
  | reduce _ => true
  | _ => false

/-- Whether the result is one bit whatever the operand. -/
def isSink : UnaryOp → Bool
  | reduce _ => true
  | logicNot => true
  | _ => false

/-- Whether the operator needs the bits of its operand. -/
def rejectsReal : UnaryOp → Bool
  | reduce _ => true
  | bitNot => true
  | _ => false

def symbol : UnaryOp → String
  | plus => "+"
  | minus => "-"
  | bitNot => "~"
  | logicNot => "!"
  | reduce reduction => reduction.symbol

def name : UnaryOp → String
  | plus => "unary plus"
  | minus => "negation"
  | bitNot => "bitwise negation"
  | logicNot => "logical negation"
  | reduce _ => "reduction"

def description (op : UnaryOp) : String := op.name ++ " `" ++ op.symbol ++ "`"

end UnaryOp

def BitwiseOp.symbol : BitwiseOp → String
  | and => "&"
  | or => "|"
  | xor => "^"
  | xnor => "~^"

def ArithOp.symbol : ArithOp → String
  | add => "+"
  | sub => "-"
  | mul => "*"
  | div => "/"
  | mod => "%"

def ShiftOp.symbol : ShiftOp → String
  | logicalLeft => "<<"
  | logicalRight => ">>"
  | arithLeft => "<<<"
  | arithRight => ">>>"

def CompareOp.symbol : CompareOp → String
  | eq => "=="
  | ne => "!="
  | lt => "<"
  | le => "<="
  | gt => ">"
  | ge => ">="
  | caseEq => "==="
  | caseNe => "!=="

def LogicOp.symbol : LogicOp → String
  | and => "&&"
  | or => "||"

namespace BinaryOp

/-- Whether the result is one bit whatever the operands. -/
def isSink : BinaryOp → Bool
  | compare _ => true
  | logic _ => true
  | _ => false

def isComparison : BinaryOp → Bool
  | compare _ => true
  | _ => false

/-- Whether the operator needs the bits of its operands, or the remainder of a division. -/
def rejectsReal : BinaryOp → Bool
  | bitwise _ => true
  | arith .mod => true
  | shift _ => true
  | _ => false

def symbol : BinaryOp → String
  | bitwise op => op.symbol
  | arith op => op.symbol
  | power => "**"
  | shift op => op.symbol
  | compare op => op.symbol
  | logic op => op.symbol

def name : BinaryOp → String
  | bitwise _ => "bitwise operator"
  | arith _ => "arithmetic operator"
  | power => "power operator"
  | shift _ => "shift operator"
  | compare _ => "comparison"
  | logic _ => "logical operator"

def description (op : BinaryOp) : String := op.name ++ " `" ++ op.symbol ++ "`"

end BinaryOp

namespace TernaryOp

def name : TernaryOp → String
  | conditional => "conditional operator"
  | minTypMax => "min:typ:max expression"

/-- The symbol between the first and the second operand.  A colon separates the second from the
third in both. -/
def symbol : TernaryOp → String
  | conditional => "?"
  | minTypMax => ":"

end TernaryOp

end VerilogExpr
