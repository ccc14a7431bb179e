import VerilogExpr.Bits

/-!
# Data types of expressions

Every expression has a data type: a bit vector with a sign, a width and a mark whether that width
was written out, or one of the named domains `integer`, `time` and `real`.  The first three are
*integral*: their values are bits.  How the types of operands combine is the subject of
`VerilogExpr.Typing`.
-/

namespace VerilogExpr

/-- Whether the top bit of a value counts negatively. -/
inductive Sign where
  | signed
  | unsigned
deriving DecidableEq, Repr

def Sign.text : Sign → String
  | signed => "signed"
  | unsigned => "unsigned"

/-- The type of an expression.  A vector that is not `sized` comes from a literal such as `'hff`,
which has a width but does not state one. -/
inductive DataType where
  | vector (sign : Sign) (sized : Bool) (width : Nat)
  | integer
  | time
  | real
deriving DecidableEq, Repr

namespace DataType

/-- The width of `integer`, and of literals that state no width. -/
def integerWidth : Nat := 32

def timeWidth : Nat := 64

/-- The width that a `real` takes in storage. -/
def realWidth : Nat := 64

/-- The one-bit answer of comparisons, reductions and logical operators. -/
def bit : DataType := .vector .unsigned true 1

/-- A vector whose width is written out. -/
def sizedVector (sign : Sign) (width : Nat) : DataType := .vector sign true width

/-- The vector of a based literal that states no width. -/
def unsizedVector (sign : Sign) : DataType := .vector sign false integerWidth

/-- The sign of a type; `integer` and `real` are signed, `time` is not. -/
def sign : DataType → Sign
  | vector sign _ _ => sign
  | integer => .signed
  | time => .unsigned
  | real => .signed

/-- Whether values of the type may be negative. -/
def isSigned (t : DataType) : Bool := t.sign = .signed

/-- Whether the type states its width.  The named domains do not. -/
def isSized : DataType → Bool
  | vector _ sized _ => sized
  | integer => false
  | time => false
  | real => false

def width : DataType → Nat
  | vector _ _ width => width
  | integer => integerWidth
  | time => timeWidth
  | real => realWidth

def isReal (t : DataType) : Bool := t = .real

def isInteger (t : DataType) : Bool := t = .integer

def isTime (t : DataType) : Bool := t = .time

/-- Whether values of the type are bits, as those of every type but `real` are. -/
def isIntegral (t : DataType) : Bool := !t.isReal

/-- The type as it is written in a declaration.  A width of one is left out where the type states
its width; a width of zero shows as `[-1:0]`. -/
def text : DataType → String
  | vector sign sized width =>
    (if sized then "" else "unsized ") ++ "logic" ++
      (if sign = .signed then " " ++ sign.text else "") ++
      (if width = 1 ∧ sized then ""
        else " [" ++ toString (Bits.wrapIndex ((width : Int) - 1)) ++ ":0]")
  | integer => "integer"
  | time => "time"
  | real => "real"

end DataType

end VerilogExpr
