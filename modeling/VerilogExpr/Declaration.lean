import VerilogExpr.Dimensions
import VerilogExpr.Value

/-!
# Declarations

The nets, variables and parameters that expressions refer to.  Names are resolved before
expressions are built, so an expression holds the declarations themselves.
-/

namespace VerilogExpr

inductive DeclarationKind where
  | net
  | reg
  | integer
  | real
  | time
  | parameter
  | localparam
  | genvar
deriving DecidableEq, Repr

namespace DeclarationKind

def text : DeclarationKind → String
  | net => "net"
  | reg => "reg"
  | integer => "integer"
  | real => "real"
  | time => "time"
  | parameter => "parameter"
  | localparam => "localparam"
  | genvar => "genvar"

/-- The sign that a declaration has without the keyword `signed`. -/
def defaultSign : DeclarationKind → Sign
  | integer => .signed
  | real => .signed
  | genvar => .signed
  | _ => .unsigned

def isConstant : DeclarationKind → Bool
  | parameter => true
  | localparam => true
  | genvar => true
  | _ => false

end DeclarationKind

structure Declaration where
  name : String
  kind : DeclarationKind
  sign : Sign
  /-- The packed range, as in `wire [7:0] x`. -/
  range : Option BitRange
  /-- The unpacked dimensions, as in `reg x [0:3]`. -/
  dimensions : Option Dimensions
  /-- The value of a parameter. -/
  value : Option Value
  /-- The values of the elements of a constant array, in row-major order. -/
  elements : List Value
deriving DecidableEq

namespace Declaration

/-- A declaration of the given kind with nothing else stated. -/
def plain (name : String) (kind : DeclarationKind) : Declaration :=
  ⟨name, kind, kind.defaultSign, none, none, none, []⟩

/-- The vector that the sign and the packed range describe; one bit without a range. -/
def vectorType (d : Declaration) : DataType :=
  .sizedVector d.sign (d.range.elim 1 BitRange.size)

/-- The value that fixes the type of a parameter without a range: its own, or that of its first
element. -/
def typingValue? (d : Declaration) : Option Value := d.value.or d.elements.head?

/-- The type of a parameter: its vector if it has a range or no value, and else the type of its
value, which the keyword `signed` makes signed. -/
def parameterType (d : Declaration) : DataType :=
  match d.range, d.typingValue? with
  | none, some v =>
    if d.sign = .signed ∧ !v.type.isSigned then .vector .signed v.type.isSized v.type.width
    else v.type
  | _, _ => d.vectorType

/-- The type of a reference; for an array that of one element. -/
def type (d : Declaration) : DataType :=
  match d.kind with
  | .net => d.vectorType
  | .reg => d.vectorType
  | .integer => .integer
  | .real => .real
  | .time => .time
  | .parameter => d.parameterType
  | .localparam => d.parameterType
  | .genvar => .integer

def isConstant (d : Declaration) : Bool := d.kind.isConstant

def isReal (d : Declaration) : Bool := d.type.isReal

def isArray (d : Declaration) : Bool := d.dimensions.isSome

/-- The packed range; without one, the bits of the type count down to zero. -/
def bitRange (d : Declaration) : BitRange := d.range.getD (.ofSize d.type.width)

/-- The kind and the name, as messages show them. -/
def description (d : Declaration) : String := d.kind.text ++ " `" ++ d.name ++ "`"

end Declaration

end VerilogExpr
