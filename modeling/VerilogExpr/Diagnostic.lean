/-!
# Diagnostics

A diagnostic is a severity, a message and the notes that follow it.  `Diagnostic.render` is its
terminal text.
-/

namespace VerilogExpr

/-- How serious a diagnostic is, from the least to the most serious. -/
inductive Severity where
  | note
  | warning
  | error
  | bug
deriving DecidableEq, Repr

namespace Severity

/-- The position of a severity in the order of seriousness. -/
def rank : Severity → Nat
  | note => 0
  | warning => 1
  | error => 2
  | bug => 3

/-- The more serious of two severities is the greater one. -/
def order (a b : Severity) : Ordering := compare a.rank b.rank

/-- A session that has seen a diagnostic of a failing severity has failed. -/
def isFailure (s : Severity) : Bool := error.rank ≤ s.rank

def text : Severity → String
  | note => "note"
  | warning => "warning"
  | error => "error"
  | bug => "compiler bug"

def colour : Severity → String
  | note => "\x1b[36;1m"
  | warning => "\x1b[33;1m"
  | error => "\x1b[31;1m"
  | bug => "\x1b[31;1m"

end Severity

/-- A message to the user, with notes that explain it. -/
structure Diagnostic where
  severity : Severity
  message : String
  notes : List String
deriving DecidableEq, Repr

namespace Diagnostic

/-- The request that closes the text of an internal failure. -/
def bugReport : String :=
  "\nYou have encountered a compiler bug. Sorry about that! We would appreciate if you open an " ++
  "issue and describe how you triggered the bug, together with a minimal snippet of code to " ++
  "reproduce it. Thanks!\n"

def renderNote (note : String) : String :=
  "   = \x1b[1mnote:\x1b[m " ++ note ++ "\n"

/-- The terminal text: the coloured severity, the bold message, then a line per note.  Internal
failures end in a request to report them. -/
def render (d : Diagnostic) : String :=
  d.severity.colour ++ d.severity.text ++ ":\x1b[m\x1b[1m " ++ d.message ++ "\x1b[m\n" ++
    String.join (d.notes.map renderNote) ++
    (if d.severity = .bug then bugReport else "")

end Diagnostic

end VerilogExpr
