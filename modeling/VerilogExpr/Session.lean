import VerilogExpr.Diagnostic

/-!
# Sessions

A session collects diagnostics.  It has failed once an error has been reported, and stays so when
the diagnostics are taken out of it.
-/

namespace VerilogExpr

/-- What a session reports beyond errors. -/
structure Options where
  /-- Report the type of every expression that is built. -/
  reportTypes : Bool
  /-- Report every context that is imposed. -/
  reportContexts : Bool
  /-- Report every value that is found. -/
  reportConstants : Bool
  /-- Warn of constant selects outside the declared range. -/
  warnSelectRange : Bool
deriving DecidableEq, Repr

/-- Warnings of selects, and no reports. -/
def Options.standard : Options := ⟨false, false, false, true⟩

structure Session where
  failed : Bool
  /-- The diagnostics that have not been taken yet, oldest first. -/
  pending : List Diagnostic
deriving DecidableEq, Repr

namespace Session

def fresh : Session := ⟨false, []⟩

def emit (s : Session) (d : Diagnostic) : Session :=
  ⟨s.failed || d.severity.isFailure, s.pending ++ [d]⟩

def emitAll (s : Session) (ds : List Diagnostic) : Session := ds.foldl emit s

def taken (s : Session) : Session := { s with pending := [] }

/-- The number of pending diagnostics of a severity. -/
def count (s : Session) (severity : Severity) : Nat :=
  s.pending.countP (·.severity = severity)

end Session

end VerilogExpr
