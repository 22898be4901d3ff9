import Dee.Decimal
import Dee.Pos

/-!
# Diagnostics and located errors

A `Diagnostic` is what a user reads: a severity, a message and a position. A `Located` error is what
a stage fails with: a cause and the position it concerns, which may still be open. The wording of a
cause is given by its `Explain` instance, in one place for each type of cause.
-/

namespace Dee

/-! ## Diagnostics -/

inductive Severity where
  | error
  | warning
  | info
deriving Repr, DecidableEq

def Severity.label : Severity → String
  | .error => "Error"
  | .warning => "Warning"
  | .info => "Info"

/-- A message for the user. -/
structure Diagnostic where
  severity : Severity
  message : String
  pos : Pos
deriving Repr, DecidableEq

namespace Diagnostic

def error (message : String) (pos : Pos) : Diagnostic := ⟨.error, message, pos⟩

def info (message : String) (pos : Pos) : Diagnostic := ⟨.info, message, pos⟩

def isError (d : Diagnostic) : Bool := d.severity = .error

/-- The same diagnostic as an error. -/
def escalate (d : Diagnostic) : Diagnostic := { d with severity := .error }

/-- The line that shows a diagnostic. The position is shown only if both of its parts are
positive. -/
def text (d : Diagnostic) : String :=
  if 0 < d.pos.line ∧ 0 < d.pos.column then
    d.severity.label ++ " at line " ++ Decimal.ofInt d.pos.line ++ ", column " ++
      Decimal.ofInt d.pos.column ++ ": " ++ d.message
  else d.severity.label ++ ": " ++ d.message

end Diagnostic

def hasErrors (ds : List Diagnostic) : Bool :=
  ds.any Diagnostic.isError

/-! ## Located errors -/

/-- The wording of a type of causes. -/
class Explain (ε : Type) where
  message : ε → String

instance : Explain String := ⟨id⟩

/-- A cause of failure with the position it concerns, `Pos.nowhere` while that is open. -/
structure Located (ε : Type) where
  cause : ε
  pos : Pos
deriving Repr, DecidableEq

namespace Located

variable {ε : Type}

/-- Whether the position is settled: one of its parts is positive. -/
def isPlaced (e : Located ε) : Bool :=
  0 < e.pos.line || 0 < e.pos.column

/-- The same cause at another position. -/
def moveTo (e : Located ε) (pos : Pos) : Located ε := { e with pos }

/-- Settles an open position; one that is settled stays. -/
def placeAt (e : Located ε) (pos : Pos) : Located ε :=
  if e.isPlaced then e else e.moveTo pos

variable [Explain ε]

def message (e : Located ε) : String := Explain.message e.cause

/-- The message, after the position if that is settled. -/
def text (e : Located ε) : String :=
  if e.isPlaced then
    Decimal.ofInt e.pos.line ++ ":" ++ Decimal.ofInt e.pos.column ++ ": " ++ e.message
  else e.message

def toDiagnostic (e : Located ε) : Diagnostic := .error e.message e.pos

end Located

end Dee
