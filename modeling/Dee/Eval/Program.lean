import Dee.Eval.Basic
import Dee.Limits

/-!
# Runs of programs

Each top-level statement runs on its own. What goes wrong in it becomes one diagnostic, and the
next statement runs in what it left. All statements of a run share one frame, which hangs under the
outermost frame of the machine.
-/

namespace Dee

/-- What a statement that is nested too deeply is reported as. -/
def tooDeepMessage : String := "Maximum recursion depth exceeded"

/-- The diagnostic for the outcome of a top-level statement, if it needs one. -/
def Stmt.verdict (s : Stmt) : Except Failure (Option Signal) → Except Abort (Option Diagnostic)
  | .ok none => .ok none
  | .ok (some signal) => .ok (some (.error signal.jump.strayMessage s.pos))
  | .error (.error e) => .ok (some e.toDiagnostic)
  | .error .tooDeep => .ok (some (.error tooDeepMessage s.pos))
  | .error (.abort a) => .error a

namespace Machine

def runStmt (r : Runner) (frame : Nat) (s : Stmt) (m : Machine) :
    Except Abort (Option Diagnostic) × Machine :=
  let (outcome, m') := (r.exec s frame).run m
  (s.verdict outcome, m')

/-- Runs top-level statements in a frame, and lists what went wrong, in order; `seen` holds what
went wrong before, the last one first. -/
def runStmts (r : Runner) (frame : Nat) :
    List Stmt → (seen : List Diagnostic) → Machine → Except Abort (List Diagnostic) × Machine
  | [], seen, m => (.ok seen.reverse, m)
  | s :: rest, seen, m =>
    match m.runStmt r frame s with
    | (.error a, m') => (.error a, m')
    | (.ok none, m') => runStmts r frame rest seen m'
    | (.ok (some d), m') => runStmts r frame rest (d :: seen) m'

/-- Runs a program in a new frame under the outermost one. -/
def run (limits : Limits) (p : Program) (m : Machine) :
    Except Abort (List Diagnostic) × Machine :=
  let (frame, store) := m.store.newFrame globalFrame
  runStmts (.ofDepth limits.turns limits.depth) frame p.statements [] { m with store }

end Machine

end Dee
