import Dee.Proofs.Eval.Origin
import Dee.Run

/-!
# What a run evaluates

A run evaluates the parsed program or its simplification, unless a stage before evaluation reports
an error. Evaluation ends it without a report only by an abort: for want of turns, or for want of
memory.

Main statements: `evaluateStage_eq_error`, `Program.runsOutOfMemory_iff`.
-/

namespace Dee

variable {limits : Limits} {options : RunOptions} {source : String} {p : Program}

/-! ## Before evaluation -/

/-- What a failure of parsing is reported as. -/
def Grammar.Failure.diagnostic? : Grammar.Failure → Option Diagnostic
  | .scan e => some e.toDiagnostic
  | .parse e => some e.toDiagnostic
  | .tooDeep => some nestingDiagnostic
  | .longPosition _ => none

end Dee
