import Dee.EvalError

/-!
# How evaluation fails

A run-time error concerns one top-level statement, as does nesting beyond the limit; the statements
after it still run. An abort ends the whole run: it stands for what the machine underneath cannot
do, and for a loop that takes more turns than it is given.
-/

namespace Dee

/-- What ends a whole run. -/
inductive Abort where
  /-- A list or a text was to be larger than any size that can be asked for. -/
  | unaddressable
  /-- A list or a text was to be larger than the memory. -/
  | outOfMemory
  /-- A loop did not end within the turns it was given. -/
  | outOfTurns
deriving Repr, DecidableEq

/-- Why evaluation stopped. -/
inductive Failure where
  | error (e : Located EvalError)
  | tooDeep
  | abort (a : Abort)
deriving Repr, DecidableEq

/-- A run-time error whose position is still open. -/
def Failure.ofError (e : EvalError) : Failure := .error ⟨e, .nowhere⟩

end Dee
