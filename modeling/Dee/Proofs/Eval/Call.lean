import Dee.Proofs.Eval.Primitive

/-!
# Calls

A call checks what it calls, opens a frame for the arguments and runs the body of the function
there. `Runner.runBody` names the last part, so that what holds of bodies carries over to calls.
-/

namespace Dee.Runner

open Eval

/-- Runs the body of a function in the frame of a call. -/
def runBody (r : Runner) (c : Closure) (frame : Nat) : Eval Value :=
  match c.expression with
  | some e => r.eval e frame
  | none => do resultOf (← runAll (r.exec · frame) c.statements)

/-- Opens the frame of a call and runs the body there. -/
def enter (r : Runner) (c : Closure) (args : List Value) : Eval Value := do
  let frame ← Eval.make (·.newFrame c.frame)
  bindParams frame c.params args
  r.runBody c frame

variable {r : Runner} {args : List Value} {m : Machine}

/-- Calling a function with the right number of arguments enters it. -/
theorem invoke_func {ref : Nat} (h : args.length = (m.store.closure ref).params.length) :
    r.invoke (.func ref) args m = r.enter (m.store.closure ref) args m := by
  show (if args.length = (m.store.closure ref).params.length then _ else _ : Eval Value) m = _
  rw [if_pos h]
  rfl

/-- A call enters a function or fails plainly. -/
theorem leads_invoke {func : Value} {ok : Value → Machine → Prop} {err : Failure → Machine → Prop}
    (henter : ∀ ref, func = .func ref → args.length = (m.store.closure ref).params.length →
      Leads (r.enter (m.store.closure ref) args) m ok err)
    (hfail : ∀ e : EvalError, e.isPlain = true → err (.ofError e) m) :
    Leads (r.invoke func args) m ok err := by
  cases func with
  | func ref =>
    by_cases hlen : args.length = (m.store.closure ref).params.length
    · unfold Leads
      rw [invoke_func hlen]
      exact henter ref rfl hlen
    · show Leads (if args.length = (m.store.closure ref).params.length then _ else _ : Eval Value) m
        ok err
      rw [if_neg hlen]
      exact leads_fail.mpr (hfail _ rfl)
  | scalar s => exact leads_fail.mpr (hfail _ rfl)
  | array ref => exact leads_fail.mpr (hfail _ rfl)
  | tuple ref => exact leads_fail.mpr (hfail _ rfl)

end Dee.Runner
