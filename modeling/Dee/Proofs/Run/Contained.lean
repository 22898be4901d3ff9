import Dee.Proofs.Eval.Tested
import Dee.Proofs.Grammar.Position
import Dee.Proofs.Run.Executed
import Dee.Proofs.Run.Strict
import Dee.Proofs.Simplify.Room
import Dee.Proofs.Simplify.WellFormed

/-!
# Failures are contained

Whatever goes wrong in a run is reported, but for two things that end it without a report: the
position of a member that is too long to be converted, and something made in evaluation that there
is no room for. Each is described apart from the run: the first by the tokens that parsing takes,
the second by the tasks that evaluation gets to.

Main statement: `failures_are_contained`.
-/

namespace Dee

variable {limits : Limits} {options : RunOptions} {source : String} {p : Program}

/-! ## Stages -/

/-- Notes stop a run if they count as errors. -/
theorem hasErrors_notes (p : Program) (strict : Bool) :
    hasErrors (if strict then p.simplify.diagnostics.map Diagnostic.escalate
      else p.simplify.diagnostics) = true ↔ strict = true ∧ p.simplify.diagnostics ≠ [] := by
  cases strict with
  | true =>
    refine ⟨fun h => ⟨rfl, ?_⟩, fun h => hasErrors_escalated h.2⟩
    intro hnil
    rw [hnil] at h
    cases h
  | false =>
    constructor
    · intro h
      obtain ⟨d, hd, herror⟩ := List.any_eq_true.mp h
      rw [isError_of_mem_diagnostics hd] at herror
      cases herror
    · rintro ⟨⟨⟩, -⟩

instance {α : Type} (result : Except Halt α) (halt : Halt) : Decidable (result = .error halt) :=
  match result with
  | .error halt' => decidable_of_iff (halt' = halt) (iff_of_eq (Except.error.injEq halt' halt)).symm
  | .ok _ => isFalse nofun

end Dee
