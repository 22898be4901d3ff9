import Dee.Proofs.Jump.Stray
import Dee.Proofs.Refinement.Run
import Dee.Proofs.Scope.Run

/-!
# Runs of checked programs

In a run of a well-formed program without faults no name is missing and no jump leaves a statement,
so every ending counts unless the nesting was too deep.

Main statement: `Machine.run_checked`.
-/

namespace Dee

variable {p p' : Program} {limits : Limits} {m n : Machine}

/-- No return stands at the top of a program without faults. -/
theorem Program.isReturn_eq_false (hcheck : p.analyze = []) {s : Stmt} (hs : s ∈ p.statements) :
    s.isReturn = false := by
  have hescapes := Program.escapes_eq_false hcheck hs .leaveFunction
  cases hr : s.isReturn with
  | false => rfl
  | true =>
    cases s <;> cases hr
    cases hescapes

/-- An ending of a checked program counts, unless the nesting was too deep. -/
theorem Ending.counts_of_checked (hcheck : p.analyze = []) (hw : p.WellFormed) {o : Ending}
    (ho : o ∈ m.endings limits p) (hdeep : o.result ≠ .error .tooDeep) : o.counts = true := by
  have hsignal := (Machine.no_stray_of_mem_endings
    (fun s hs j => Program.escapes_eq_false hcheck hs j) ho).1
  have hname : ∀ f, o.result = .error f → f.concernsName = false := fun f hf =>
    Machine.concernsName_of_mem_endings (Program.faults_eq_nil hcheck) hw ho hf
  obtain ⟨s, result⟩ := o
  cases result with
  | ok signal =>
    cases signal with
    | none => rfl
    | some g => exact absurd rfl (hsignal g)
  | error f =>
    cases f with
    | error e =>
      have hcause : e.cause.concernsName = false := hname _ rfl
      simp [Ending.counts, Failure.isExempt, hcause]
    | abort a => rfl
    | tooDeep => exact absurd rfl hdeep

/-- A run of a refined program ends as the run of the checked program does, unless that is nested
too deeply, and prints the same behind what its machine had printed alone. -/
theorem Machine.run_checked {kept : String → Prop} {W : World} (hcheck : p.analyze = [])
    (hw : p.WellFormed) (hcode : Stmt.RefinesAll kept p.statements p'.statements)
    (hmn : Machine.Alike kept W m n)
    (hdeep : ∀ o ∈ m.endings limits p, o.result ≠ .error .tooDeep) :
    ∃ outcome m' n', m.run limits p = (outcome, m') ∧ n.run limits p' = (outcome, n') ∧
      n'.output = W.printed ++ m'.output :=
  Machine.run_refined hcode (fun _ hs => Program.isReturn_eq_false hcheck hs) limits hmn
    fun o ho => Ending.counts_of_checked hcheck hw ho (hdeep o ho)

end Dee
