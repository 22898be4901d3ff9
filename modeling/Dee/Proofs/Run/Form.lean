import Dee.Proofs.Eval.Moment
import Dee.Proofs.Simplify.Preserved
import Dee.Proofs.Simplify.WellFormed

/-!
# Well-formed programs only

Every program that is run comes from the parser, simplified or not, and both give well-formed
programs. So no run reports an error about the form of the code. The one message of this kind that a
user can see is the parser's own: a text that assigns to something that is no target is no program
at all.

Main statement: `only_wellFormed_programs_run`.
-/

namespace Dee

/-! ## Messages -/

/-- A text that does not start like a message about the form of the code, whatever follows it. -/
def OpensPlainly (s : String) : Prop :=
  9 ≤ s.toList.length ∧
    s.toList.take 9 ∉ ["Unknown o".toList, "Unknown u".toList, "Invalid a".toList]

instance (s : String) : Decidable (OpensPlainly s) :=
  inferInstanceAs (Decidable (_ ∧ _))

theorem OpensPlainly.append {a : String} (b : String) (h : OpensPlainly a) :
    OpensPlainly (a ++ b) := by
  obtain ⟨hlength, htake⟩ := h
  refine ⟨?_, ?_⟩
  · rw [String.toList_append, List.length_append]
    omega
  · rwa [String.toList_append, List.take_append_of_le_length hlength]

/-- The same of a text given by its characters, which are compared as they are. -/
theorem OpensPlainly.ofList {cs : List Char}
    (h : 9 ≤ cs.length ∧ cs.take 9 ∉ [['U', 'n', 'k', 'n', 'o', 'w', 'n', ' ', 'o'],
      ['U', 'n', 'k', 'n', 'o', 'w', 'n', ' ', 'u'],
      ['I', 'n', 'v', 'a', 'l', 'i', 'd', ' ', 'a']]) :
    OpensPlainly (String.ofList cs) := by
  unfold OpensPlainly
  rw [String.toList_ofList]
  exact h

/-- A diagnostic says that an operator is not known or that a target cannot be assigned to. -/
def Diagnostic.BlamesForm (d : Diagnostic) : Prop :=
  ∃ rest, d.message = "Unknown operator" ++ rest ∨ d.message = "Unknown unary operator" ++ rest ∨
    d.message = "Invalid assignment target" ++ rest

theorem OpensPlainly.not_blamesForm {d : Diagnostic} (h : OpensPlainly d.message) :
    ¬ d.BlamesForm := by
  have hstart : ∀ (phrase rest : String), d.message = phrase ++ rest → ¬ OpensPlainly phrase →
      9 ≤ phrase.toList.length → False := by
    intro phrase rest hmessage hphrase hlength
    rw [hmessage] at h
    refine hphrase ⟨hlength, ?_⟩
    have htake := h.2
    rwa [String.toList_append, List.take_append_of_le_length hlength] at htake
  rintro ⟨rest, hmessage | hmessage | hmessage⟩
  · exact hstart _ rest hmessage (by decide) (by decide)
  · exact hstart _ rest hmessage (by decide) (by decide)
  · exact hstart _ rest hmessage (by decide) (by decide)

theorem Jump.opensPlainly (j : Jump) : OpensPlainly j.strayMessage := by
  cases j <;> exact .ofList (by decide)

/-- All other errors of a run have messages of their own. -/
theorem EvalError.opensPlainly {e : EvalError} (h : e.concernsForm = false) :
    OpensPlainly e.message := by
  cases e
  case unknownOperator => cases h
  case unknownUnary => cases h
  case invalidTarget => cases h
  case stray j => exact j.opensPlainly
  case divisionByZero => exact .ofList (by decide)
  case notInteger role kind =>
    have hrole : OpensPlainly (role.label ++ " must be an integer, got ") := by
      cases role <;> decide
    exact hrole.append _
  -- The other messages start with a text of their own; the cases differ in how much follows it.
  case tupleIndex | notIterable | notIndexable | notCallable =>
    exact .append _ (.ofList (by decide))
  case arrayIndex | duplicateMember | noMember | alreadyDeclared | undeclared | undefined
      | unknownIndicator =>
    exact .append _ (.append _ (.ofList (by decide)))
  case incomparable | operand | notBoolean | argumentCount | noMembers =>
    exact .append _ (.append _ (.append _ (.ofList (by decide))))
  case operands | overflow =>
    exact .append _ (.append _ (.append _ (.append _ (.append _ (.ofList (by decide))))))

theorem ScopeFault.opensPlainly (f : ScopeFault) : OpensPlainly f.message := by
  cases f with
  | alreadyDeclared name => exact .append _ (.append _ (.ofList (by decide)))
  | notDeclared name => exact .append _ (.append _ (.ofList (by decide)))
  | duplicateParameter name => exact .append _ (.append _ (.ofList (by decide)))
  | stray jump => exact jump.opensPlainly

theorem Note.opensPlainly (n : Note) : OpensPlainly n.message := by
  cases n with
  | foldedBinary op left right result =>
    have hstart : OpensPlainly ("Constant folding: " ++ left) := .append _ (.ofList (by decide))
    exact .append _ (.append _ (.append _ (.append _ (.append _ (.append _ hstart)))))
  | foldedUnary op operand result =>
    have hstart : OpensPlainly ("Constant folding: " ++ op) := .append _ (.ofList (by decide))
    exact .append _ (.append _ (.append _ (.append _ hstart)))
  | unused name => exact .append _ (.append _ (.ofList (by decide)))
  | alwaysTrue => exact .ofList (by decide)
  | alwaysFalse => exact .ofList (by decide)
  | neverRuns => exact .ofList (by decide)
  | unreachableAtTop => exact .ofList (by decide)
  | unreachableInBlock => exact .ofList (by decide)

theorem LexError.opensPlainly (e : LexError) : OpensPlainly e.message := by
  cases e with
  | unexpected c => exact .append _ (.append _ (.ofList (by decide)))
  | unclosedComment => exact .ofList (by decide)
  | unclosedString => exact .ofList (by decide)

theorem Grammar.ParseError.opensPlainly {e : ParseError} (h : e ≠ .invalidTarget) :
    OpensPlainly e.message := by
  cases e with
  | expected wanted found => exact .append _ (.append _ (.append _ (.ofList (by decide))))
  | unexpected found => exact .append _ (.ofList (by decide))
  | unexpectedEnd => exact .ofList (by decide)
  | reserved word => exact .append _ (.append _ (.ofList (by decide)))
  | invalidTarget => exact absurd rfl h

/-! ## Tasks that are reached -/

/-- The test that a node is well-formed. -/
def NodeTest.wellFormed : NodeTest := ⟨Expr.isWellFormed, Stmt.isWellFormed, fun _ => rfl⟩

theorem Task.Passes.isWellFormed {t : Task} (h : t.Passes .wellFormed) : t.isWellFormed = true := by
  cases t with
  | eval e frame => exact Expr.everywhere_self h
  | exec s frame => exact Stmt.everywhere_self h

/-- An error about the form of the code is raised by code that is not well-formed. -/
theorem Runner.RaisesAt.concernsForm {r : Runner} {t : Task} {m : Machine} {e : Located EvalError}
    (h : r.RaisesAt t m (.error e)) (ht : t.isWellFormed = true) :
    e.cause.concernsForm = false := by
  cases h with
  | stray h pos => rfl
  | raised h =>
    rcases h with hvalues | ⟨-, hnot⟩
    · exact EvalError.concernsForm_of_concernsValues hvalues
    · cases ht.symm.trans hnot

/-- No error of a well-formed program concerns the form of its code. Whatever a statement fails with
is raised by a task that the statement gets to, and the code of that task is part of the program or
of a function that the program made. -/
theorem Machine.concernsForm_of_mem_endings {limits : Limits} {p : Program} {m : Machine}
    (hp : p.WellFormed) (hm : m.Passes .wellFormed) {o : Ending} (ho : o ∈ m.endings limits p)
    {e : Located EvalError} (he : o.result = .error (.error e)) : e.cause.concernsForm = false := by
  obtain ⟨m₁, hcomes, hresult⟩ := comes_of_mem_endingsFrom ho
  rcases hx : (Runner.ofDepth limits.turns limits.depth).exec o.statement _ m₁ with ⟨result, m₂⟩
  rw [hx] at hresult
  cases hresult.symm.trans he
  obtain ⟨d, t, m₃, hreaches, hraises⟩ :=
    Runner.origin_of_fails (t := .exec o.statement _) hx (by simp)
  have hexecutes : m.Executes limits p (d + 1) t m₃ := ⟨o.statement, m₁, hcomes, hreaches⟩
  have hpasses : p.Passes .wellFormed := hp
  obtain ⟨ht, -, -⟩ := hexecutes.evolves hpasses hm
  exact hraises.concernsForm ht.isWellFormed

/-! ## Stages -/

section Stages

variable {limits : Limits} {options : RunOptions} {p : Program} {events : List Event} {r : Report}

/-- What is reported of a statement of a well-formed program is not about the form of the code. -/
theorem opensPlainly_of_mem_endings (hp : p.WellFormed) {o : Ending}
    (ho : o ∈ Machine.initial.endings limits p) {d : Diagnostic} (hd : o.diagnostic? = some d) :
    OpensPlainly d.message := by
  have hform := fun e => Machine.concernsForm_of_mem_endings hp Machine.passes_initial ho (e := e)
  obtain ⟨statement, result⟩ := o
  simp only [Ending.diagnostic?] at hd
  cases result with
  | ok signal =>
    cases signal with
    | none => cases hd
    | some g =>
      cases hd
      exact g.jump.opensPlainly
  | error f =>
    cases f with
    | error e =>
      cases hd
      exact EvalError.opensPlainly (hform e rfl)
    | tooDeep =>
      cases hd
      exact .ofList (by decide)
    | abort a => cases hd

theorem opensPlainly_of_evaluateStage (hp : p.WellFormed) {notes : List Diagnostic}
    (hnotes : ∀ d ∈ notes, OpensPlainly d.message)
    (h : evaluateStage limits p notes events = .ok r) :
    ∀ d ∈ r.diagnostics, OpensPlainly d.message := by
  obtain ⟨ds, m, hrun⟩ := exists_of_evaluateStage h
  have hds : ∀ d ∈ ds, OpensPlainly d.message := by
    intro d hd
    rw [Machine.run_ok hrun] at hd
    obtain ⟨o, ho, hdiagnostic⟩ := List.mem_filterMap.mp hd
    exact opensPlainly_of_mem_endings hp ho hdiagnostic
  unfold evaluateStage at h
  simp only [hrun] at h
  have hall : ∀ d ∈ notes ++ ds, OpensPlainly d.message := by
    intro d hd
    rcases List.mem_append.mp hd with hd | hd
    · exact hnotes d hd
    · exact hds d hd
  split at h
  · cases h
    exact hall
  · cases h
    exact hall

theorem opensPlainly_of_simplifyStage (hp : p.WellFormed)
    (h : simplifyStage limits options p events = .ok r) :
    ∀ d ∈ r.diagnostics, OpensPlainly d.message := by
  have hnotes : ∀ d ∈ p.simplify.diagnostics, OpensPlainly d.message := by
    intro d hd
    obtain ⟨note, -, rfl⟩ := List.mem_map.mp hd
    exact note.cause.opensPlainly
  have hescalated : ∀ d ∈ (if options.strict then p.simplify.diagnostics.map Diagnostic.escalate
      else p.simplify.diagnostics), OpensPlainly d.message := by
    split
    · intro d hd
      obtain ⟨d', hd', rfl⟩ := List.mem_map.mp hd
      exact hnotes d' hd'
    · exact hnotes
  unfold simplifyStage at h
  split at h
  · split at h
    · cases h
      intro d hd
      obtain rfl := List.mem_singleton.mp hd
      exact .ofList (by decide)
    · dsimp only at h
      generalize (if options.strict then _ else p.simplify.diagnostics) = notes at h hescalated
      split at h
      · -- Notes that count as errors stop the run.
        cases h
        exact hescalated
      · exact opensPlainly_of_evaluateStage (Program.wellFormed_simplify hp) hescalated h
  · exact opensPlainly_of_evaluateStage hp (by simp) h

theorem opensPlainly_of_analyzeStage (hp : p.WellFormed)
    (h : analyzeStage limits options p events = .ok r) :
    ∀ d ∈ r.diagnostics, OpensPlainly d.message := by
  unfold analyzeStage at h
  dsimp only at h
  split at h
  · cases h
    intro d hd
    obtain rfl := List.mem_singleton.mp hd
    exact .ofList (by decide)
  · split at h
    · cases h
      intro d hd
      obtain ⟨fault, -, rfl⟩ := List.mem_map.mp hd
      exact fault.cause.opensPlainly
    · exact opensPlainly_of_simplifyStage hp h

end Stages

/-! ## Whole runs -/

/-- A parsed program can be written as it is. -/
theorem written_of_parse {limits : Limits} {source : String} {p : Program}
    (h : parse source limits = .ok p) : p.Written := by
  have hsource := source_of_parse (fun _ => true) h (fun _ _ => rfl) fun _ _ _ => rfl
  refine Stmt.everywhereAll_mono ?_ ?_ p.statements hsource
  · intro e he
    exact (Expr.isSource_iff.mp he).2.1
  · intro s hs
    exact (Stmt.isSource_iff.mp hs).2.1

/-- Only well-formed programs are run. A parsed program is well-formed at every depth and is written
without signs of integers and without blocks of their own; simplified, it is still well-formed. No
run of it, simplified or not and however far it gets, ends a statement with an error about the form
of the code. So whatever a source text is, a report with such a message is the parser's refusal of a
target, and nothing was run. -/
theorem only_wellFormed_programs_run (source : String) :
    (∀ bounds p, parse source bounds = .ok p →
      p.WellFormed ∧ p.Written ∧ p.simplify.result.WellFormed ∧
        ∀ q ∈ [p, p.simplify.result], ∀ limits, ∀ o ∈ Machine.initial.endings limits q,
          (∀ op pos, o.result ≠ .error (.error ⟨.unknownOperator op, pos⟩)) ∧
          (∀ op pos, o.result ≠ .error (.error ⟨.unknownUnary op, pos⟩)) ∧
          (∀ pos, o.result ≠ .error (.error ⟨.invalidTarget, pos⟩))) ∧
      ∀ limits options r, runSource limits options source = .ok r → ∀ d ∈ r.diagnostics,
        d.BlamesForm → r.stage = .parse ∧
          ∃ pos, parse source limits = .error (.parse ⟨.invalidTarget, pos⟩) := by
  constructor
  · intro bounds p hparse
    have hp := wellFormed_of_parse hparse
    refine ⟨hp, written_of_parse hparse, Program.wellFormed_simplify hp, ?_⟩
    intro q hq limits o ho
    have hq : q.WellFormed := by
      rcases List.mem_cons.mp hq with rfl | hq
      · exact hp
      · obtain rfl := List.mem_singleton.mp hq
        exact Program.wellFormed_simplify hp
    have hform : ∀ e : Located EvalError, e.cause.concernsForm = true →
        o.result ≠ .error (.error e) := by
      intro e he hresult
      rw [Machine.concernsForm_of_mem_endings hq Machine.passes_initial ho hresult] at he
      cases he
    exact ⟨fun op pos => hform _ rfl, fun op pos => hform _ rfl, fun pos => hform _ rfl⟩
  · intro limits options r h d hd hblames
    unfold runSource at h
    dsimp only at h
    split at h
    next e he =>
      cases h
      obtain rfl := List.mem_singleton.mp hd
      exact absurd hblames (OpensPlainly.not_blamesForm e.cause.opensPlainly)
    next e he =>
      cases h
      obtain rfl := List.mem_singleton.mp hd
      by_cases hcause : e.cause = .invalidTarget
      · exact ⟨rfl, e.pos, by rw [he, ← hcause]⟩
      · exact absurd hblames (OpensPlainly.not_blamesForm (Grammar.ParseError.opensPlainly hcause))
    · cases h
      obtain rfl := List.mem_singleton.mp hd
      exact absurd hblames (OpensPlainly.not_blamesForm (.ofList (by decide)))
    · cases h
    next p hp =>
      have hplain := opensPlainly_of_analyzeStage (wellFormed_of_parse hp) h d hd
      exact absurd hblames hplain.not_blamesForm

/-- Simplification brings in what no text can spell, a negative integer and a block, but nothing
that a run would stumble over. -/
theorem only_wellFormed_programs_run_folded :
    let source := "var a := [3 - 5]; if 1 < 2 then a[1] := not true end; a.b := 1"
    ∃ p, parse source = .ok p ∧ p.Written ∧ p.simplify.result.WellFormed ∧
      p.simplify.result.everywhere Expr.isWritten (fun _ => true) = false ∧
      p.simplify.result.everywhere (fun _ => true) Stmt.isWritten = false ∧
      ∀ o ∈ Machine.initial.endings (.bounded 30 30) p.simplify.result,
        ∀ pos, o.result ≠ .error (.error ⟨.invalidTarget, pos⟩) := by
  intro source
  have heval : ((parse source).toOption.elim false fun p =>
      !p.simplify.result.everywhere Expr.isWritten (fun _ => true) &&
        !p.simplify.result.everywhere (fun _ => true) Stmt.isWritten) = true := by
    decide +kernel
  cases hparse : parse source with
  | error e =>
    rw [hparse] at heval
    cases heval
  | ok p =>
    rw [hparse] at heval
    change (_ && _) = true at heval
    rw [Bool.and_eq_true, Bool.not_eq_true', Bool.not_eq_true'] at heval
    obtain ⟨hwellFormed, hwritten, hsimplified, hruns⟩ :=
      (only_wellFormed_programs_run source).1 .standard p hparse
    refine ⟨p, rfl, hwritten, hsimplified, heval.1, heval.2, ?_⟩
    intro o ho
    exact (hruns p.simplify.result (by simp) (.bounded 30 30) o ho).2.2

end Dee
