import Dee.Proofs.Eval.Trace
import Dee.Proofs.Run.Contained

/-!
# Stages of a run

A run that gives a report stopped at one of six places. `Report.Arises` has a case for each of them,
with what the stages before it let through; whatever a report says about its stage, its diagnostics
and its output is read off these cases.

Main statement: `stages_gate_runs`.
-/

namespace Dee

variable {limits : Limits} {options : RunOptions} {source : String} {r : Report}

/-! ## Where a run stops -/

/-- The program that is evaluated in the place of a parsed one. -/
def Program.executed (options : RunOptions) (p : Program) : Program :=
  if options.simplify then p.simplify.result else p

/-- What simplification tells about a parsed program, if there is one. -/
def Program.noted (options : RunOptions) (p : Program) : List Diagnostic :=
  if options.simplify then p.simplify.diagnostics else []

/-- How a run comes to its report. -/
inductive Report.Arises (limits : Limits) (options : RunOptions) (source : String) :
    Report → Prop where
  | unparsed {g : Grammar.Failure} {d : Diagnostic} (events : List Event)
      (hparse : parse source limits = .error g) (hd : g.diagnostic? = some d) :
      Arises limits options source (.stopAt .parse [d] events)
  | tooDeepToAnalyze {p : Program} (events : List Event) (hparse : parse source limits = .ok p)
      (hdeep : limits.analyzed < p.depth) :
      Arises limits options source (.stopAt .analyze [nestingDiagnostic] events)
  | faulty {p : Program} (events : List Event) (hparse : parse source limits = .ok p)
      (hfaults : p.analyze ≠ []) :
      Arises limits options source (.stopAt .analyze p.analyze events)
  | tooDeepToSimplify {p : Program} (events : List Event) (hparse : parse source limits = .ok p)
      (hchecked : p.analyze = []) (hsimplify : options.simplify = true)
      (hdeep : limits.simplified < p.depth) :
      Arises limits options source (.stopAt .optimize [nestingDiagnostic] events)
  | refused {p : Program} (events : List Event) (hparse : parse source limits = .ok p)
      (hchecked : p.analyze = [])
      (hsimplify : options.simplify = true) (hstrict : options.strict = true)
      (hnotes : p.simplify.diagnostics ≠ []) :
      Arises limits options source
        (.stopAt .optimize (p.simplify.diagnostics.map Diagnostic.escalate) events)
  | evaluated {p : Program} {r : Report} (events : List Event)
      (hparse : parse source limits = .ok p)
      (hchecked : p.analyze = [])
      (heval : evaluateStage limits (p.executed options) (p.noted options) events = .ok r) :
      Arises limits options source r

/-- Every fault is an error. -/
theorem hasErrors_analyze {p : Program} : hasErrors p.analyze = true ↔ p.analyze ≠ [] := by
  unfold hasErrors Program.analyze
  cases p.faults with
  | nil => simp
  | cons fault rest => simp [Located.toDiagnostic, Diagnostic.isError, Diagnostic.error]

theorem arises_simplifyStage {p : Program} {events : List Event}
    (hparse : parse source limits = .ok p)
    (hchecked : p.analyze = []) (h : simplifyStage limits options p events = .ok r) :
    r.Arises limits options source := by
  unfold simplifyStage at h
  split at h
  next hsimplify =>
    split at h
    next hdeep =>
      cases h
      exact .tooDeepToSimplify events hparse hchecked hsimplify hdeep
    next =>
      dsimp only at h
      by_cases hstops : options.strict = true ∧ p.simplify.diagnostics ≠ []
      · rw [if_pos ((hasErrors_notes p options.strict).mpr hstops), if_pos hstops.1] at h
        cases h
        exact .refused _ hparse hchecked hsimplify hstops.1 hstops.2
      · rw [if_neg (mt (hasErrors_notes p options.strict).mp hstops)] at h
        -- A strict run that goes on has no note to escalate.
        have hnotes : (if options.strict then p.simplify.diagnostics.map Diagnostic.escalate
            else p.simplify.diagnostics) = p.noted options := by
          rw [Program.noted, if_pos hsimplify]
          split
          next hstrict =>
            have hnone : p.simplify.diagnostics = [] := by
              by_contra hsome
              exact hstops ⟨hstrict, hsome⟩
            rw [hnone]
            rfl
          next => rfl
        have hexecuted : p.simplify.result = p.executed options := by
          rw [Program.executed, if_pos hsimplify]
        rw [hnotes, hexecuted] at h
        exact .evaluated _ hparse hchecked h
  next hplain =>
    refine .evaluated events hparse hchecked ?_
    rw [Program.executed, Program.noted, if_neg hplain, if_neg hplain]
    exact h

theorem arises_analyzeStage {p : Program} {events : List Event}
    (hparse : parse source limits = .ok p)
    (h : analyzeStage limits options p events = .ok r) : r.Arises limits options source := by
  unfold analyzeStage at h
  dsimp only at h
  split at h
  next hdeep =>
    cases h
    exact .tooDeepToAnalyze _ hparse hdeep
  next =>
    split at h
    next hfaults =>
      cases h
      exact .faulty _ hparse (hasErrors_analyze.mp hfaults)
    next hclean =>
      refine arises_simplifyStage hparse ?_ h
      by_contra hfaults
      exact hclean (hasErrors_analyze.mpr hfaults)

theorem arises_of_runSource (h : runSource limits options source = .ok r) :
    r.Arises limits options source := by
  unfold runSource at h
  dsimp only at h
  split at h
  next e hparse =>
    cases h
    exact .unparsed _ hparse rfl
  next e hparse =>
    cases h
    exact .unparsed _ hparse rfl
  next hparse =>
    cases h
    exact .unparsed _ hparse rfl
  next => cases h
  next p hparse => exact arises_analyzeStage hparse h

/-! ## Severities -/

theorem Report.exitCode_eq_zero_iff : r.exitCode = 0 ↔ hasErrors r.diagnostics = false := by
  unfold Report.exitCode Report.ok
  cases hasErrors r.diagnostics <;> simp

theorem hasErrors_eq_false_iff {ds : List Diagnostic} :
    hasErrors ds = false ↔ ∀ d ∈ ds, d.severity ≠ .error := by
  simp [hasErrors, Diagnostic.isError]

theorem Grammar.Failure.isError_of_diagnostic? {g : Grammar.Failure} {d : Diagnostic}
    (h : g.diagnostic? = some d) : d.isError = true := by
  cases g with
  | scan e => cases h; rfl
  | parse e => cases h; rfl
  | tooDeep => cases h; rfl
  | longPosition n => cases h

theorem severity_of_mem_noted {p : Program} {d : Diagnostic} (h : d ∈ p.noted options) :
    d.severity = .info := by
  unfold Program.noted at h
  split at h
  next =>
    obtain ⟨note, -, rfl⟩ := List.mem_map.mp h
    rfl
  next => cases h

/-- A statement that is reported is reported by an error. -/
theorem Ending.severity_of_diagnostic? {o : Ending} {d : Diagnostic} (h : o.diagnostic? = some d) :
    d.severity = .error := by
  obtain ⟨s, result⟩ := o
  unfold Ending.diagnostic? at h
  rcases result with (e | _ | a) | _ | signal <;> cases h <;> rfl

/-! ## Evaluation -/

namespace Machine

/-- If no statement aborts a run, each of them ends in its turn. -/
theorem statements_endingsFrom {runner : Runner} {frame : Nat} {ss : List Stmt}
    {seen ds : List Diagnostic} {m m' : Machine}
    (h : runStmts runner frame ss seen m = (.ok ds, m')) :
    (endingsFrom runner frame ss m).map Ending.statement = ss := by
  induction ss generalizing seen m with
  | nil => rfl
  | cons s rest ih =>
    obtain ⟨result, d, m₁, hx, hv, hrest⟩ := exists_of_runStmts_cons h
    rw [endingsFrom_cons hx hv, List.map_cons, ih hrest]

theorem statements_endings {p : Program} {ds : List Diagnostic} {m m' : Machine}
    (h : m.run limits p = (.ok ds, m')) :
    (m.endings limits p).map Ending.statement = p.statements :=
  statements_endingsFrom h

end Machine

/-- A report of evaluation: the diagnostics of the endings come behind the notes, and decide the
stage. -/
theorem evaluateStage_eq_ok {p : Program} {notes : List Diagnostic} {events : List Event}
    (h : evaluateStage limits p notes events = .ok r) :
    r.stage = (if hasErrors r.diagnostics then .interpret else .done) ∧
    r.diagnostics = notes ++ (Machine.initial.endings limits p).filterMap Ending.diagnostic? ∧
    (Machine.initial.endings limits p).map Ending.statement = p.statements := by
  obtain ⟨ds, m, hrun⟩ := exists_of_evaluateStage h
  rw [← Machine.run_ok hrun]
  refine ⟨?_, ?_, Machine.statements_endings hrun⟩ <;>
  · unfold evaluateStage at h
    rw [hrun] at h
    dsimp only at h
    split at h <;> cases h <;> simp [*]

theorem stage_evaluated {p : Program} {notes : List Diagnostic} {events : List Event}
    (h : evaluateStage limits p notes events = .ok r) : r.stage = .interpret ∨ r.stage = .done := by
  rw [(evaluateStage_eq_ok h).1]
  split
  · exact Or.inl rfl
  · exact Or.inr rfl

/-! ## Whole runs -/

namespace Report.Arises

/-- A run is done exactly if nothing that it reports is an error. -/
theorem done_iff (h : r.Arises limits options source) :
    r.stage = .done ↔ hasErrors r.diagnostics = false := by
  cases h with
  | unparsed events hparse hd =>
    have herror : hasErrors [_] = true := List.any_eq_true.mpr
      ⟨_, List.mem_singleton_self _, Grammar.Failure.isError_of_diagnostic? hd⟩
    simp [stopAt, herror]
  | tooDeepToAnalyze =>
    simp [stopAt, hasErrors, nestingDiagnostic, Diagnostic.isError, Diagnostic.error]
  | faulty events hparse hfaults => simp [stopAt, hasErrors_analyze.mpr hfaults]
  | tooDeepToSimplify =>
    simp [stopAt, hasErrors, nestingDiagnostic, Diagnostic.isError, Diagnostic.error]
  | refused events hparse hchecked hsimplify hstrict hnotes =>
    simp [stopAt, hasErrors_escalated hnotes]
  | evaluated events hparse hchecked heval =>
    rw [(evaluateStage_eq_ok heval).1]
    cases hasErrors r.diagnostics <;> simp

/-- Only evaluation prints. -/
theorem stage_of_output (h : r.Arises limits options source) (houtput : r.output ≠ "") :
    r.stage = .interpret ∨ r.stage = .done := by
  cases h with
  | evaluated events hparse hchecked heval => exact stage_evaluated heval
  | _ => exact absurd rfl houtput

theorem of_parse (h : r.Arises limits options source) (hstage : r.stage = .parse) :
    ∃ g d, parse source limits = .error g ∧ g.diagnostic? = some d ∧ r.diagnostics = [d] := by
  cases h with
  | unparsed events hparse hd => exact ⟨_, _, hparse, hd, rfl⟩
  | evaluated events hparse hchecked heval =>
    exact absurd (stage_evaluated heval) (by simp [hstage])
  | _ => cases hstage

theorem of_analyze (h : r.Arises limits options source) (hstage : r.stage = .analyze) :
    ∃ p, parse source limits = .ok p ∧
      (limits.analyzed < p.depth ∧ r.diagnostics = [nestingDiagnostic] ∨
        p.analyze ≠ [] ∧ r.diagnostics = p.analyze) := by
  cases h with
  | tooDeepToAnalyze events hparse hdeep => exact ⟨_, hparse, Or.inl ⟨hdeep, rfl⟩⟩
  | faulty events hparse hfaults => exact ⟨_, hparse, Or.inr ⟨hfaults, rfl⟩⟩
  | evaluated events hparse hchecked heval =>
    exact absurd (stage_evaluated heval) (by simp [hstage])
  | _ => cases hstage

theorem of_optimize (h : r.Arises limits options source) (hstage : r.stage = .optimize) :
    options.simplify = true ∧ ∃ p, parse source limits = .ok p ∧ p.analyze = [] ∧
      (limits.simplified < p.depth ∧ r.diagnostics = [nestingDiagnostic] ∨
        options.strict = true ∧ p.simplify.diagnostics ≠ [] ∧
          r.diagnostics = p.simplify.diagnostics.map Diagnostic.escalate) := by
  cases h with
  | tooDeepToSimplify events hparse hchecked hsimplify hdeep =>
    exact ⟨hsimplify, _, hparse, hchecked, Or.inl ⟨hdeep, rfl⟩⟩
  | refused events hparse hchecked hsimplify hstrict hnotes =>
    exact ⟨hsimplify, _, hparse, hchecked, Or.inr ⟨hstrict, hnotes, rfl⟩⟩
  | evaluated events hparse hchecked heval =>
    exact absurd (stage_evaluated heval) (by simp [hstage])
  | _ => cases hstage

theorem of_evaluation (h : r.Arises limits options source)
    (hstage : r.stage = .interpret ∨ r.stage = .done) :
    ∃ p events, parse source limits = .ok p ∧ p.analyze = [] ∧
      evaluateStage limits (p.executed options) (p.noted options) events = .ok r := by
  cases h with
  | evaluated events hparse hchecked heval => exact ⟨_, events, hparse, hchecked, heval⟩
  | _ => rcases hstage with ⟨⟨⟩⟩ | ⟨⟨⟩⟩

end Report.Arises

/-- Stages gate a run. Take a run that gives a report. It is done exactly if its exit code is zero,
and that is zero exactly if nothing it reports is an error. Only evaluation prints. A text that is
not parsed is reported by one diagnostic, the failure of parsing. Scope analysis stops the run by
the nesting limit or by its faults, of which there is one at least. Simplification stops it only if
it is asked for: by the nesting limit, or in a strict run by its notes, all of them as errors.
Behind that the report holds the notes, as notes, and then the errors of evaluation: the top-level
statements of the evaluated program end one after the other, and each is reported at most once. -/
theorem stages_gate_runs (limits : Limits) (options : RunOptions) (source : String) (r : Report)
    (h : runSource limits options source = .ok r) :
    (r.stage = .done ↔ r.exitCode = 0) ∧
    (r.exitCode = 0 ↔ ∀ d ∈ r.diagnostics, d.severity ≠ .error) ∧
    (r.output ≠ "" → r.stage = .interpret ∨ r.stage = .done) ∧
    (r.stage = .parse → ∃ g d, parse source limits = .error g ∧ g.diagnostic? = some d ∧
      r.diagnostics = [d]) ∧
    (r.stage = .analyze → ∃ p, parse source limits = .ok p ∧
      (limits.analyzed < p.depth ∧ r.diagnostics = [nestingDiagnostic] ∨
        p.analyze ≠ [] ∧ r.diagnostics = p.analyze)) ∧
    (r.stage = .optimize → options.simplify = true ∧ ∃ p, parse source limits = .ok p ∧
      p.analyze = [] ∧
      (limits.simplified < p.depth ∧ r.diagnostics = [nestingDiagnostic] ∨
        options.strict = true ∧ p.simplify.diagnostics ≠ [] ∧
          r.diagnostics = p.simplify.diagnostics.map Diagnostic.escalate)) ∧
    (r.stage = .interpret ∨ r.stage = .done → ∃ p, parse source limits = .ok p ∧ p.analyze = [] ∧
      let endings := Machine.initial.endings limits (p.executed options)
      r.diagnostics = p.noted options ++ endings.filterMap Ending.diagnostic? ∧
      (∀ d ∈ p.noted options, d.severity = .info) ∧
      endings.map Ending.statement = (p.executed options).statements ∧
      ∀ o ∈ endings, ∀ d, o.diagnostic? = some d → d.severity = .error) := by
  have harises := arises_of_runSource h
  refine ⟨?_, ?_, harises.stage_of_output, harises.of_parse, harises.of_analyze,
    harises.of_optimize, ?_⟩
  · rw [harises.done_iff, Report.exitCode_eq_zero_iff]
  · rw [Report.exitCode_eq_zero_iff, hasErrors_eq_false_iff]
  · intro hstage
    obtain ⟨p, events, hparse, hchecked, heval⟩ := harises.of_evaluation hstage
    obtain ⟨-, hdiagnostics, hstatements⟩ := evaluateStage_eq_ok heval
    exact ⟨p, hparse, hchecked, hdiagnostics, fun d => severity_of_mem_noted, hstatements,
      fun o _ d => o.severity_of_diagnostic?⟩

/-- A note on the first statement, and failures of the second and the last one of four. -/
theorem stages_gate_runs_two_failures :
    let source := "print 1 + 2; print 4 / 0; print 5; print -\"a\""
    ∃ r p, runSource (.bounded 30 30) .standard source = .ok r ∧
      parse source (.bounded 30 30) = .ok p ∧
      r.stage = .interpret ∧ r.output = "3\n5\n" ∧ r.exitCode ≠ 0 ∧
      r.diagnostics.map Diagnostic.severity = [.info, .error, .error] ∧
      r.diagnostics = p.noted .standard ++
        (Machine.initial.endings (.bounded 30 30) (p.executed .standard)).filterMap
          Ending.diagnostic? ∧
      (Machine.initial.endings (.bounded 30 30) (p.executed .standard)).length = 4 := by
  intro source
  have heval :
      (match runSource (.bounded 30 30) .standard source, parse source (.bounded 30 30) with
      | .ok r, .ok p => decide (r.stage = .interpret) && decide (r.output = "3\n5\n") &&
        decide (r.diagnostics.map Diagnostic.severity = [.info, .error, .error]) &&
        decide ((p.executed .standard).statements.length = 4)
      | _, _ => false) = true := by
    decide +kernel
  split at heval
  next r p hrun hparse =>
    simp only [Bool.and_eq_true, decide_eq_true_iff] at heval
    obtain ⟨⟨⟨hstage, houtput⟩, hseverities⟩, hlength⟩ := heval
    obtain ⟨hdone, -, -, -, -, -, hevaluated⟩ :=
      stages_gate_runs (.bounded 30 30) .standard source r hrun
    obtain ⟨p', hparse', -, hdiagnostics, -, hstatements, -⟩ := hevaluated (Or.inl hstage)
    cases hparse.symm.trans hparse'
    refine ⟨r, p, hrun, hparse, hstage, houtput, ?_, hseverities, hdiagnostics, ?_⟩
    · rw [Ne, ← hdone, hstage]
      simp
    · rw [← hlength, ← hstatements, List.length_map]
  · cases heval

end Dee
