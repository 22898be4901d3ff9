import Dee.Proofs.Refinement.Checked
import Dee.Proofs.Simplify.Refined
import Dee.Run

/-!
# Simplification preserves runs

A program that was parsed and has no fault runs as its simplified form does, as long as the
variables that are removed have plain initial values and no limit is hit: the same is printed, and
the same errors are reported at the same positions.

Main statement: `simplification_preserves_runs`.
-/

namespace Dee

/-! ## Reports -/

/-- Whether a run was cut off because something is nested too deeply. -/
def Report.hitsLimit (r : Report) : Bool :=
  r.diagnostics.any fun d => d.message = tooDeepMessage || d = nestingDiagnostic

/-- What a run shows of evaluating a program: what was printed, the errors, and the exit code. -/
structure Report.Shows (r : Report) (output : String) (ds : List Diagnostic) : Prop where
  output : r.output = output
  errors : r.errors = ds.filter Diagnostic.isError
  exitCode : r.exitCode = if hasErrors ds then 1 else 0

theorem hasErrors_append (ds ds' : List Diagnostic) :
    hasErrors (ds ++ ds') = (hasErrors ds || hasErrors ds') :=
  List.any_append

/-- Evaluation reports what the run reports, behind the notes. -/
theorem evaluateStage_ok {limits : Limits} {p : Program} {ds : List Diagnostic} {m : Machine}
    (hrun : Machine.initial.run limits p = (.ok ds, m)) {notes : List Diagnostic}
    (hnotes : ∀ d ∈ notes, d.isError = false) (events : List Event) :
    ∃ r, evaluateStage limits p notes events = .ok r ∧ r.diagnostics = notes ++ ds ∧
      r.Shows m.output ds := by
  have hquiet : hasErrors notes = false := by
    simpa [hasErrors] using hnotes
  have hfilter : notes.filter Diagnostic.isError = [] := by
    simpa [List.filter_eq_nil_iff] using hnotes
  unfold evaluateStage
  simp only [hrun]
  split
  next h =>
    refine ⟨_, rfl, rfl, rfl, ?_, ?_⟩
    · simp [Report.errors, hfilter]
    · rw [hasErrors_append, hquiet, Bool.false_or] at h
      simp [Report.exitCode, Report.ok, hasErrors_append, hquiet, h]
  next h =>
    refine ⟨_, rfl, rfl, rfl, ?_, ?_⟩
    · simp [Report.errors, hfilter]
    · rw [hasErrors_append, hquiet, Bool.false_or] at h
      simp [Report.exitCode, Report.ok, hasErrors_append, hquiet, h]

/-- A report of evaluation comes from a run that was not aborted. -/
theorem exists_of_evaluateStage {limits : Limits} {p : Program} {notes : List Diagnostic}
    {events : List Event} {r : Report} (h : evaluateStage limits p notes events = .ok r) :
    ∃ ds m, Machine.initial.run limits p = (.ok ds, m) := by
  unfold evaluateStage at h
  split at h
  · cases h
  next ds m hrun => exact ⟨ds, m, hrun⟩

theorem isError_of_mem_diagnostics {α : Type} {n : Noted α} {d : Diagnostic}
    (h : d ∈ n.diagnostics) : d.isError = false := by
  obtain ⟨note, -, rfl⟩ := List.mem_map.mp h
  rfl

/-! ## Stages -/

/-- A checked program reaches the stage of simplification. -/
theorem runSource_eq {limits : Limits} {source : String} {p : Program}
    (hparse : parse source limits = .ok p) (hcheck : p.analyze = [])
    (hdepth : p.depth ≤ limits.analyzed) (options : RunOptions) :
    ∃ events, runSource limits options source = simplifyStage limits options p events := by
  unfold runSource
  simp only [hparse]
  unfold analyzeStage
  rw [if_neg (Nat.not_lt.mpr hdepth), hcheck]
  exact ⟨_, rfl⟩

/-- A program that is too deep for the analysis hits a limit. -/
theorem depth_le_of_not_hitsLimit {limits : Limits} {source : String} {p : Program}
    (hparse : parse source limits = .ok p) {options : RunOptions} {r : Report}
    (hrun : runSource limits options source = .ok r) (hlimit : r.hitsLimit = false) :
    p.depth ≤ limits.analyzed := by
  by_contra hdeep
  unfold runSource at hrun
  simp only [hparse] at hrun
  unfold analyzeStage at hrun
  rw [if_pos (Nat.lt_of_not_le hdeep)] at hrun
  cases hrun
  simp [Report.hitsLimit, Report.stopAt] at hlimit

/-! ## Runs within the limit -/

/-- Nesting beyond the limit would have been reported. -/
theorem ne_tooDeep_of_mem_endings {limits : Limits} {p : Program} {ds : List Diagnostic}
    {m : Machine} (hrun : Machine.initial.run limits p = (.ok ds, m))
    (hlimit : ∀ d ∈ ds, d.message ≠ tooDeepMessage) {o : Ending}
    (ho : o ∈ Machine.initial.endings limits p) : o.result ≠ .error .tooDeep := by
  intro hdeep
  obtain ⟨s, result⟩ := o
  subst hdeep
  have hmem : Diagnostic.error tooDeepMessage s.pos ∈ ds := by
    rw [Machine.run_ok hrun]
    exact List.mem_filterMap.mpr ⟨_, ho, rfl⟩
  exact hlimit _ hmem rfl

/-! ## Parsed programs -/

/-- What simplification asks of a program holds of every parsed one, but for the removed
variables. -/
theorem simplifies_of_parse {limits : Limits} {source : String} {p : Program}
    (hparse : parse source limits = .ok p)
    (hplain : ∀ v ∈ p.removed, v.isPlain = true) :
    Stmt.AllSimplify p.references p.statements where
  references := fun _ hname => hname
  plain := hplain
  placed := by
    obtain ⟨htokens, hending⟩ := Feed.genuine_ofText source
    have hsource := source_of_parse Pos.isPlace hparse (fun t ht => (htokens t ht).2)
      fun t ht _ => (hending t ht).2
    refine Stmt.everywhereAll_mono (fun _ _ => rfl) ?_ p.statements hsource
    intro s hs
    exact (Stmt.isSource_iff.mp hs).2.2

/-- A run of the simplified program reports what the run of the program reports, and prints the
same. -/
theorem run_simplified {limits : Limits} {source : String} {p : Program}
    (hparse : parse source limits = .ok p) (hcheck : p.analyze = [])
    (hplain : ∀ v ∈ p.removed, v.isPlain = true)
    {ds : List Diagnostic} {m : Machine} (hrun : Machine.initial.run limits p = (.ok ds, m))
    (hlimit : ∀ d ∈ ds, d.message ≠ tooDeepMessage) :
    ∃ n, Machine.initial.run limits p.simplify.result = (.ok ds, n) ∧ n.output = m.output := by
  have hcode : Stmt.RefinesAll (IsKept p.references) p.statements
      p.simplify.result.statements := by
    rw [Program.simplify_result]
    exact Stmt.refinesAll_simplify p.references p.statements (simplifies_of_parse hparse hplain)
  obtain ⟨outcome, m', n, hm', hn, houtput⟩ :=
    Machine.run_checked hcheck (wellFormed_of_parse hparse) hcode
      (Machine.alike_initial _ .initial) fun o ho => ne_tooDeep_of_mem_endings hrun hlimit ho
  cases hrun.symm.trans hm'
  exact ⟨n, hn, houtput.trans String.empty_append⟩

/-- A program that is too deep for simplification hits a limit. -/
theorem simplifyStage_tooDeep {limits : Limits} {p : Program} (hdepth : limits.simplified < p.depth)
    (events : List Event) :
    ∃ r, simplifyStage limits ⟨true, false⟩ p events = .ok r ∧ r.hitsLimit = true := by
  unfold simplifyStage
  rw [if_pos rfl, if_pos hdepth]
  exact ⟨_, rfl, by simp [Report.hitsLimit, Report.stopAt]⟩

/-- The notes of a simplification are no errors, so the simplified program is evaluated. -/
theorem simplifyStage_ok {limits : Limits} {p : Program} (hdepth : p.depth ≤ limits.simplified)
    {ds : List Diagnostic} {n : Machine}
    (hrun : Machine.initial.run limits p.simplify.result = (.ok ds, n)) (events : List Event) :
    ∃ r, simplifyStage limits ⟨true, false⟩ p events = .ok r ∧ r.Shows n.output ds := by
  have hnotes : ∀ d ∈ p.simplify.diagnostics, d.isError = false := fun d hd =>
    isError_of_mem_diagnostics hd
  have hquiet : hasErrors p.simplify.diagnostics = false := by
    simpa [hasErrors] using hnotes
  unfold simplifyStage
  simp only [Nat.not_lt.mpr hdepth, hquiet, if_true, if_false, Bool.false_eq_true]
  obtain ⟨r, hr, -, hshows⟩ := evaluateStage_ok hrun hnotes _
  exact ⟨r, hr, hshows⟩

/-- Simplification preserves what a program does. Take a source text that parses to a program
without faults, and let every variable that simplification removes have no initial value, or one
that is a literal, a reference or a function; the removed variables are those that the notes name.
If its run without simplification gives a report, and neither run hits a limit of nesting, then its
run with simplification gives a report as well, with the same output, the same errors in the same
order at the same positions, and the same exit code. -/
theorem simplification_preserves_runs (limits : Limits) (source : String) (p : Program)
    (hparse : parse source limits = .ok p) (hcheck : p.analyze = [])
    (hplain : ∀ v ∈ p.removed, v.isPlain = true) (strict : Bool) (r : Report)
    (hrun : runSource limits ⟨false, strict⟩ source = .ok r) (hlimit : r.hitsLimit = false)
    (hlimit' : ∀ r', runSource limits ⟨true, false⟩ source = .ok r' → r'.hitsLimit = false) :
    unusedNames p.simplify.notes = p.removed.map VarDef.name ∧
      ∃ r', runSource limits ⟨true, false⟩ source = .ok r' ∧ r'.output = r.output ∧
        r'.errors = r.errors ∧ r'.exitCode = r.exitCode := by
  refine ⟨p.names_removed, ?_⟩
  have hdepth := depth_le_of_not_hitsLimit hparse hrun hlimit
  obtain ⟨events, hstages⟩ := runSource_eq hparse hcheck hdepth ⟨false, strict⟩
  obtain ⟨events', hstages'⟩ := runSource_eq hparse hcheck hdepth ⟨true, false⟩
  have heval : evaluateStage limits p [] events = .ok r := hstages.symm.trans hrun
  obtain ⟨ds, m, hm⟩ := exists_of_evaluateStage heval
  have hnone : ∀ d ∈ ([] : List Diagnostic), d.isError = false := by simp
  obtain ⟨r₁, hr₁, hds, hshows⟩ := evaluateStage_ok hm hnone events
  cases hr₁.symm.trans heval
  have hquiet : ∀ d ∈ ds, d.message ≠ tooDeepMessage := by
    intro d hd hmessage
    have hany : r.hitsLimit = true :=
      List.any_eq_true.mpr ⟨d, by rw [hds]; exact hd, by simp [hmessage]⟩
    rw [hlimit] at hany
    cases hany
  have hshallow : p.depth ≤ limits.simplified := by
    by_contra hdeep
    obtain ⟨r', hr', hhits⟩ := simplifyStage_tooDeep (Nat.lt_of_not_le hdeep) events'
    rw [hlimit' r' (hstages'.trans hr')] at hhits
    cases hhits
  obtain ⟨n, hn, houtput⟩ := run_simplified hparse hcheck hplain hm hquiet
  obtain ⟨r', hr', hshows'⟩ := simplifyStage_ok hshallow hn events'
  refine ⟨r', hstages'.trans hr', ?_, ?_, ?_⟩
  · rw [hshows'.output, hshows.output, houtput]
  · rw [hshows'.errors, hshows.errors]
  · rw [hshows'.exitCode, hshows.exitCode]

/-- A function is stored in an array under a second name of the array and called from there. Its
body lost a conditional, a variable is removed, and the division by a folded zero is still
reported. -/
theorem simplification_preserves_runs_through_alias :
    let source := "var a := [2], b := a, c := a; b[2] := func(n) is if true then " ++
      "return n / (1 - 1) end end; a[2](3); print a[1]"
    ∃ p r, parse source (.bounded 30 30) = .ok p ∧ p.analyze = [] ∧
      (∀ v ∈ p.removed, v.isPlain = true) ∧
      p.removed.length = 1 ∧ unusedNames p.simplify.notes = p.removed.map VarDef.name ∧
      runSource (.bounded 30 30) ⟨false, false⟩ source = .ok r ∧
      r.hitsLimit = false ∧ r.output = "2\n" ∧ r.errors.length = 1 ∧
      ∃ r', runSource (.bounded 30 30) ⟨true, false⟩ source = .ok r' ∧ r'.output = r.output ∧
        r'.errors = r.errors ∧ r'.exitCode = r.exitCode := by
  intro source
  have heval :
    (match parse source (.bounded 30 30), runSource (.bounded 30 30) ⟨false, false⟩ source,
        runSource (.bounded 30 30) ⟨true, false⟩ source with
      | .ok p, .ok r, .ok r' => p.analyze.isEmpty && p.removed.all VarDef.isPlain &&
        decide (p.removed.length = 1) && !r.hitsLimit && decide (r.output = "2\n") &&
        decide (r.errors.length = 1) && !r'.hitsLimit
      | _, _, _ => false) = true := by
    decide +kernel
  split at heval
  next p r r' hparse hrun hrun' =>
    simp only [Bool.and_eq_true, List.isEmpty_iff, List.all_eq_true, decide_eq_true_iff,
      Bool.not_eq_true'] at heval
    obtain ⟨⟨⟨⟨⟨⟨hcheck, hplain⟩, hremoved⟩, hlimit⟩, houtput⟩, herrors⟩, hlimit'⟩ := heval
    have hpreserved :=
      simplification_preserves_runs (.bounded 30 30) source p hparse hcheck hplain false
      r hrun hlimit
    obtain ⟨hnames, hsimplified⟩ := hpreserved <| by
      intro r'' hr''
      cases hrun'.symm.trans hr''
      exact hlimit'
    exact ⟨p, r, hparse, hcheck, hplain, hremoved, hnames, hrun, hlimit, houtput, herrors,
      hsimplified⟩
  · cases heval

end Dee
