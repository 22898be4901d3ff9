import Dee.Proofs.Simplify.Preserved
import Dee.Proofs.Simplify.Truthful

/-!
# Strict runs

In a strict run every note of the simplification counts as an error, so the run stops before
evaluation as soon as there is one. Since notes tell the whole truth, a strict run evaluates only
programs that simplification leaves as they are, and shows of them what a run without simplification
shows.

Main statement: `strict_runs_are_exact`.
-/

namespace Dee

/-! ## What a run shows -/

/-- What a run shows: where it stopped, what was printed, and what is told to the user. The events
on the way are left out. -/
def Report.shown (r : Report) : Stage × String × List Diagnostic :=
  (r.stage, r.output, r.diagnostics)

/-- What evaluation shows does not depend on the events before it. -/
theorem shown_evaluateStage (limits : Limits) (p : Program) (notes : List Diagnostic)
    (events events' : List Event) :
    (evaluateStage limits p notes events).map Report.shown =
      (evaluateStage limits p notes events').map Report.shown := by
  unfold evaluateStage
  rcases Machine.initial.run limits p with ⟨_ | failures, m⟩
  · rfl
  · by_cases h : hasErrors (notes ++ failures) = true
    · simp only [h, if_true]
      rfl
    · simp only [h]
      rfl

/-- Evaluation is not the stage of simplification. -/
theorem stage_of_evaluateStage {limits : Limits} {p : Program} {notes : List Diagnostic}
    {events : List Event} {r : Report} (h : evaluateStage limits p notes events = .ok r) :
    r.stage ≠ .optimize := by
  unfold evaluateStage at h
  split at h
  · cases h
  · dsimp only at h
    split at h <;> cases h <;> simp

/-! ## Escalated notes -/

theorem hasErrors_escalated {ds : List Diagnostic} (h : ds ≠ []) :
    hasErrors (ds.map Diagnostic.escalate) = true := by
  obtain ⟨d, hd⟩ := List.exists_mem_of_ne_nil ds h
  exact List.any_eq_true.mpr ⟨d.escalate, List.mem_map_of_mem hd, rfl⟩

/-- A strict run stops at a note. -/
theorem simplifyStage_strict_noted {limits : Limits} {p : Program}
    (hdepth : p.depth ≤ limits.simplified) (hnotes : p.simplify.diagnostics ≠ [])
    (events : List Event) :
    ∃ r, simplifyStage limits ⟨true, true⟩ p events = .ok r ∧ r.stage = .optimize ∧
      r.output = "" := by
  unfold simplifyStage
  simp only [if_true, Nat.not_lt.mpr hdepth, if_false, hasErrors_escalated hnotes]
  exact ⟨_, rfl, rfl, rfl⟩

/-- A strict run without a note evaluates the simplified program. -/
theorem simplifyStage_strict_quiet (limits : Limits) {p : Program}
    (hdepth : p.depth ≤ limits.simplified) (hnotes : p.simplify.diagnostics = [])
    (events : List Event) :
    ∃ events', simplifyStage limits ⟨true, true⟩ p events =
      evaluateStage limits p.simplify.result [] events' := by
  unfold simplifyStage
  simp only [if_true, Nat.not_lt.mpr hdepth, if_false, hnotes]
  exact ⟨_, rfl⟩

/-! ## Runs -/

/-- A program notes nothing exactly if it stays as it is, and gets smaller otherwise. -/
theorem Program.diagnostics_simplify {p : Program} (h : p.WellFormed) :
    (p.simplify.diagnostics = [] ↔ p.simplify.result = p) ∧
      (p.simplify.diagnostics ≠ [] → p.simplify.result.size < p.size) := by
  have htruthful := Program.truthful_simplify h
  have hnil : p.simplify.diagnostics = [] ↔ p.simplify.notes = [] := List.map_eq_nil_iff
  constructor
  · rw [hnil]
    exact htruthful.notes_eq_nil_iff
  · intro hsome
    exact htruthful.lt_of_notes fun hnotes => hsome (hnil.mpr hnotes)

/-- Notes tell the whole truth, so strict runs are exact. Simplifying a parsed program notes nothing
if and only if it gives the program back, and whenever it notes something the result has fewer
nodes. If moreover the program has no fault and is not nested too deeply, its strict run stops
before evaluation, with nothing printed, if simplification changes the program; otherwise it gets to
evaluation and shows what every run without simplification shows, and ends without a report if and
only if such a run does. -/
theorem strict_runs_are_exact (limits : Limits) (source : String) (p : Program)
    (hparse : parse source limits = .ok p) :
    (p.simplify.diagnostics = [] ↔ p.simplify.result = p) ∧
      (p.simplify.diagnostics ≠ [] → p.simplify.result.size < p.size) ∧
      (p.analyze = [] → p.depth ≤ limits.analyzed → p.depth ≤ limits.simplified → ∀ strict : Bool,
        (p.simplify.result ≠ p → ∃ r, runSource limits ⟨true, true⟩ source = .ok r ∧
          r.stage = .optimize ∧ r.output = "") ∧
        (p.simplify.result = p →
          (∀ r, runSource limits ⟨true, true⟩ source = .ok r → r.stage ≠ .optimize) ∧
          (runSource limits ⟨true, true⟩ source).map Report.shown =
            (runSource limits ⟨false, strict⟩ source).map Report.shown)) := by
  obtain ⟨hexact, hsmaller⟩ := Program.diagnostics_simplify (wellFormed_of_parse hparse)
  refine ⟨hexact, hsmaller, ?_⟩
  intro hcheck hshallow hdepth strict
  obtain ⟨events, hstages⟩ := runSource_eq hparse hcheck hshallow ⟨true, true⟩
  obtain ⟨events', hplain⟩ := runSource_eq hparse hcheck hshallow ⟨false, strict⟩
  rw [hstages, hplain]
  constructor
  · intro hchanged
    exact simplifyStage_strict_noted hdepth (fun hnone => hchanged (hexact.mp hnone)) events
  · intro hsame
    obtain ⟨events'', heval⟩ :=
      simplifyStage_strict_quiet limits hdepth (hexact.mpr hsame) events
    rw [heval, hsame]
    exact ⟨fun r hr => stage_of_evaluateStage hr, shown_evaluateStage limits p [] _ _⟩

/-- A call whose argument is folded stops the strict run; the same call without the folding runs,
fails in the function, and shows what it shows without simplification. -/
theorem strict_runs_are_exact_folded_argument :
    let noted := "var f := func(n) => n / 0; print 1; f(1 + 2)"
    let plain := "var f := func(n) => n / 0; print 1; f(3)"
    (∃ p r, parse noted (.bounded 30 30) = .ok p ∧ p.simplify.result.size < p.size ∧
      runSource (.bounded 30 30) ⟨true, true⟩ noted = .ok r ∧ r.stage = .optimize ∧ r.output = "") ∧
    ∃ p, parse plain (.bounded 30 30) = .ok p ∧ p.simplify.result = p ∧
      (runSource (.bounded 30 30) ⟨true, true⟩ plain).map Report.shown =
        (runSource (.bounded 30 30) ⟨false, false⟩ plain).map Report.shown ∧
      (runSource (.bounded 30 30) ⟨true, true⟩ plain).map (fun r => (r.stage, r.output)) =
        .ok (.interpret, "1\n") := by
  intro noted plain
  constructor
  · have heval : (match parse noted (.bounded 30 30) with
        | .ok p => p.analyze.isEmpty && decide (p.depth ≤ (Limits.bounded 30 30).simplified) &&
          !p.simplify.diagnostics.isEmpty
        | .error _ => false) = true := by
      decide +kernel
    split at heval
    next p hparse =>
      simp only [Bool.and_eq_true, List.isEmpty_iff, decide_eq_true_iff, Bool.not_eq_true',
        List.isEmpty_eq_false_iff] at heval
      obtain ⟨⟨hcheck, hdepth⟩, hnotes⟩ := heval
      obtain ⟨hexact, hsmaller, hruns⟩ := strict_runs_are_exact _ noted p hparse
      obtain ⟨r, hr⟩ := (hruns hcheck (Nat.le_trans hdepth (by decide)) hdepth false).1 fun h =>
        hnotes (hexact.mpr h)
      exact ⟨p, r, hparse, hsmaller hnotes, hr⟩
    · cases heval
  · have heval : (match parse plain (.bounded 30 30) with
        | .ok p => p.analyze.isEmpty && decide (p.depth ≤ (Limits.bounded 30 30).simplified) &&
          p.simplify.diagnostics.isEmpty
        | .error _ => false) = true := by
      decide +kernel
    split at heval
    next p hparse =>
      simp only [Bool.and_eq_true, List.isEmpty_iff, decide_eq_true_iff] at heval
      obtain ⟨⟨hcheck, hdepth⟩, hnotes⟩ := heval
      obtain ⟨hexact, -, hruns⟩ := strict_runs_are_exact _ plain p hparse
      have hsame := hexact.mp hnotes
      have hshallow : p.depth ≤ (Limits.bounded 30 30).analyzed := Nat.le_trans hdepth (by decide)
      exact ⟨p, hparse, hsame, ((hruns hcheck hshallow hdepth false).2 hsame).2, by decide +kernel⟩
    · cases heval

end Dee
