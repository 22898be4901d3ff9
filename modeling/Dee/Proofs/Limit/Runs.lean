import Dee.Proofs.Limit.Runners
import Dee.Proofs.Run.Stages

/-!
# Runs under two limits

A top-level statement that is not cut off under one limit ends the same way under every greater one,
with the same output and the same state, so a run in which nothing is cut off stays as it is. A
statement that is nested too deeply for the limit is reported once, at its own position, and the
statements behind it still run.

Main statement: `recursion_limit_only_cuts_off`.
-/

namespace Dee

open Eval

theorem Failure.isCut_iff {f : Failure} :
    f.isCut = true ↔ f = .tooDeep ∨ f = .abort .outOfTurns := by
  cases f with
  | error e => simp [isCut]
  | tooDeep => simp [isCut]
  | abort a => simp [isCut]

namespace Machine

variable {r r' : Runner} {frame : Nat} {m : Machine}

/-- A statement that is not cut off ends the same way with a runner that goes further. -/
theorem exec_extended (h : r.ExtendedBy r') {s : Stmt}
    (hcut : ∀ f, (r.exec s frame m).1 = .error f → f.isCut = false) :
    r'.exec s frame m = r.exec s frame m := by
  rcases h.exec s frame m with ⟨f, m', hf, hisCut⟩ | hsame
  · rw [hcut f (by rw [hf])] at hisCut
    cases hisCut
  · exact hsame

/-- If no ending is cut off, all statements end the same way with a runner that goes further. -/
theorem runStmts_extended (h : r.ExtendedBy r') {ss : List Stmt} (seen : List Diagnostic)
    (hcut : ∀ o ∈ endingsFrom r frame ss m, ∀ f, o.result = .error f → f.isCut = false) :
    runStmts r' frame ss seen m = runStmts r frame ss seen m ∧
      endingsFrom r' frame ss m = endingsFrom r frame ss m := by
  induction ss generalizing seen m with
  | nil => exact ⟨rfl, rfl⟩
  | cons s rest ih =>
    rcases hx : r.exec s frame m with ⟨result, m₁⟩
    have hhere := hcut _ ((mem_endingsFrom_cons hx).mpr (.inl rfl))
    have hx' : r'.exec s frame m = (result, m₁) := by
      refine (exec_extended h fun f hf => hhere f ?_).trans hx
      exact (congrArg Prod.fst hx).symm.trans hf
    cases hv : s.verdict result with
    | error a =>
      rw [runStmts_cons_error hx hv, runStmts_cons_error hx' hv, endingsFrom_cons_error hx hv,
        endingsFrom_cons_error hx' hv]
      exact ⟨rfl, rfl⟩
    | ok d =>
      obtain ⟨hruns, hendings⟩ := ih (d.toList ++ seen) fun o ho =>
        hcut o ((mem_endingsFrom_cons hx).mpr (.inr ⟨⟨d, hv⟩, ho⟩))
      rw [runStmts_cons hx hv, runStmts_cons hx' hv, endingsFrom_cons hx hv,
        endingsFrom_cons hx' hv,
        hruns, hendings]
      exact ⟨rfl, rfl⟩

/-- In a run with a report no ending is an abort. -/
theorem not_abort_of_runStmts {ss : List Stmt} {seen ds : List Diagnostic} {m' : Machine}
    (h : runStmts r frame ss seen m = (.ok ds, m')) :
    ∀ o ∈ endingsFrom r frame ss m, ∀ a, o.result ≠ .error (.abort a) := by
  induction ss generalizing seen m with
  | nil => simp [endingsFrom]
  | cons s rest ih =>
    obtain ⟨result, d, m₁, hx, hv, hrest⟩ := exists_of_runStmts_cons h
    rw [endingsFrom_cons hx hv, List.forall_mem_cons]
    refine ⟨?_, ih hrest⟩
    rintro a rfl
    cases hv

end Machine

/-- A statement that is nested too deeply is reported at its position. -/
theorem Ending.diagnostic?_tooDeep {o : Ending} (h : o.result = .error .tooDeep) :
    o.diagnostic? = some (.error tooDeepMessage o.statement.pos) := by
  unfold diagnostic?
  rw [h]
  rfl

/-- A verdict without a report of nesting and without running out of turns is not that of a
statement that was cut off. -/
theorem Stmt.isCut_eq_false_of_verdict {s : Stmt} {f : Failure}
    {result : Except Abort (Option Diagnostic)}
    (h : s.verdict (.error f) = result) (hturns : result ≠ .error .outOfTurns)
    (hdeep : result ≠ .ok (some (.error tooDeepMessage s.pos))) : f.isCut = false := by
  rw [← Bool.not_eq_true, Failure.isCut_iff]
  rintro (rfl | rfl)
  · exact hdeep h.symm
  · exact hturns h.symm

/-- Greater limits change nothing where the lesser ones do not cut off.

- A top-level statement that ends, without a report of nesting, ends the same way.
- A run none of whose statements is cut off is the same, also if it aborts.
- A run that reports no nesting is the same.

And a run goes on behind a statement that is cut off by its nesting: every statement has its ending,
and the ones that are nested too deeply are reported once each, at their own positions. -/
theorem recursion_limit_only_cuts_off {limits limits' : Limits}
    (hdepth : limits.depth ≤ limits'.depth)
    (hturns : limits.turns ≤ limits'.turns) (m : Machine) :
    (∀ frame s result m',
      m.runStmt (.ofDepth limits.turns limits.depth) frame s = (result, m') →
      result ≠ .error .outOfTurns → result ≠ .ok (some (.error tooDeepMessage s.pos)) →
      m.runStmt (.ofDepth limits'.turns limits'.depth) frame s = (result, m')) ∧
    (∀ p, (∀ o ∈ m.endings limits p,
        o.result ≠ .error (.abort .outOfTurns) ∧ o.result ≠ .error .tooDeep) →
      m.run limits' p = m.run limits p ∧ m.endings limits' p = m.endings limits p) ∧
    (∀ p ds m', m.run limits p = (.ok ds, m') → (∀ d ∈ ds, d.message ≠ tooDeepMessage) →
      m.run limits' p = (.ok ds, m')) ∧
    (∀ p ds m', m.run limits p = (.ok ds, m') →
      (m.endings limits p).map Ending.statement = p.statements ∧
      ds = (m.endings limits p).filterMap Ending.diagnostic? ∧
      ∀ o ∈ m.endings limits p, o.result = .error .tooDeep →
        o.diagnostic? = some (.error tooDeepMessage o.statement.pos)) ∧
    (∀ frame s rest seen m₁,
      (Runner.ofDepth limits.turns limits.depth).exec s frame m = (.error .tooDeep, m₁) →
      m.runStmts (.ofDepth limits.turns limits.depth) frame (s :: rest) seen =
        m₁.runStmts (.ofDepth limits.turns limits.depth) frame rest
          (.error tooDeepMessage s.pos :: seen)) := by
  have hextended := Runner.extendedBy_ofDepth hturns hdepth
  have hruns : ∀ p, (∀ o ∈ m.endings limits p,
        o.result ≠ .error (.abort .outOfTurns) ∧ o.result ≠ .error .tooDeep) →
      m.run limits' p = m.run limits p ∧ m.endings limits' p = m.endings limits p := by
    intro p hcut
    refine Machine.runStmts_extended hextended [] fun o ho f hf => ?_
    rw [← Bool.not_eq_true, Failure.isCut_iff]
    rintro (rfl | rfl)
    · exact (hcut o ho).2 hf
    · exact (hcut o ho).1 hf
  refine ⟨?_, hruns, ?_, ?_, ?_⟩
  · intro frame s result m' hrun hresult hdeep
    unfold Machine.runStmt at hrun ⊢
    have hcut : ∀ f, ((Runner.ofDepth limits.turns limits.depth).exec s frame m).1 = .error f →
        f.isCut = false := by
      intro f hf
      have hverdict : s.verdict (.error f) = result :=
        (congrArg (s.verdict ·) hf).symm.trans (congrArg Prod.fst hrun)
      exact Stmt.isCut_eq_false_of_verdict hverdict hresult hdeep
    have hsame := Machine.exec_extended hextended hcut
    exact (congrArg (fun x => (s.verdict x.1, x.2)) hsame).trans hrun
  · intro p ds m' hrun hmessage
    rw [(hruns p fun o ho => ⟨?_, ?_⟩).1, hrun]
    · exact Machine.not_abort_of_runStmts hrun o ho .outOfTurns
    · intro hdeep
      have hmem : Diagnostic.error tooDeepMessage o.statement.pos ∈ ds := by
        rw [Machine.run_ok hrun]
        exact List.mem_filterMap.mpr ⟨o, ho, Ending.diagnostic?_tooDeep hdeep⟩
      exact hmessage _ hmem rfl
  · intro p ds m' hrun
    exact ⟨Machine.statements_endings hrun, Machine.run_ok hrun,
      fun o _ => Ending.diagnostic?_tooDeep⟩
  · intro frame s rest seen m₁ hexec
    have hrun : ((Runner.ofDepth limits.turns limits.depth).exec s frame).run m =
      (.error .tooDeep, m₁) := hexec
    simp only [Machine.runStmts, Machine.runStmt, hrun, Stmt.verdict]

/-- `print -1` and then `print 2`. Two levels of nesting are too few for the first statement alone;
from three levels on the run stays as it is. -/
theorem run_cut_off_below_three :
    let one : Expr := .unary ⟨1, 7⟩ "-" (.literal ⟨1, 8⟩ (.int 1) .int)
    let two : Expr := .literal ⟨2, 7⟩ (.int 2) .int
    let p : Program := ⟨[.print ⟨1, 1⟩ [one], .print ⟨2, 1⟩ [two]], ⟨1, 1⟩⟩
    (Machine.initial.run (.bounded 2 1) p).1 = .ok [.error tooDeepMessage ⟨1, 1⟩] ∧
      (Machine.initial.run (.bounded 2 1) p).2.output = "2\n" ∧
      (Machine.initial.run (.bounded 3 1) p).1 = .ok [] ∧
      Machine.initial.run (.bounded 3000 8) p = Machine.initial.run (.bounded 3 1) p := by
  intro one two p
  have hends : (Machine.initial.run (.bounded 3 1) p).1 = .ok [] := by decide +kernel
  refine ⟨by decide +kernel, by decide +kernel, hends, ?_⟩
  have hlimits := @recursion_limit_only_cuts_off (.bounded 3 1) (.bounded 3000 8) (by decide)
    (by decide) Machine.initial
  have hrun : Machine.initial.run (.bounded 3 1) p =
      (.ok [], (Machine.initial.run (.bounded 3 1) p).2) := Prod.ext hends rfl
  exact (hlimits.2.2.1 p [] _ hrun (by simp)).trans hrun.symm

end Dee
