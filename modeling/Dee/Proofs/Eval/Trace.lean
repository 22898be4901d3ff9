import Dee.Eval.Program

/-!
# The endings of a run

A run reports diagnostics, but an abort hides what was reported before it. `Machine.endings` lists
how each top-level statement of a run ended, in order, up to the one that ended the run; so a
statement about all of them speaks of every run, however far it gets.
-/

namespace Dee

/-- A top-level statement that ran, and how it ended. -/
structure Ending where
  statement : Stmt
  result : Except Failure (Option Signal)

/-- The diagnostic that an ending is reported by, if it is. -/
def Ending.diagnostic? (o : Ending) : Option Diagnostic :=
  match o.statement.verdict o.result with
  | .ok d => d
  | .error _ => none

namespace Machine

/-- The endings of top-level statements that run one after the other, up to one that aborts. -/
def endingsFrom (r : Runner) (frame : Nat) : List Stmt → Machine → List Ending
  | [], _ => []
  | s :: rest, m =>
    let (result, m') := (r.exec s frame).run m
    match s.verdict result with
    | .error _ => [⟨s, result⟩]
    | .ok _ => ⟨s, result⟩ :: endingsFrom r frame rest m'

/-- The endings of the top-level statements of a run. -/
def endings (limits : Limits) (p : Program) (m : Machine) : List Ending :=
  let (frame, store) := m.store.newFrame globalFrame
  endingsFrom (.ofDepth limits.turns limits.depth) frame p.statements { m with store }

variable {r : Runner} {frame : Nat}

/-! ## One statement -/

section Step

variable {s : Stmt} {rest : List Stmt} {seen : List Diagnostic} {m m₁ : Machine}
  {result : Except Failure (Option Signal)}

theorem runStmt_eq (h : r.exec s frame m = (result, m₁)) :
    m.runStmt r frame s = (s.verdict result, m₁) := by
  show (s.verdict (r.exec s frame m).1, (r.exec s frame m).2) = _
  rw [h]

/-- A run goes on behind a statement that does not abort it. -/
theorem runStmts_cons {d : Option Diagnostic} (h : r.exec s frame m = (result, m₁))
    (hv : s.verdict result = .ok d) :
    runStmts r frame (s :: rest) seen m = runStmts r frame rest (d.toList ++ seen) m₁ := by
  rw [runStmts, runStmt_eq h, hv]
  cases d <;> rfl

theorem runStmts_cons_error {a : Abort} (h : r.exec s frame m = (result, m₁))
    (hv : s.verdict result = .error a) : runStmts r frame (s :: rest) seen m = (.error a, m₁) := by
  rw [runStmts, runStmt_eq h, hv]

theorem endingsFrom_cons {d : Option Diagnostic} (h : r.exec s frame m = (result, m₁))
    (hv : s.verdict result = .ok d) :
    endingsFrom r frame (s :: rest) m = ⟨s, result⟩ :: endingsFrom r frame rest m₁ := by
  rw [endingsFrom, show (r.exec s frame).run m = (result, m₁) from h]
  simp only [hv]

theorem endingsFrom_cons_error {a : Abort} (h : r.exec s frame m = (result, m₁))
    (hv : s.verdict result = .error a) : endingsFrom r frame (s :: rest) m = [⟨s, result⟩] := by
  rw [endingsFrom, show (r.exec s frame).run m = (result, m₁) from h]
  simp only [hv]

/-- An ending is that of the first statement, or the run went on and it is that of a later one. -/
theorem mem_endingsFrom_cons {o : Ending} (h : r.exec s frame m = (result, m₁)) :
    o ∈ endingsFrom r frame (s :: rest) m ↔
      o = ⟨s, result⟩ ∨ (∃ d, s.verdict result = .ok d) ∧ o ∈ endingsFrom r frame rest m₁ := by
  cases hv : s.verdict result with
  | error a => simp [endingsFrom_cons_error h hv]
  | ok d => simp [endingsFrom_cons h hv]

/-- In a run with a report the first statement does not abort, and the rest gives the report. -/
theorem exists_of_runStmts_cons {ds : List Diagnostic} {m' : Machine}
    (h : runStmts r frame (s :: rest) seen m = (.ok ds, m')) :
    ∃ result d m₁, r.exec s frame m = (result, m₁) ∧ s.verdict result = .ok d ∧
      runStmts r frame rest (d.toList ++ seen) m₁ = (.ok ds, m') := by
  rcases hx : r.exec s frame m with ⟨result, m₁⟩
  cases hv : s.verdict result with
  | error a =>
    rw [runStmts_cons_error hx hv] at h
    cases h
  | ok d => exact ⟨result, d, m₁, rfl, hv, runStmts_cons hx hv ▸ h⟩

end Step

/-! ## All statements -/

/-- What a run reports is what its endings are reported by, in order. -/
theorem runStmts_ok {ss : List Stmt} {seen ds : List Diagnostic} {m m' : Machine}
    (h : runStmts r frame ss seen m = (.ok ds, m')) :
    ds = seen.reverse ++ (endingsFrom r frame ss m).filterMap Ending.diagnostic? := by
  induction ss generalizing seen m with
  | nil =>
    cases h
    simp [endingsFrom]
  | cons s rest ih =>
    obtain ⟨result, d, m₁, hx, hv, hrest⟩ := exists_of_runStmts_cons h
    have hd : Ending.diagnostic? ⟨s, result⟩ = d := by
      simp only [Ending.diagnostic?, hv]
    rw [ih hrest, endingsFrom_cons hx hv]
    cases d <;> simp [hd]

/-- The diagnostics of a run are those of its endings. -/
theorem run_ok {limits : Limits} {p : Program} {m m' : Machine} {ds : List Diagnostic}
    (h : m.run limits p = (.ok ds, m')) :
    ds = (m.endings limits p).filterMap Ending.diagnostic? := by
  have hrun := runStmts_ok h
  rw [List.reverse_nil, List.nil_append] at hrun
  exact hrun

/-- Every ending is that of running one of the statements on some machine. -/
theorem exists_of_mem_endingsFrom {ss : List Stmt} {m : Machine} {o : Ending}
    (h : o ∈ endingsFrom r frame ss m) :
    o.statement ∈ ss ∧ ∃ m₁, o.result = (r.exec o.statement frame m₁).1 := by
  induction ss generalizing m with
  | nil => cases h
  | cons s rest ih =>
    rcases hx : r.exec s frame m with ⟨result, m₁⟩
    rcases (mem_endingsFrom_cons hx).mp h with rfl | ⟨-, h⟩
    · exact ⟨List.mem_cons_self, m, (congrArg Prod.fst hx).symm⟩
    · obtain ⟨hs, hm⟩ := ih h
      exact ⟨List.mem_cons_of_mem s hs, hm⟩

end Machine

end Dee
