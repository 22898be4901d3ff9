import Dee.Proofs.Eval.Trace
import Dee.Proofs.Refinement.Statements

/-!
# Runs of refined programs

The top-level statements of a run go on behind a failure, so two runs must look alike behind every
statement, however it ended. An ending that counts is one that a second run must repeat: no nesting
was too deep, no name was missing, and no jump left the statement.

Main statement: `Machine.run_refined`. If all endings of a run count, a run of a refined program
ends in the same way and prints the same.
-/

namespace Dee

open Eval

/-- Whether a second run must end a statement in the same way. -/
def Ending.counts (o : Ending) : Bool :=
  match o.result with
  | .ok none => true
  | .ok (some _) => false
  | .error f => !f.isExempt

variable {kept : String → Prop} {W : World} {f g : Nat} {r q : Runner}

namespace Machine

/-- What two runs of top-level statements have in common. -/
def RunAlike (kept : String → Prop) (W : World) (r q : Runner) (f g : Nat) (ss ss' : List Stmt)
    (seen : List Diagnostic) (m n : Machine) : Prop :=
  ∃ W' outcome m' n', W ≤ W' ∧ runStmts r f ss seen m = (outcome, m') ∧
    runStmts q g ss' seen n = (outcome, n') ∧ Machine.Alike kept W' m' n'

theorem runStmts_refined (h : r.Tracks kept q) {ss ss' : List Stmt}
    (hss : Stmt.RefinesAll kept ss ss') (hreturn : ∀ s ∈ ss, s.isReturn = false)
    (seen : List Diagnostic) {m n : Machine} (hmn : Machine.Alike kept W m n)
    (hfg : W.frames f g) (hcounts : ∀ o ∈ endingsFrom r f ss m, o.counts = true) :
    RunAlike kept W r q f g ss ss' seen m n := by
  induction ss generalizing W ss' seen m n with
  | nil =>
    cases hss
    exact ⟨W, _, m, n, W.le_refl, rfl, rfl, hmn⟩
  | cons s rest ih =>
    rcases hx : r.exec s f m with ⟨result, m₁⟩
    have hcount := hcounts _ ((mem_endingsFrom_cons hx).mpr (.inl rfl))
    have hrest' : ∀ s ∈ rest, s.isReturn = false := fun t ht => hreturn t (by simp [ht])
    -- The statements behind go on from machines that look alike.
    have hnext : ∀ {d : Option Diagnostic} {W' : World} {n₁ : Machine} {rest' : List Stmt} (seen'),
        s.verdict result = .ok d → W ≤ W' → Machine.Alike kept W' m₁ n₁ →
        Stmt.RefinesAll kept rest rest' → RunAlike kept W r q f g rest rest' seen' m₁ n₁ := by
      intro d W' n₁ rest' seen' hv hW hmn₁ hrefines
      obtain ⟨W'', outcome, m', n', hW', hm', hn', hlast⟩ :=
        ih hrefines hrest' seen' hmn₁ (hW.frames hfg) fun o ho =>
          hcounts o ((mem_endingsFrom_cons hx).mpr (.inr ⟨⟨d, hv⟩, ho⟩))
      exact ⟨W'', outcome, m', n', World.le_trans hW hW', hm', hn', hlast⟩
    cases hss with
    | cons hs hrefines =>
      have hlead := leads_iff.mp (h.exec hs hfg m n hmn)
      cases result with
      | ok signal =>
        obtain ⟨W', b, n₁, hW, hy, hmn₁, hab⟩ := hlead.1 signal m₁ hx
        cases hab with
        | some _ => cases hcount
        | none =>
          obtain ⟨W'', outcome, m', n', hW', hm', hn', hlast⟩ := hnext seen rfl hW hmn₁ hrefines
          exact ⟨W'', outcome, m', n', hW', (runStmts_cons hx rfl).trans hm',
            (runStmts_cons hy rfl).trans hn', hlast⟩
      | error fl =>
        rcases hlead.2 fl m₁ hx with hexempt | ⟨W', n₁, hW, hy, hmn₁⟩
        · simp [Ending.counts, hexempt] at hcount
        · cases fl with
          | tooDeep => cases hcount
          | abort a =>
            exact ⟨W', .error a, m₁, n₁, hW, runStmts_cons_error hx rfl,
              runStmts_cons_error hy rfl, hmn₁⟩
          | error e =>
            obtain ⟨W'', outcome, m', n', hW', hm', hn', hlast⟩ :=
              hnext (e.toDiagnostic :: seen) rfl hW hmn₁ hrefines
            exact ⟨W'', outcome, m', n', hW', (runStmts_cons hx rfl).trans hm',
              (runStmts_cons hy rfl).trans hn', hlast⟩
    | @skip pos vars _ _ hvars hrefines =>
      have hlead := leads_iff.mp (h.skip pos hvars hfg m n hmn)
      cases result with
      | ok signal =>
        obtain ⟨W', b, n₁, hW, ⟨⟩, hmn₁, rfl⟩ := hlead.1 signal m₁ hx
        obtain ⟨W'', outcome, m', n', hW', hm', hn', hlast⟩ := hnext seen rfl hW hmn₁ hrefines
        exact ⟨W'', outcome, m', n', hW', (runStmts_cons hx rfl).trans hm', hn', hlast⟩
      | error fl =>
        rcases hlead.2 fl m₁ hx with hexempt | ⟨W', n₁, hW, hy, -⟩
        · simp [Ending.counts, hexempt] at hcount
        · cases hy
    | @cut pos value _ _ _ =>
      have hnot := hreturn (.returnStmt pos value) List.mem_cons_self
      cases hnot

/-- If all endings of a run count, a run of a refined program ends in the same way, and prints the
same behind what its machine had printed alone. -/
theorem run_refined {p p' : Program} (hcode : Stmt.RefinesAll kept p.statements p'.statements)
    (hreturn : ∀ s ∈ p.statements, s.isReturn = false) (limits : Limits) {m n : Machine}
    (hmn : Machine.Alike kept W m n) (hcounts : ∀ o ∈ m.endings limits p, o.counts = true) :
    ∃ outcome m' n', m.run limits p = (outcome, m') ∧ n.run limits p' = (outcome, n') ∧
      n'.output = W.printed ++ m'.output := by
  obtain ⟨W', hW, hstore, hframes⟩ := hmn.store.newFrame (Or.inl rfl) (q := globalFrame)
  have htracks := Runner.tracks_ofDepth kept limits.turns (Nat.le_refl limits.depth)
  have hstart : Machine.Alike kept W' { m with store := (m.store.newFrame globalFrame).2 }
      { n with store := (n.store.newFrame globalFrame).2 } :=
    ⟨hstore, by rw [hW.printed]; exact hmn.output⟩
  obtain ⟨W'', outcome, m', n', hW', hm', hn', hlast⟩ :=
    runStmts_refined htracks hcode hreturn [] hstart hframes hcounts
  refine ⟨outcome, m', n', hm', hn', ?_⟩
  rw [hlast.output, hW'.printed, hW.printed]

end Machine

/-- The world without pairs, beside a machine that has printed something. -/
def World.unpaired (printed : String) : World where
  arrays _ _ := False
  tuples _ _ := False
  closures _ _ := False
  frames _ _ := False
  printed := printed

/-- Before anything has run nothing needs to be paired, whatever the second machine holds. -/
theorem Machine.alike_initial (kept : String → Prop) (n : Machine) :
    Machine.Alike kept (.unpaired n.output) .initial n where
  store := {
    arrays := ⟨False.elim, False.elim⟩
    tuples := ⟨False.elim, False.elim⟩
    closures := ⟨False.elim, False.elim⟩
    frames := ⟨False.elim, False.elim⟩
    bare := rfl
    inner := False.elim }
  output := String.append_empty.symm

end Dee
