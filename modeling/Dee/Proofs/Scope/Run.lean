import Dee.Proofs.Eval.Trace
import Dee.Proofs.Grammar.Parsed
import Dee.Proofs.Scope.Statements
import Dee.Proofs.Simplify.Faults

/-!
# Runs of checked programs

The top-level statements of a run share a frame. Each of them declares its names there even if it
fails, so the next one finds what the scope analysis promised it.

Main statement: `names_are_found`. No run of a program that was parsed and has no fault, simplified
or not, fails over a name, however far it gets.
-/

namespace Dee

namespace Machine

open Eval

variable {b : Epoch} {m : Machine} {frame : Nat} {s : Scope} {o : Ending}

/-- A statement that may not descend at all fails before it does anything. -/
theorem concernsName_of_depth_zero {turns : Nat} {ss : List Stmt}
    (ho : o ∈ endingsFrom (.ofDepth turns 0) frame ss m) {f : Failure}
    (hf : o.result = .error f) : f.concernsName = false := by
  obtain ⟨-, m₁, hresult⟩ := exists_of_mem_endingsFrom ho
  rw [hf] at hresult
  cases hresult
  rfl

theorem concernsName_of_mem_endingsFrom {turns depth : Nat} {ss : List Stmt}
    (hs : m.store.Sound b) (hh : m.store.frames.Hosts b.frames frame s)
    (hc : Stmt.checkAll s ss = [])
    (hw : Stmt.everywhereAll Expr.isWellFormed Stmt.isWellFormed ss = true)
    (ho : o ∈ endingsFrom (.ofDepth turns depth) frame ss m) {f : Failure}
    (hf : o.result = .error f) : f.concernsName = false := by
  cases depth with
  | zero => exact concernsName_of_depth_zero ho hf
  | succ depth =>
    have hr := Runner.keepsScopes_ofDepth b turns (depth + 1)
    induction ss generalizing s m with
    | nil => simp [endingsFrom] at ho
    | cons st rest ih =>
      rw [Stmt.checkAll, List.append_eq_nil_iff] at hc
      obtain ⟨hwst, hwrest⟩ := Stmt.everywhereAll_cons.mp hw
      have hexec := leads_iff.mp (hr.exec st s frame m hs hh hc.1 hwst)
      rcases hx : (Runner.ofDepth turns (depth + 1)).exec st frame m with ⟨result, m₁⟩
      -- However the statement ended, its names are declared behind it.
      have hafter : m₁.store.Sound b ∧
          m₁.store.frames.Hosts b.frames frame (s.declareAll st.declaredNames) := by
        cases result with
        | ok signal =>
          obtain ⟨-, hg⟩ := hexec.1 signal m₁ hx
          exact ⟨hg.sound, hh.gain hg.frames⟩
        | error f' =>
          obtain ⟨-, names, hg, rfl | ⟨hzero, -⟩⟩ := hexec.2 f' m₁ hx
          · exact ⟨hg.sound, hh.gain hg.frames⟩
          · cases hzero
      have hhere : ∀ f', result = .error f' → f'.concernsName = false := by
        rintro f' rfl
        exact (hexec.2 f' m₁ hx).1
      rcases (mem_endingsFrom_cons hx).mp ho with rfl | ⟨-, ho⟩
      · exact hhere f hf
      · exact ih hafter.1 hafter.2 hc.2 hwrest ho

/-- No statement of a well-formed program without faults fails over a name, on whatever machine the
program runs. -/
theorem concernsName_of_mem_endings {p : Program} (hc : p.faults = [])
    (hw : p.WellFormed) {limits : Limits}
    (ho : o ∈ m.endings limits p) {f : Failure} (hf : o.result = .error f) :
    f.concernsName = false := by
  have hsound := (Store.sound_epoch m.store).newFrame globalFrame
  have hhosts : (m.store.newFrame globalFrame).2.frames.Hosts m.store.epoch.frames
      m.store.frames.frames.size .top := by
    refine Frames.hosts_push (s := ⟨[], false, false⟩) ?_ (Nat.le_refl _)
    trivial
  exact concernsName_of_mem_endingsFrom hsound hhosts hc hw ho hf

end Machine

theorem Program.faults_eq_nil {p : Program} (h : p.analyze = []) : p.faults = [] :=
  List.map_eq_nil_iff.mp h

/-- Scope analysis is sound. When a parsed program without faults runs, on whatever machine and
under whatever limits, no top-level statement fails because a name that is looked up or assigned to
is not bound, or because a name that is declared is bound already; the same holds of the simplified
program. -/
theorem names_are_found (bounds : Limits) (source : String) (p : Program)
    (hparse : parse source bounds = .ok p)
    (hcheck : p.analyze = []) (limits : Limits) (m : Machine) :
    ∀ q ∈ [p, p.simplify.result], ∀ o ∈ m.endings limits q, ∀ e : Located EvalError,
      o.result = .error (.error e) →
        ∀ name, e.cause ≠ .undefined name ∧ e.cause ≠ .undeclared name ∧
          e.cause ≠ .alreadyDeclared name := by
  have hw := wellFormed_of_parse hparse
  have hf := Program.faults_eq_nil hcheck
  have hboth : ∀ q ∈ [p, p.simplify.result], q.WellFormed ∧ q.faults = [] := by
    intro q hq
    simp only [List.mem_cons, List.not_mem_nil, or_false] at hq
    rcases hq with rfl | rfl
    · exact ⟨hw, hf⟩
    · have hsub := Program.faults_simplify hw
      rw [hf] at hsub
      exact ⟨Program.wellFormed_simplify hw, List.eq_nil_of_sublist_nil hsub⟩
  intro q hq o ho e he name
  obtain ⟨hwq, hfq⟩ := hboth q hq
  have hname : e.cause.concernsName = false :=
    Machine.concernsName_of_mem_endings hfq hwq ho he
  refine ⟨?_, ?_, ?_⟩ <;> intro hcause <;> rw [hcause] at hname <;> cases hname

/-- A function that declares in its own frame is called in a loop and fails half way; the names
behind it are found all the same. -/
theorem names_are_found_behind_failure :
    let source :=
      "var k, f := func(n) is var d := k / n; return d end\n" ++
        "for i in 1..0 loop k := f(i) end; print k"
    ∃ p, parse source = .ok p ∧ p.analyze = [] ∧
      (Machine.initial.endings (.bounded 30 30) p).length = 3 ∧
      ∀ q ∈ [p, p.simplify.result], ∀ o ∈ Machine.initial.endings (.bounded 30 30) q,
        ∀ e : Located EvalError, o.result = .error (.error e) →
          ∀ name, e.cause ≠ .undefined name ∧ e.cause ≠ .undeclared name ∧
            e.cause ≠ .alreadyDeclared name := by
  intro source
  have hrun : (match parse source with
      | .ok p => p.analyze.isEmpty &&
        decide ((Machine.initial.endings (.bounded 30 30) p).length = 3)
      | .error _ => false) = true := by
    decide +kernel
  cases hparse : parse source with
  | error e =>
    rw [hparse] at hrun
    cases hrun
  | ok p =>
    rw [hparse] at hrun
    simp only [Bool.and_eq_true, decide_eq_true_iff, List.isEmpty_iff] at hrun
    exact ⟨p, rfl, hrun.1, hrun.2, names_are_found .standard source p hparse hrun.1
      (.bounded 30 30) .initial⟩

end Dee
