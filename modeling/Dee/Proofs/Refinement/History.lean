import Dee.Proofs.Eval.Placed
import Dee.Proofs.Refinement.Checked

/-!
# Runs do not interfere

A host may use one machine for many runs and put values into its outermost frame in between. A
checked program cannot tell: it finds all its names in frames of its own run, so whatever the
machine holds, it runs as on a new one. And no run leaves a name behind: frames are made for the
statements that bind names, and the outermost one is not among them.

Main statement: `runs_do_not_interfere`.
-/

namespace Dee

/-! ## Histories -/

/-- Something that a host does with a machine. -/
inductive HostAct where
  /-- Runs any program, checked or not. -/
  | run (limits : Limits) (p : Program)
  /-- Binds a name in the outermost frame, if it is not bound there. -/
  | define (name : String) (v : Value)
  /-- Changes the value of a name in the outermost frame, if it is bound there. -/
  | set (name : String) (v : Value)
  | newArray (c : Cells)
  | newTuple (s : Slots)
  | newFunction (c : Closure)

namespace Machine

/-- The machine behind an act of the host. An act that fails leaves what it did before. -/
def act (m : Machine) : HostAct → Machine
  | .run limits p => (m.run limits p).2
  | .define name v => (Eval.define globalFrame name v m).2
  | .set name v => (Eval.assign m.store.frames.fullReach globalFrame name v m).2
  | .newArray c => { m with store := (m.store.newArray c).2 }
  | .newTuple s => { m with store := (m.store.newTuple s).2 }
  | .newFunction c => { m with store := (m.store.newClosure c).2 }

/-- A new machine behind some acts of the host. -/
def behind (history : List HostAct) : Machine :=
  history.foldl act .initial

end Machine

/-! ## The outermost frame -/

/-- All positions are good. -/
abbrev anyPos : Pos → Bool := fun _ => true

theorem Stmt.placed_anyPos (s : Stmt) : s.Placed anyPos :=
  Stmt.everywhere_of_all (fun _ => rfl) (fun _ => List.all_eq_true.mpr fun _ _ => rfl) s

theorem Closure.placed_anyPos (c : Closure) : c.Placed anyPos where
  statements s _ := s.placed_anyPos
  expression e _ :=
    Expr.everywhere_of_all (fun _ => rfl) (fun _ => List.all_eq_true.mpr fun _ _ => rfl) e

namespace Machine

/-- Only the host binds names in the outermost frame, and it stays where it is. -/
theorem inOrder_act {names : List String} {m : Machine} (hm : m.InOrder anyPos names)
    (act : HostAct) : ∃ names', (m.act act).InOrder anyPos names' := by
  cases act with
  | run limits p => exact ⟨names, (run_inOrder (fun s _ => s.placed_anyPos) limits hm).1⟩
  | define name v =>
    rcases hx : Eval.define globalFrame name v m with ⟨result, m'⟩
    have hlead := Eval.leads_iff.mp (Eval.leads_define (m := m) globalFrame name v)
    show ∃ names', (Eval.define globalFrame name v m).2.InOrder anyPos names'
    rw [hx]
    cases result with
    | error f =>
      obtain ⟨rfl, -⟩ := hlead.2 f m' hx
      exact ⟨names, hm⟩
    | ok u =>
      obtain ⟨⟨f, hf, -⟩, rfl⟩ := hlead.1 u m' hx
      refine ⟨f.names ++ [name], hm.code, f.bind name v, ?_, Frame.names_bind f name v⟩
      show (m.store.frames.bindAt globalFrame name v).frames[globalFrame]? = _
      rw [Frames.getElem?_bindAt, if_pos rfl, hf, Option.map_some]
  | set name v =>
    have hstays : Eval.Stays anyPos names (·.IsPlaceable anyPos)
        (Eval.assign m.store.frames.fullReach globalFrame name v) fun _ => True :=
      Eval.stays_assign _ _ _ _
    have hlead := Eval.leads_iff.mp (hstays m hm)
    rcases hx : Eval.assign m.store.frames.fullReach globalFrame name v m with ⟨result, m'⟩
    show ∃ names', (Eval.assign m.store.frames.fullReach globalFrame name v m).2.InOrder _ names'
    rw [hx]
    cases result with
    | ok u => exact ⟨names, (hlead.1 u m' hx).2⟩
    | error f => exact ⟨names, (hlead.2 f m' hx).2⟩
  | newArray c => exact ⟨names, hm.of_eq rfl rfl⟩
  | newTuple s => exact ⟨names, hm.of_eq rfl rfl⟩
  | newFunction c => exact ⟨names, hm.newClosure c.placed_anyPos⟩

theorem inOrder_behind (history : List HostAct) :
    ∃ names, (Machine.behind history).InOrder anyPos names := by
  have key : ∀ (acts : List HostAct) (m : Machine) (names : List String), m.InOrder anyPos names →
      ∃ names', (acts.foldl act m).InOrder anyPos names' := by
    intro acts
    -- Each act may bind one name more, so the names are not fixed in the induction.
    induction acts with
    | nil => exact fun m names hm => ⟨names, hm⟩
    | cons first rest ih =>
      intro m names hm
      obtain ⟨names', hm'⟩ := inOrder_act hm first
      exact ih (m.act first) names' hm'
  exact key history .initial [] (inOrder_initial anyPos)

/-- A run leaves the outermost frame with the names it had. -/
theorem globalNames_run {names : List String} {m : Machine} (hm : m.InOrder anyPos names)
    (limits : Limits) (p : Program) : (m.run limits p).2.globalNames = m.globalNames := by
  have hrun := (run_inOrder (fun s _ => s.placed_anyPos) limits hm (p := p)).1
  exact hrun.globalNames_eq.trans hm.globalNames_eq.symm

/-! ## Checked programs -/

/-- A checked program runs on any machine as on a new one. -/
theorem run_eq_initial {p : Program} (hcheck : p.analyze = []) (hw : p.WellFormed)
    {limits : Limits} (hdeep : ∀ o ∈ Machine.initial.endings limits p, o.result ≠ .error .tooDeep)
    (m : Machine) :
    (m.run limits p).1 = (Machine.initial.run limits p).1 ∧
      (m.run limits p).2.output = m.output ++ (Machine.initial.run limits p).2.output := by
  -- Everything is kept of the program, and nothing of the machine is needed.
  have hcode : Stmt.RefinesAll (fun _ => True) p.statements p.statements :=
    Stmt.refinesAll_self (fun _ => trivial) p.statements
  obtain ⟨outcome, m', n', hm', hn', houtput⟩ :=
    run_checked hcheck hw hcode (alike_initial _ m) hdeep
  rw [hm', hn']
  exact ⟨rfl, houtput⟩

end Machine

/-- Runs on one machine do not interfere. Let a host do what it likes with a new machine: run
programs, checked or not, and bind and change names in the outermost frame. If a program was parsed
and has no fault, and no statement of its run on a new machine is nested too deeply, then it runs on
the used machine with the same outcome, and prints the same behind what was printed before. And no
run of any program changes which names the outermost frame binds. -/
theorem runs_do_not_interfere (history : List HostAct) :
    (∀ (source : String) (p : Program) (bounds limits : Limits), parse source bounds = .ok p →
      p.analyze = [] →
      (∀ o ∈ Machine.initial.endings limits p, o.result ≠ .error .tooDeep) →
      ((Machine.behind history).run limits p).1 = (Machine.initial.run limits p).1 ∧
        ((Machine.behind history).run limits p).2.output =
          (Machine.behind history).output ++ (Machine.initial.run limits p).2.output) ∧
    ∀ (limits : Limits) (q : Program),
      ((Machine.behind history).run limits q).2.globalNames =
        (Machine.behind history).globalNames := by
  constructor
  · intro source p bounds limits hparse hcheck hdeep
    exact Machine.run_eq_initial hcheck (wellFormed_of_parse hparse) hdeep _
  · intro limits q
    obtain ⟨names, hm⟩ := Machine.inOrder_behind history
    exact Machine.globalNames_run hm limits q

/-- A program with a fault has printed, failed and assigned to a name that the host had bound, and
the host has bound the name to a function since. A checked program of the same names fails in its
third statement, and does so on a new machine too. -/
theorem runs_do_not_interfere_namesake :
    let earlier : Program :=
      ⟨[.assign ⟨1, 1⟩ (.reference ⟨1, 1⟩ "x") (.literal ⟨1, 6⟩ (.int 5) .int),
      .print ⟨2, 1⟩ [.reference ⟨2, 7⟩ "x"], .expr ⟨3, 1⟩ (.reference ⟨3, 1⟩ "f"),
      .declaration ⟨4, 1⟩ [⟨"f", none⟩]], .start⟩
    let history : List HostAct := [.define "x" (.int 7), .run (.bounded 30 30) earlier,
      .newFunction ⟨["n"], [], some (.reference .start "x"), 0⟩, .set "x" (.func 0)]
    let source :=
      "var x := [4, 2], f := func(n) => x[n] + x[n - 1]; print f(2); print f(1); x := 3; print x"
    (Machine.behind history).output = "5\n" ∧ (Machine.behind history).globalNames = ["x"] ∧
      ∃ p ds, parse source = .ok p ∧ p.analyze = [] ∧
        (∀ o ∈ Machine.initial.endings (.bounded 30 30) p, o.result ≠ .error .tooDeep) ∧
        ((Machine.behind history).run (.bounded 30 30) p).1 = .ok ds ∧ ds.length = 1 ∧
        (Machine.initial.run (.bounded 30 30) p).1 = .ok ds ∧
        ((Machine.behind history).run (.bounded 30 30) p).2.output =
          "5\n" ++ (Machine.initial.run (.bounded 30 30) p).2.output ∧
        ((Machine.behind history).run (.bounded 30 30) p).2.globalNames = ["x"] := by
  intro earlier history source
  have hmachine : (Machine.behind history).output = "5\n" ∧
      (Machine.behind history).globalNames = ["x"] := by
    decide +kernel
  have heval : ((parse source).toOption.elim false fun p =>
      p.analyze.isEmpty && (Machine.initial.endings (.bounded 30 30) p).all (fun o =>
        decide (o.result.map (fun _ => ()) ≠ .error .tooDeep)) &&
      (Machine.initial.run (.bounded 30 30) p).1.toOption.elim false fun ds => decide
        (ds.length = 1)) =
        true := by
    decide +kernel
  refine ⟨hmachine.1, hmachine.2, ?_⟩
  cases hparse : parse source with
  | error e =>
    rw [hparse] at heval
    cases heval
  | ok p =>
    rw [hparse] at heval
    change (_ && _ && _) = true at heval
    rw [Bool.and_eq_true, Bool.and_eq_true, List.isEmpty_iff, List.all_eq_true] at heval
    obtain ⟨⟨hcheck, hall⟩, hrun⟩ := heval
    have hdeep : ∀ o ∈ Machine.initial.endings (.bounded 30 30) p, o.result ≠ .error .tooDeep := by
      intro o ho hresult
      refine of_decide_eq_true (hall o ho) ?_
      rw [hresult]
      rfl
    obtain ⟨hchecked, hnames⟩ := runs_do_not_interfere history
    obtain ⟨hsame, houtput⟩ := hchecked source p .standard (.bounded 30 30) hparse hcheck hdeep
    rw [hmachine.1] at houtput
    cases hds : (Machine.initial.run (.bounded 30 30) p).1 with
    | error a =>
      rw [hds] at hrun
      cases hrun
    | ok ds =>
      rw [hds] at hrun
      exact ⟨p, ds, rfl, hcheck, hdeep, hsame.trans hds, of_decide_eq_true hrun, hds, houtput,
        (hnames (.bounded 30 30) p).trans hmachine.2⟩

end Dee
