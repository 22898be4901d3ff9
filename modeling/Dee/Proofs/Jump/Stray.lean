import Dee.Proofs.Eval.Origin
import Dee.Proofs.Jump.Checked

/-!
# Stray jumps

Where a jump can come out without a target. A top-level statement of a checked program never lets
one out, simplified or not, and no run of such a program reports a return outside a function. What
remains is a call whose function has an exit or a continue outside its own loops: scope analysis
looks through the function to a loop around it, but a call does not.
-/

namespace Dee

open Eval

/-! ## Messages -/

/-- A text that does not start like the message of a stray return, whatever follows it. -/
def OpensOtherwise (s : String) : Prop :=
  2 ≤ s.toList.length ∧ s.toList.take 2 ≠ ['R', 'e']

instance (s : String) : Decidable (OpensOtherwise s) :=
  inferInstanceAs (Decidable (_ ∧ _))

theorem OpensOtherwise.append {a : String} (b : String) (h : OpensOtherwise a) :
    OpensOtherwise (a ++ b) := by
  obtain ⟨hl, ht⟩ := h
  refine ⟨?_, ?_⟩
  · rw [String.toList_append, List.length_append]
    omega
  · rwa [String.toList_append, List.take_append_of_le_length hl]

theorem OpensOtherwise.ne {s : String} (h : OpensOtherwise s) :
    s ≠ Jump.leaveFunction.strayMessage := by
  rintro rfl
  exact h.2 (by decide +kernel)

/-- No other error has the message of a stray return. -/
theorem EvalError.opensOtherwise {e : EvalError} (he : e ≠ .stray .leaveFunction) :
    OpensOtherwise e.message := by
  cases e
  case stray j =>
    cases j with
    | leaveFunction => exact absurd rfl he
    | exitLoop => exact (by decide +kernel : OpensOtherwise Jump.exitLoop.strayMessage)
    | nextTurn => exact (by decide +kernel : OpensOtherwise Jump.nextTurn.strayMessage)
  case divisionByZero => exact (by decide +kernel : OpensOtherwise "Division by zero")
  case invalidTarget => exact (by decide +kernel : OpensOtherwise "Invalid assignment target")
  case notInteger role kind =>
    have hrole : OpensOtherwise role.label := by cases role <;> decide +kernel
    exact (hrole.append _).append _
  -- The other messages start with a text of their own; the cases differ in how much follows it.
  case tupleIndex | notIterable | notIndexable | notCallable =>
    exact .append _ (by decide +kernel)
  case unknownOperator | unknownUnary | arrayIndex | duplicateMember | noMember | alreadyDeclared
      | undeclared | undefined | unknownIndicator =>
    exact .append _ (.append _ (by decide +kernel))
  case incomparable | operand | notBoolean | argumentCount | noMembers =>
    exact .append _ (.append _ (.append _ (by decide +kernel)))
  case operands | overflow =>
    exact .append _ (.append _ (.append _ (.append _ (.append _ (by decide +kernel)))))

theorem tooDeepMessage_opensOtherwise : OpensOtherwise tooDeepMessage := by decide +kernel

/-! ## Runs of checked programs -/

/-- Without faults no jump escapes a top-level statement. -/
theorem Program.escapes_eq_false {p : Program} (h : p.analyze = []) {s : Stmt}
    (hs : s ∈ p.statements) (j : Jump) : s.escapes j = false := by
  have hcheck : Stmt.checkAll .top p.statements = [] := List.map_eq_nil_iff.mp h
  cases he : s.escapes j with
  | false => rfl
  | true =>
    have hallows : Scope.top.allows j = true :=
      Stmt.allows_of_checkAll j p.statements .top hcheck (Stmt.escapesAny_iff.mpr ⟨s, hs, he⟩)
    cases j <;> cases hallows

/-- Neither does one after simplification. -/
theorem Program.escapes_simplify_eq_false {p : Program} (h : p.analyze = []) {s : Stmt}
    (hs : s ∈ p.simplify.result.statements) (j : Jump) : s.escapes j = false := by
  rw [Program.simplify_result] at hs
  cases he : s.escapes j with
  | false => rfl
  | true =>
    have hany : Stmt.escapesAny j p.statements = true :=
      Stmt.escapesAny_of_kept p.references j p.statements (Stmt.escapesAny_iff.mpr ⟨s, hs, he⟩)
    obtain ⟨t, ht, htj⟩ := Stmt.escapesAny_iff.mp hany
    rw [Program.escapes_eq_false h ht j] at htj
    cases htj

/-- A run of statements that no jump escapes ends none of them with a signal, and reports no stray
return. -/
theorem Machine.no_stray_of_mem_endings {limits : Limits} {q : Program}
    (h : ∀ s ∈ q.statements, ∀ j, s.escapes j = false) {m : Machine} {o : Ending}
    (ho : o ∈ m.endings limits q) :
    (∀ g, o.result ≠ .ok (some g)) ∧
      ∀ d, o.diagnostic? = some d → d.message ≠ Jump.leaveFunction.strayMessage := by
  obtain ⟨hs, m₁, hresult⟩ := Machine.exists_of_mem_endingsFrom ho
  have hkeeps := leads_iff.mp
    ((Runner.keepsJumps_ofDepth limits.turns limits.depth).exec o.statement
      m.store.frames.frames.size m₁)
  obtain ⟨statement, result⟩ := o
  have hsignal : ∀ g, result ≠ .ok (some g) := by
    rintro g rfl
    have hesc := hkeeps.1 (some g) _ (Prod.ext hresult.symm rfl) g rfl
    simp only [h statement hs g.jump] at hesc
    cases hesc
  refine ⟨hsignal, ?_⟩
  intro d hd
  simp only [Ending.diagnostic?] at hd
  cases result with
  | ok signal =>
    cases signal with
    | none => cases hd
    | some g => exact absurd rfl (hsignal g)
  | error f =>
    cases f with
    | error e =>
      cases hd
      have hcause : e.cause ≠ .stray .leaveFunction := by
        have hf := hkeeps.2 (.error e) _ (Prod.ext hresult.symm rfl)
        simpa [Failure.isStrayReturn] using hf
      exact (EvalError.opensOtherwise hcause).ne
    | tooDeep =>
      cases hd
      exact tooDeepMessage_opensOtherwise.ne
    | abort a => cases hd

/-! ## Calls -/

/-- Whether a failure is a jump that nothing caught. -/
def Failure.Strays (f : Failure) (j : Jump) : Prop :=
  ∃ pos, f = .error ⟨.stray j, pos⟩

theorem Failure.strays_congr {f g : Failure} {j : Jump} (h : g.unplaced = f.unplaced) :
    g.Strays j ↔ f.Strays j := by
  have hiff : ∀ f : Failure, f.Strays j ↔ f.unplaced = .ofError (.stray j) := by
    intro f
    constructor
    · rintro ⟨pos, rfl⟩
      rfl
    · intro hf
      cases f with
      | error e =>
        obtain ⟨cause, pos⟩ := e
        cases hf
        exact ⟨pos, rfl⟩
      | tooDeep => cases hf
      | abort a => cases hf
  rw [hiff g, hiff f, h]

namespace Runner

variable {r : Runner} {t : Task} {m m' : Machine} {c : Closure} {f : Failure} {j : Jump}

/-- A jump that a call lets out escapes the statements of the called function. -/
theorem LetsOut.escapesAny (h : r.LetsOut t m c j) (hr : r.KeepsJumps) :
    Stmt.escapesAny j c.statements = true := by
  obtain ⟨_, _, _, _, inner, m₁, signal, m₂, -, -, -, hruns, rfl, -⟩ := h
  have hyields : Yields (runAll (r.exec · inner) c.statements) (Signal.Escapes fun j =>
      Stmt.escapesAny j c.statements = true) :=
    yields_runAll fun s _ => hr.exec s inner
  exact (leads_iff.mp (hyields m₁)).1 _ m₂ hruns signal rfl

/-- A call that lets a jump out fails by it. -/
theorem LetsOut.ruleFails (h : r.LetsOut t m c j) :
    ∃ m', r.RuleFails m (.ofError (.stray j)) m' t := by
  obtain ⟨pos, func, args, frame, inner, m₁, signal, m₂, rfl, hcalls, he, hruns, rfl, hj⟩ := h
  refine ⟨m₂, evalRule_fails_of_body hcalls ?_⟩
  unfold runBody
  rw [he]
  exact (bind_apply_ok hruns).trans (resultOf_eq_error.mpr ⟨signal, rfl, hj, rfl, rfl⟩)

/-- A task that raises a stray jump itself is a call that lets it out. -/
theorem RaisesAt.letsOut (h : r.RaisesAt t m f) (hf : f.Strays j) : ∃ c, r.LetsOut t m c j := by
  obtain ⟨pos, rfl⟩ := hf
  cases h with
  | raised h =>
    rcases h with h | ⟨h, -⟩
    · cases h
    · cases h
  | stray h _ => exact ⟨_, h⟩

variable {turns depth : Nat}

/-- A stray jump is raised by a call that the failing task reaches. -/
theorem reaches_of_strays (h : (ofDepth turns depth).Fails m f m' t) (hf : f.Strays j) :
    ∃ d t' m₁ c, Reaches turns depth t m (d + 1) t' m₁ ∧ (ofDepth turns d).LetsOut t' m₁ c j ∧
      Stmt.escapesAny j c.statements = true := by
  have hdeep : f ≠ .tooDeep := by
    rintro rfl
    obtain ⟨pos, ⟨⟩⟩ := hf
  obtain ⟨d, t', m₁, hreaches, hraises⟩ := origin_of_fails h hdeep
  obtain ⟨c, hlets⟩ := hraises.letsOut hf
  exact ⟨d, t', m₁, c, hreaches, hlets, hlets.escapesAny (keepsJumps_ofDepth turns d)⟩

/-- A call that lets a jump out makes every task fail that reaches it. -/
theorem fails_of_letsOut {d : Nat} {t' : Task} {m₁ : Machine}
    (h : Reaches turns depth t m (d + 1) t' m₁) (hlets : (ofDepth turns d).LetsOut t' m₁ c j) :
    ∃ f m', (ofDepth turns depth).Fails m f m' t ∧ f.Strays j := by
  obtain ⟨m', hrule⟩ := hlets.ruleFails
  obtain ⟨g, hg, hcause⟩ := fails_of_reaches h (fails_succ.mpr ⟨_, hrule, rfl⟩)
  exact ⟨g, m', hg, (Failure.strays_congr hcause).mpr ⟨_, rfl⟩⟩

end Runner

/-! ## Signals never leak -/

/-- Jumps stay where something catches them.

* Running any statement gives a signal only of a jump that escapes the statement.
* No top-level statement of a run of a checked program, simplified or not, ends with a signal, and
  no such run reports a return outside a function.
* A task fails by a stray jump exactly if it reaches a call that lets the jump out: the jump is an
  exit or a continue, and it escapes the statements of the called function.
* So does every statement of a run that ends with a stray jump. -/
theorem signals_stay_inside (limits : Limits) :
    (∀ (s : Stmt) (frame : Nat) (m m' : Machine) (g : Signal),
      (Runner.ofDepth limits.turns limits.depth).exec s frame m = (.ok (some g), m') →
        s.escapes g.jump = true) ∧
    (∀ p : Program, p.analyze = [] → ∀ q ∈ [p, p.simplify.result], ∀ (m : Machine),
      ∀ o ∈ m.endings limits q,
        (∀ g, o.result ≠ .ok (some g)) ∧
          ∀ d, o.diagnostic? = some d → d.message ≠ Jump.leaveFunction.strayMessage) ∧
    (∀ (t : Task) (m : Machine) (j : Jump),
      (∃ f m', (Runner.ofDepth limits.turns limits.depth).Fails m f m' t ∧ f.Strays j) ↔
        ∃ d t' m₁ c, Runner.Reaches limits.turns limits.depth t m (d + 1) t' m₁ ∧
          (Runner.ofDepth limits.turns d).LetsOut t' m₁ c j ∧
            Stmt.escapesAny j c.statements = true) ∧
    ∀ (p : Program) (m : Machine), ∀ o ∈ m.endings limits p, ∀ f j,
      o.result = .error f → f.Strays j →
        ∃ d t m₁ c, m.Executes limits p (d + 1) t m₁ ∧
          (Runner.ofDepth limits.turns d).LetsOut t m₁ c j ∧
            Stmt.escapesAny j c.statements = true := by
  have hr := Runner.keepsJumps_ofDepth limits.turns limits.depth
  refine ⟨?_, ?_, ?_, ?_⟩
  · intro s frame m m' g hx
    exact (leads_iff.mp (hr.exec s frame m)).1 (some g) m' hx g rfl
  · intro p hp q hq m o ho
    simp only [List.mem_cons, List.not_mem_nil, or_false] at hq
    rcases hq with rfl | rfl
    · exact Machine.no_stray_of_mem_endings (fun s hs => Program.escapes_eq_false hp hs) ho
    · exact Machine.no_stray_of_mem_endings
        (fun s hs => Program.escapes_simplify_eq_false hp hs) ho
  · intro t m j
    constructor
    · rintro ⟨f, m', hfails, hf⟩
      exact Runner.reaches_of_strays hfails hf
    · rintro ⟨d, t', m₁, c, hreaches, hlets, -⟩
      exact Runner.fails_of_letsOut hreaches hlets
  · intro p m o ho f j hresult hf
    obtain ⟨m₁, hcomes, hexec⟩ := Machine.comes_of_mem_endingsFrom ho
    rcases hx : (Runner.ofDepth limits.turns limits.depth).exec o.statement
      m.store.frames.frames.size m₁ with ⟨result, m₂⟩
    have hfailed : result = .error f := (congrArg Prod.fst hx).symm.trans (hexec.symm.trans hresult)
    subst hfailed
    obtain ⟨d, t, m₃, c, hreaches, hlets⟩ :=
      Runner.reaches_of_strays (t := .exec o.statement _) hx hf
    exact ⟨d, t, m₃, c, ⟨o.statement, m₁, hcomes, hreaches⟩, hlets⟩

/-- The leak that remains: a loop lets a function in its body exit, but the call of the function
reports the exit instead of leaving the loop. -/
theorem signals_stay_inside_call_in_loop :
    let exit := Expr.function ⟨1, 7⟩ [] [.exitStmt ⟨1, 15⟩] none
    let p : Program :=
      ⟨[.forLoop ⟨1, 1⟩ none ⟨⟨1, 1⟩, [.expr ⟨1, 6⟩ (.call ⟨1, 24⟩ exit [])]⟩ none none], .start⟩
    p.analyze = [] ∧
      (∀ o ∈ Machine.initial.endings (.bounded 9 9) p, ∀ g, o.result ≠ .ok (some g)) ∧
      (Machine.initial.run (.bounded 9 9) p).1 = .ok
        [.error "'exit' statement outside loop" ⟨1, 24⟩] ∧
      ∃ d t m c, Machine.initial.Executes (.bounded 9 9) p (d + 1) t m ∧
        (Runner.ofDepth 9 d).LetsOut t m c .exitLoop ∧
        Stmt.escapesAny .exitLoop c.statements = true := by
  intro exit p
  have hp : p.analyze = [] := by decide
  obtain ⟨-, hclean, -, horigin⟩ := signals_stay_inside (.bounded 9 9)
  refine ⟨hp, fun o ho => (hclean p hp p (by simp) Machine.initial o ho).1, by rfl, ?_⟩
  have hends : Machine.initial.endings (.bounded 9 9) p =
      [⟨.forLoop ⟨1, 1⟩ none ⟨⟨1, 1⟩, [.expr ⟨1, 6⟩ (.call ⟨1, 24⟩ exit [])]⟩ none none,
        .error (.error ⟨.stray .exitLoop, ⟨1, 24⟩⟩)⟩] := by rfl
  exact horigin p Machine.initial _ (by rw [hends]; exact List.mem_cons_self) _ .exitLoop rfl
    ⟨_, rfl⟩

end Dee
