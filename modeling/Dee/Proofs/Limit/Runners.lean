import Dee.Eval.Program
import Dee.Proofs.Limit.Extended

/-!
# Rules of evaluation under two bounds

A runner is *extended* by another one if its bounds are no greater and each evaluation of a part is
extended. Every rule keeps that: there is one lemma for each rule that puts evaluations of parts
together. By induction on the depth the runner of any bounds is extended by the runner of greater
ones.

Main statement: `Runner.extendedBy_ofDepth`.
-/

namespace Dee

open Eval

/-! ## Sequences and loops -/

theorem extendedBy_runAll {exec exec' : Stmt → Eval (Option Signal)}
    (h : ∀ s, ExtendedBy (exec s) (exec' s)) (ss : List Stmt) :
    ExtendedBy (runAll exec ss) (runAll exec' ss) := by
  induction ss with
  | nil => exact .refl _
  | cons s rest ih =>
    refine (h s).bind fun signal => ?_
    cases signal with
    | some signal => exact .refl _
    | none => exact ih

/-- A loop that is not cut off ends within the turns it has, so more turns change nothing. -/
theorem extendedBy_takeTurns {turn turn' : Eval Turn} (h : ExtendedBy turn turn')
    {turns turns' : Nat}
    (hturns : turns ≤ turns') : ExtendedBy (takeTurns turn turns) (takeTurns turn' turns') := by
  induction turns generalizing turns' with
  | zero => exact extendedBy_throw rfl _
  | succ turns ih =>
    obtain ⟨turns', rfl⟩ := Nat.exists_eq_succ_of_ne_zero (Nat.ne_of_gt (Nat.zero_lt_of_lt hturns))
    refine h.bind fun t => ?_
    cases t with
    | again => exact ih (Nat.le_of_succ_le_succ hturns)
    | stop signal => exact .refl _

theorem Items.extendedBy_forEach (items : Items) {turn turn' : Value → Eval Turn}
    (h : ∀ v, ExtendedBy (turn v) (turn' v)) :
    ExtendedBy (items.forEach turn) (items.forEach turn') := by
  have htake : ∀ remaining next,
      ExtendedBy (items.takeFrom turn remaining next) (items.takeFrom turn' remaining next) := by
    intro remaining
    induction remaining with
    | zero => exact fun next => .refl _
    | succ remaining ih =>
      intro next
      refine (h (items.item next)).bind fun t => ?_
      cases t with
      | again => exact ih (next + 1)
      | stop signal => exact .refl _
  exact htake items.count 0

namespace Runner

/-- The bounds are no greater, and wherever the first runner is not cut off the second one does the
same. -/
structure ExtendedBy (r r' : Runner) : Prop where
  depth : r.depth ≤ r'.depth
  turns : r.turns ≤ r'.turns
  eval : ∀ e frame, Eval.ExtendedBy (r.eval e frame) (r'.eval e frame)
  exec : ∀ s frame, Eval.ExtendedBy (r.exec s frame) (r'.exec s frame)

namespace ExtendedBy

variable {r r' : Runner} (h : r.ExtendedBy r')
include h

/-! ## Expressions -/

theorem evalAll (es : List Expr) (frame : Nat) :
    Eval.ExtendedBy (r.evalAll es frame) (r'.evalAll es frame) := by
  unfold Runner.evalAll
  induction es with
  | nil => exact .refl _
  | cons e rest ih =>
    rw [List.mapM_cons, List.mapM_cons]
    exact (h.eval e frame).bind fun v => ih.bind fun vs => .refl _

theorem evalEntries (frame : Nat) (entries : List TupleEntry) (slots : Slots) :
    Eval.ExtendedBy (r.evalEntries frame entries slots) (r'.evalEntries frame entries slots) := by
  induction entries generalizing slots with
  | nil => exact .refl _
  | cons entry rest ih =>
    obtain ⟨name, e⟩ := entry
    exact (h.eval e frame).bind fun v => .bind_right _ fun slots => ih slots

theorem invoke (func : Value) (args : List Value) :
    Eval.ExtendedBy (r.invoke func args) (r'.invoke func args) := by
  unfold Runner.invoke
  cases func with
  | func ref =>
    refine .bind_right _ fun st => ?_
    dsimp only
    split
    · refine .bind_right _ fun frame => .bind_right _ fun _ => ?_
      split
      · exact h.eval _ frame
      · exact (extendedBy_runAll (fun s => h.exec s frame) _).bind fun _ => .refl _
    · exact .refl _
  | scalar s => exact .refl _
  | array ref => exact .refl _
  | tuple ref => exact .refl _

theorem evalRule (frame : Nat) (e : Expr) :
    Eval.ExtendedBy (r.evalRule frame e) (r'.evalRule frame e) := by
  cases e with
  | literal pos value text => exact .refl _
  | reference pos name => exact extendedBy_lookup h.depth frame name
  | binary pos op left right =>
    exact (h.eval left frame).bind fun a => (h.eval right frame).bind fun b =>
      extendedBy_binary h.depth op a b
  | unary pos op operand => exact (h.eval operand frame).bind fun a => .refl _
  | call pos func args =>
    exact (h.eval func frame).bind fun f => (h.evalAll args frame).bind fun vs => h.invoke f vs
  | index pos value index =>
    exact (h.eval value frame).bind fun container => (h.eval index frame).bind fun i => .refl _
  | array pos elements => exact (h.evalAll elements frame).bind fun vs => .refl _
  | tuple pos entries => exact (h.evalEntries frame entries .empty).bind fun slots => .refl _
  | function pos params statements expression => exact .refl _
  | typeCheck pos value indicator => exact (h.eval value frame).bind fun v => .refl _
  | member pos value member => exact (h.eval value frame).bind fun container => .refl _

/-! ## Statements -/

theorem storeInitial (frame : Nat) (vars : List VarDef) :
    Eval.ExtendedBy (r.storeInitial frame vars) (r'.storeInitial frame vars) := by
  induction vars with
  | nil => exact .refl _
  | cons var rest ih =>
    obtain ⟨name, initial⟩ := var
    cases initial with
    | none => exact ih
    | some e =>
      exact (h.eval e frame).bind fun v => (extendedBy_assign h.depth frame name v).bind fun _ => ih

theorem assignTo (frame : Nat) (v : Value) (target : Expr) :
    Eval.ExtendedBy (r.assignTo frame v target) (r'.assignTo frame v target) := by
  cases target with
  | reference pos name => exact extendedBy_assign h.depth frame name v
  | index pos value index =>
    exact (h.eval value frame).bind fun container => (h.eval index frame).bind fun i => .refl _
  | member pos value member => exact (h.eval value frame).bind fun container => .refl _
  | _ => exact .refl _

theorem itemsOf (frame : Nat) (iterable : Expr) (last : Option Expr) :
    Eval.ExtendedBy (r.itemsOf frame iterable last) (r'.itemsOf frame iterable last) := by
  cases last with
  | none => exact (h.eval iterable frame).bind fun container => .refl _
  | some last =>
    exact (h.eval iterable frame).bind fun first => .bind_right _ fun first =>
      (h.eval last frame).bind fun last => .refl _

theorem itemTurn (frame : Nat) (loopVar : Option String) (body : Block) (item : Value) :
    Eval.ExtendedBy (r.itemTurn frame loopVar body item) (r'.itemTurn frame loopVar body item) := by
  cases loopVar with
  | none => exact (h.exec (.block body) frame).bind fun signal => .refl _
  | some name =>
    exact .bind_right _ fun inner => .bind_right _ fun _ =>
      (h.exec (.block body) inner).bind fun signal => .refl _

theorem holds (condition : Expr) (frame : Nat) :
    Eval.ExtendedBy (r.holds condition frame) (r'.holds condition frame) :=
  (h.eval condition frame).bind fun _ => .refl _

theorem execRule (frame : Nat) (s : Stmt) :
    Eval.ExtendedBy (r.execRule frame s) (r'.execRule frame s) := by
  cases s with
  | declaration pos vars =>
    exact .bind_right _ fun _ => (h.storeInitial frame vars).bind fun _ => .refl _
  | assign pos target value =>
    exact (h.eval value frame).bind fun v => (h.assignTo frame v target).bind fun _ => .refl _
  | block body =>
    exact .bind_right _ fun inner => extendedBy_runAll (fun s => h.exec s inner) body.statements
  | conditional pos condition thenBlock elseBlock =>
    refine (h.holds condition frame).bind fun b => ?_
    cases b with
    | true => exact h.exec (.block thenBlock) frame
    | false =>
      cases elseBlock with
      | none => exact .refl _
      | some other => exact h.exec (.block other) frame
  | whileLoop pos condition body =>
    refine extendedBy_takeTurns ?_ h.turns
    refine (h.holds condition frame).bind fun b => ?_
    cases b with
    | true => exact (h.exec (.block body) frame).bind fun signal => .refl _
    | false => exact .refl _
  | forLoop pos loopVar body iterable rangeEnd =>
    cases iterable with
    | none =>
      exact extendedBy_takeTurns ((h.exec (.block body) frame).bind fun signal => .refl _) h.turns
    | some iterable =>
      exact (h.itemsOf frame iterable rangeEnd).bind fun items =>
        items.extendedBy_forEach (h.itemTurn frame loopVar body)
  | returnStmt pos value =>
    cases value with
    | none => exact .refl _
    | some e => exact (h.eval e frame).bind fun v => .refl _
  | exitStmt pos => exact .refl _
  | continueStmt pos => exact .refl _
  | print pos values =>
    exact (h.evalAll values frame).bind fun vs =>
      (extendedBy_print h.depth vs).bind fun _ => .refl _
  | expr pos value => exact (h.eval value frame).bind fun _ => .refl _

end ExtendedBy

/-! ## Depth -/

theorem turns_ofDepth (turns depth : Nat) : (ofDepth turns depth).turns = turns := by
  cases depth <;> rfl

/-- A runner with greater bounds does the same wherever the lesser one is not cut off. -/
theorem extendedBy_ofDepth {turns turns' depth depth' : Nat} (hturns : turns ≤ turns')
    (hdepth : depth ≤ depth') : ExtendedBy (ofDepth turns depth) (ofDepth turns' depth') := by
  induction depth generalizing depth' with
  | zero =>
    exact ⟨Nat.zero_le _, by rwa [turns_ofDepth, turns_ofDepth], fun _ _ => extendedBy_throw rfl _,
      fun _ _ => extendedBy_throw rfl _⟩
  | succ depth ih =>
    obtain ⟨depth', rfl⟩ := Nat.exists_eq_succ_of_ne_zero (Nat.ne_of_gt (Nat.zero_lt_of_lt hdepth))
    have hbelow := ih (Nat.le_of_succ_le_succ hdepth)
    exact ⟨hdepth, hturns, fun e frame => (hbelow.evalRule frame e).locating e.pos,
      fun s frame => (hbelow.execRule frame s).locating s.pos⟩

end Runner

end Dee
