import Dee.Proofs.Eval.Part
import Dee.Proofs.Eval.Raised
import Dee.Proofs.Eval.Trace

/-!
# Where failures come from

Nothing in a program catches a failure. So a task fails if one of its parts does, and a failure that
comes from none of the parts was raised by the task itself: an error, nesting beyond the limit, a
loop that used up its turns, or something that there is no room for. `Runner.Reaches` follows the
parts down to the task that a failure comes from, and `Machine.Executes` does so for a whole run.

Main statements: `Runner.origin_of_fails`, `Runner.fails_of_reaches`, `Machine.run_eq_error_iff`,
`Machine.reported_of_executes`.
-/

namespace Dee

open Eval

/-- The position of the code of a task. -/
def Task.pos : Task → Pos
  | .eval e _ => e.pos
  | .exec s _ => s.pos

/-- Whether the code of a task is well-formed, its parts aside. -/
def Task.isWellFormed : Task → Bool
  | .eval e _ => e.isWellFormed
  | .exec s _ => s.isWellFormed

/-- A failure apart from its position. -/
def Failure.unplaced : Failure → Failure
  | .error e => .ofError e.cause
  | .tooDeep => .tooDeep
  | .abort a => .abort a

theorem Failure.unplaced_placeAt (f : Failure) (pos : Pos) :
    (f.placeAt pos).unplaced = f.unplaced := by
  cases f with
  | error e =>
    rw [Failure.placeAt, Located.placeAt]
    split <;> rfl
  | tooDeep => rfl
  | abort a => rfl

namespace Runner

variable {r : Runner} {t t' : Task} {frame : Nat} {m m₁ m' : Machine} {f : Failure}

/-- The runner fails at a task. -/
def Fails (r : Runner) (m : Machine) (f : Failure) (m' : Machine) : Task → Prop
  | .eval e frame => r.eval e frame m = (.error f, m')
  | .exec s frame => r.exec s frame m = (.error f, m')

/-- The rule for a task fails, with its parts given by the runner. -/
def RuleFails (r : Runner) (m : Machine) (f : Failure) (m' : Machine) : Task → Prop
  | .eval e frame => r.evalRule frame e m = (.error f, m')
  | .exec s frame => r.execRule frame s m = (.error f, m')

/-- The parts of the task have values, and there is no room for what it makes of them: an array that
reaches to the index of a write behind its end, two strings, arrays or tuples that are joined, or
the text of values that are printed. -/
inductive Exhausts (r : Runner) : Task → Machine → Abort → Prop
  | write {pos targetPos : Pos} {container index value : Expr} {frame ref : Nat}
      {v : Value} {i : Int}
      {m m₁ m₂ m₃ : Machine} (hv : r.eval value frame m = (.ok v, m₁))
      (hcontainer : r.eval container frame m₁ = (.ok (.array ref), m₂))
      (hindex : r.eval index frame m₂ = (.ok (.int i), m₃))
      (hbehind : 0 < (m₃.store.cells ref).growth i) (hfull : Memory.capacity ≤ i.toNat) :
      Exhausts r (.exec (.assign pos (.index targetPos container index) value) frame) m
        (Memory.shortage ((m₃.store.cells ref).growth i))
  | join {pos : Pos} {left right : Expr} {frame : Nat} {a b : Value} {m m₁ m₂ : Machine}
      {abort : Abort} (hleft : r.eval left frame m = (.ok a, m₁))
      (hright : r.eval right frame m₁ = (.ok b, m₂)) (h : m₂.store.ShortOfJoin a b abort) :
      Exhausts r (.eval (.binary pos "+" left right) frame) m abort
  | print {pos : Pos} {values : List Expr} {frame : Nat} {vs : List Value} {m m₁ : Machine}
      {abort : Abort} (hvalues : r.evalAll values frame m = (.ok vs, m₁))
      (h : m₁.store.spellLine r.depth vs = .error (.abort abort)) :
      Exhausts r (.exec (.print pos values) frame) m abort

/-- The task is a call whose parts have values, and the statements of the called function end with a
jump other than a return: the call lets the jump out of the function `c`. -/
def LetsOut (r : Runner) (t : Task) (m : Machine) (c : Closure) (j : Jump) : Prop :=
  ∃ pos func args frame inner m₁ signal m₂,
    t = .eval (.call pos func args) frame ∧ r.Calls func args frame m c inner m₁ ∧
    c.expression = none ∧ runAll (r.exec · inner) c.statements m₁ = (.ok (some signal), m₂) ∧
    signal.jump = j ∧ j ≠ .leaveFunction

/-- A failure that a task raises itself. -/
inductive RaisesAt (r : Runner) (t : Task) (m : Machine) : Failure → Prop
  | raised {f : Failure} (h : f.IsRaised t.isWellFormed) : RaisesAt r t m f
  | stray {c : Closure} {j : Jump} (h : r.LetsOut t m c j) (pos : Pos) :
      RaisesAt r t m (.error ⟨.stray j, pos⟩)
  | outOfTurns : RaisesAt r t m (.abort .outOfTurns)
  | exhausts {a : Abort} (h : r.Exhausts t m a) : RaisesAt r t m (.abort a)

/-- A failure comes from a part of the task, or the task raises it. -/
def Explains (r : Runner) (t : Task) (m : Machine) (f : Failure) (m' : Machine) : Prop :=
  (∃ t' m₁, r.Part t m t' m₁ ∧ r.Fails m₁ f m' t') ∨ r.RaisesAt t m f

theorem Explains.part (h : r.Part t m t' m₁) (hf : r.Fails m₁ f m' t') : r.Explains t m f m' :=
  Or.inl ⟨t', m₁, h, hf⟩

theorem Explains.own {α : Type} {x : Eval α} (h : Raises t.isWellFormed x)
    (hf : x m₁ = (.error f, m')) : r.Explains t m f m' :=
  Or.inr (.raised (h m₁ f m' hf))

/-! ## Expressions -/

/-- The body of a function fails in one of its parts, or with a jump that leaves it. -/
theorem explains_body {pos : Pos} {func : Expr} {args : List Expr} {c : Closure} {inner : Nat}
    (hcalls : r.Calls func args frame m c inner m₁) (h : r.runBody c inner m₁ = (.error f, m')) :
    r.Explains (.eval (.call pos func args) frame) m f m' := by
  unfold runBody at h
  cases he : c.expression with
  | some e =>
    rw [he] at h
    exact .part (.bodyExpression hcalls he) h
  | none =>
    rw [he] at h
    rcases bind_eq_error.mp h with h | ⟨signal, m₂, hruns, h⟩
    · obtain ⟨s, m₂, hcomes, hfails⟩ := runAll_eq_error.mp h
      exact .part (.bodyStatement hcalls he hcomes) hfails
    · obtain ⟨g, rfl, hg, rfl, rfl⟩ := resultOf_eq_error.mp h
      exact Or.inr (.stray ⟨_, _, _, _, _, _, g, _, rfl, hcalls, he, hruns, rfl, hg⟩ .nowhere)

/-- A call whose parts have values fails in the body of the function, or before it is entered. -/
theorem explains_invoke {pos : Pos} {func : Expr} {args : List Expr} {v : Value} {vs : List Value}
    {m₂ : Machine} (hfunc : r.eval func frame m = (.ok v, m₁))
    (hargs : r.evalAll args frame m₁ = (.ok vs, m₂)) (h : r.invoke v vs m₂ = (.error f, m')) :
    r.Explains (.eval (.call pos func args) frame) m f m' := by
  have herror : ∀ {e : EvalError}, e.concernsValues = true →
      (fail e : Eval Value) m₂ = (.error f, m') →
      r.Explains (.eval (.call pos func args) frame) m f m' := fun he hf =>
    .own (raises_error _ he) hf
  cases v with
  | func ref =>
    by_cases hcount : vs.length = (m₂.store.closure ref).params.length
    · rw [invoke_func hcount, enter_eq] at h
      rcases bind_eq_error.mp h with h | ⟨inner, m₃, hopen, h⟩
      · refine .own (x := openFrame _ vs) ?_ h
        exact (raises_make _).bind fun frame => (raises_bindParams _ _ _).bind fun _ =>
          raises_pure _
      · exact explains_body ⟨ref, vs, m₁, m₂, hfunc, hargs, rfl, hcount, hopen⟩ h
    · change (if vs.length = (m₂.store.closure ref).params.length then _ else _ : Eval Value)
        m₂ = _ at h
      rw [if_neg hcount] at h
      exact herror rfl h
  | scalar s => exact herror rfl h
  | array ref => exact herror rfl h
  | tuple ref => exact herror rfl h

theorem explains_evalRule {e : Expr} (h : r.evalRule frame e m = (.error f, m')) :
    r.Explains (.eval e frame) m f m' := by
  cases e with
  | literal pos value kind => cases h
  | reference pos name => exact .own (raises_lookup _ _ _) h
  | binary pos op left right =>
    rcases bind_eq_error.mp h with h | ⟨a, m₁, ha, h⟩
    · exact .part (.operand .head) h
    · rcases bind_eq_error.mp h with h | ⟨b, m₂, hb, h⟩
      · exact .part (.operand (.tail ⟨a, ha⟩ .head)) h
      · rcases binary_eq_error h with hraised | ⟨rfl, abort, hshort, rfl⟩
        · exact Or.inr (.raised hraised)
        · exact Or.inr (.exhausts (.join ha hb hshort))
  | unary pos op operand =>
    rcases bind_eq_error.mp h with h | ⟨a, m₁, ha, h⟩
    · exact .part (.operand .head) h
    · exact .own (raises_unary _ _) h
  | call pos func args =>
    rcases bind_eq_error.mp h with h | ⟨v, m₁, hfunc, h⟩
    · exact .part (.operand .head) h
    · rcases bind_eq_error.mp h with h | ⟨vs, m₂, hargs, h⟩
      · obtain ⟨e, m₂, hcomes, hfails⟩ := evalAll_eq_error.mp h
        exact .part (.operand (.tail ⟨v, hfunc⟩ hcomes)) hfails
      · exact explains_invoke hfunc hargs h
  | index pos value i =>
    rcases bind_eq_error.mp h with h | ⟨a, m₁, ha, h⟩
    · exact .part (.operand .head) h
    · rcases bind_eq_error.mp h with h | ⟨b, m₂, hb, h⟩
      · exact .part (.operand (.tail ⟨a, ha⟩ .head)) h
      · exact .own ((raises_requireInt _ _).bind fun n => raises_elementAt _ _) h
  | array pos elements =>
    rcases bind_eq_error.mp h with h | ⟨vs, m₁, -, h⟩
    · obtain ⟨e, m₂, hcomes, hfails⟩ := evalAll_eq_error.mp h
      exact .part (.operand hcomes) hfails
    · cases h
  | tuple pos entries =>
    rcases bind_eq_error.mp h with h | ⟨slots, m₁, -, h⟩
    · rcases comes_of_evalEntries h with ⟨entry, s, hcomes, hfails⟩ | ⟨slots', name, v, e, he, rfl⟩
      · exact .part (.entry hcomes) hfails
      · exact Or.inr (.raised (Or.inl (Slots.concernsValues_of_append he)))
    · cases h
  | function pos params statements expression => cases h
  | typeCheck pos value indicator =>
    rcases bind_eq_error.mp h with h | ⟨v, m₁, -, h⟩
    · exact .part (.operand .head) h
    · cases hkind : Kind.ofIndicator? indicator with
      | some kind =>
        rw [hkind] at h
        cases h
      | none =>
        rw [hkind] at h
        exact .own (raises_error _ rfl) h
  | member pos value member =>
    rcases bind_eq_error.mp h with h | ⟨v, m₁, -, h⟩
    · exact .part (.operand .head) h
    · exact .own (raises_memberOf _ _) h

/-! ## Statements -/

/-- A condition fails in its expression. -/
theorem holds_eq_error {condition : Expr} :
    r.holds condition frame m = (.error f, m') ↔ r.eval condition frame m = (.error f, m') := by
  constructor
  · intro h
    rcases bind_eq_error.mp h with h | ⟨v, m₁, -, h⟩
    · exact h
    · cases h
  · intro h
    exact bind_apply_error h

/-- A turn without a condition fails in the body. -/
theorem plainTurn_eq_error {body : Block} :
    r.plainTurn body frame m = (.error f, m') ↔ r.exec (.block body) frame m = (.error f, m') := by
  constructor
  · intro h
    rcases bind_eq_error.mp h with h | ⟨signal, m₁, -, h⟩
    · exact h
    · cases h
  · intro h
    exact bind_apply_error h

/-- Only an integer is taken for one. -/
theorem eq_of_requireInt {role : IntRole} {v : Value} {n : Int}
    (h : requireInt role v m = (.ok n, m')) : v = .int n ∧ m' = m := by
  unfold requireInt at h
  split at h
  · cases h
    exact ⟨rfl, rfl⟩
  · cases h

/-- A target has its operands behind the value. -/
theorem explains_assignTo {pos : Pos} {target value : Expr} {v : Value}
    (hv : r.eval value frame m = (.ok v, m₁)) (h : r.assignTo frame v target m₁ = (.error f, m')) :
    r.Explains (.exec (.assign pos target value) frame) m f m' := by
  have hvalue : r.Passes frame value m m₁ := ⟨v, hv⟩
  unfold assignTo at h
  split at h
  · exact .own (raises_assign _ _ _ _) h
  next targetPos container index =>
    rcases bind_eq_error.mp h with h | ⟨c, m₂, hc, h⟩
    · exact .part (.value (.tail hvalue .head)) h
    · rcases bind_eq_error.mp h with h | ⟨i, m₃, hi, h⟩
      · exact .part (.value (.tail hvalue (.tail ⟨c, hc⟩ .head))) h
      · rcases bind_eq_error.mp h with h | ⟨n, m₄, hn, h⟩
        · exact .own (raises_requireInt _ _) h
        · rcases setElementAt_eq_error h with hraised | ⟨ref, rfl, hbehind, hfull, rfl⟩
          · exact Or.inr (.raised hraised)
          · obtain ⟨rfl, rfl⟩ := eq_of_requireInt hn
            exact Or.inr (.exhausts (.write hv hc hi hbehind hfull))
  next targetPos container member =>
    rcases bind_eq_error.mp h with h | ⟨c, m₂, -, h⟩
    · exact .part (.value (.tail hvalue .head)) h
    · exact .own (raises_setMemberOf _ _ _) h
  next hreference hindex hmember =>
    refine .own (raises_fail (Or.inr ⟨rfl, ?_⟩)) h
    cases target with
    | reference pos name => exact absurd rfl (hreference pos name)
    | index pos value i => exact absurd rfl (hindex pos value i)
    | member pos value member => exact absurd rfl (hmember pos value member)
    | literal | binary | unary | call | array | tuple | function | typeCheck => rfl

/-- The source of a loop over items has its parts. -/
theorem explains_itemsOf {pos : Pos} {loopVar : Option String} {body : Block} {iterable : Expr}
    {rangeEnd : Option Expr} (h : r.itemsOf frame iterable rangeEnd m = (.error f, m')) :
    r.Explains (.exec (.forLoop pos loopVar body (some iterable) rangeEnd) frame) m f m' := by
  cases rangeEnd with
  | some last =>
    rw [itemsOf] at h
    rcases bind_eq_error.mp h with h | ⟨a, m₁, ha, h⟩
    · exact .part (.value .head) h
    · rcases bind_eq_error.mp h with h | ⟨n, m₂, hn, hrest⟩
      · exact .own (raises_requireInt _ _) h
      · obtain ⟨rfl, rfl⟩ := eq_of_requireInt hn
        rcases bind_eq_error.mp hrest with hlast | ⟨b, m₃, -, hlast⟩
        · exact .part (.rangeEnd ha) hlast
        · exact .own ((raises_requireInt _ _).bind fun k => raises_pure _) hlast
  | none =>
    rcases bind_eq_error.mp h with h | ⟨c, m₁, -, h⟩
    · exact .part (.value .head) h
    · refine .own (raises_store.bind fun st => ?_) h
      split
      · exact raises_pure _
      · exact raises_pure _
      · exact raises_error _ rfl

theorem explains_execRule {s : Stmt} (h : r.execRule frame s m = (.error f, m')) :
    r.Explains (.exec s frame) m f m' := by
  cases s with
  | declaration pos vars =>
    rcases bind_eq_error.mp h with h | ⟨_, m₁, hdeclare, h⟩
    · exact .own (raises_declareAll _ _) h
    · rcases bind_eq_error.mp h with h | ⟨_, m₂, -, h⟩
      · rcases comes_of_storeInitial h with ⟨name, e, m₂, hcomes, hfails⟩ | ⟨name, v, m₂, h⟩
        · exact .part (.initial hdeclare hcomes) hfails
        · exact .own (raises_assign _ _ _ _) h
      · cases h
  | assign pos target value =>
    rcases bind_eq_error.mp h with h | ⟨v, m₁, hv, h⟩
    · exact .part (.value .head) h
    · rcases bind_eq_error.mp h with h | ⟨_, m₂, -, h⟩
      · exact explains_assignTo hv h
      · cases h
  | block body =>
    rcases bind_eq_error.mp h with h | ⟨inner, m₁, hopen, h⟩
    · cases h
    · obtain ⟨s, m₂, hcomes, hfails⟩ := runAll_eq_error.mp h
      exact .part (.statement hopen hcomes) hfails
  | conditional pos condition thenBlock elseBlock =>
    rcases bind_eq_error.mp h with h | ⟨b, m₁, hb, h⟩
    · exact .part (.value .head) (holds_eq_error.mp h)
    · cases b with
      | true => exact .part (.thenBlock hb) h
      | false =>
        cases elseBlock with
        | some other => exact .part (.elseBlock hb) h
        | none => cases h
  | whileLoop pos condition body =>
    rcases comes_of_takeTurns h with ⟨m₁, hcomes, h⟩ | rfl
    · rcases bind_eq_error.mp h with h | ⟨b, m₂, hb, h⟩
      · exact .part (.whileCondition hcomes) (holds_eq_error.mp h)
      · cases b with
        | true => exact .part (.whileBody hcomes hb) (plainTurn_eq_error.mp h)
        | false => cases h
    · exact Or.inr .outOfTurns
  | forLoop pos loopVar body iterable rangeEnd =>
    cases iterable with
    | none =>
      rcases comes_of_takeTurns h with ⟨m₁, hcomes, h⟩ | rfl
      · exact .part (.endlessBody hcomes) (plainTurn_eq_error.mp h)
      · exact Or.inr .outOfTurns
    | some iterable =>
      rcases bind_eq_error.mp h with h | ⟨items, m₁, hitems, h⟩
      · exact explains_itemsOf h
      · obtain ⟨k, m₂, hcomes, h⟩ := takeFrom_eq_error.mp h
        rw [itemTurn_eq] at h
        rcases bind_eq_error.mp h with h | ⟨inner, m₃, hopen, h⟩
        · refine .own (x := turnFrame frame loopVar (items.item k)) ?_ h
          cases loopVar with
          | some name =>
            exact (raises_make _).bind fun inner => (raises_define _ _ _).bind fun _ =>
              raises_pure _
          | none => exact raises_pure _
        · exact .part (.itemBody hitems hcomes hopen) (plainTurn_eq_error.mp h)
  | returnStmt pos value =>
    cases value with
    | none => cases h
    | some e =>
      rcases bind_eq_error.mp h with h | ⟨v, m₁, -, h⟩
      · exact .part (.value .head) h
      · cases h
  | exitStmt pos => cases h
  | continueStmt pos => cases h
  | print pos values =>
    rcases bind_eq_error.mp h with h | ⟨vs, m₁, hvalues, h⟩
    · obtain ⟨e, m₂, hcomes, hfails⟩ := evalAll_eq_error.mp h
      exact .part (.value hcomes) hfails
    · rcases bind_eq_error.mp h with h | ⟨_, m₂, -, ⟨⟩⟩
      obtain ⟨hline, rfl⟩ := print_eq_error.mp h
      rcases Store.short_of_spellLine hline with rfl | rfl | rfl
      · exact Or.inr (.raised trivial)
      · exact Or.inr (.exhausts (.print hvalues hline))
      · exact Or.inr (.exhausts (.print hvalues hline))
  | expr pos value =>
    rcases bind_eq_error.mp h with h | ⟨v, m₁, -, h⟩
    · exact .part (.value .head) h
    · cases h

/-! ## Failures of parts -/

/-- An expression fails where one of its operands does. -/
theorem evalRule_fails_of_operand {e e' : Expr} (h : Comes (r.Passes frame) e.operands m e' m₁)
    (hf : r.eval e' frame m₁ = (.error f, m')) : r.evalRule frame e m = (.error f, m') := by
  cases e with
  | binary pos op left right =>
    rcases comes_cons.mp h with ⟨rfl, rfl⟩ | ⟨m₂, ⟨a, ha⟩, h⟩
    · exact bind_apply_error hf
    · obtain ⟨rfl, rfl⟩ := comes_one.mp h
      exact (bind_apply_ok ha).trans (bind_apply_error hf)
  | unary pos op operand =>
    obtain ⟨rfl, rfl⟩ := comes_one.mp h
    exact bind_apply_error hf
  | call pos func args =>
    rcases comes_cons.mp h with ⟨rfl, rfl⟩ | ⟨m₂, ⟨v, hv⟩, h⟩
    · exact bind_apply_error hf
    · have hargs := evalAll_eq_error.mpr ⟨e', m₁, h, hf⟩
      exact (bind_apply_ok hv).trans (bind_apply_error hargs)
  | index pos value i =>
    rcases comes_cons.mp h with ⟨rfl, rfl⟩ | ⟨m₂, ⟨a, ha⟩, h⟩
    · exact bind_apply_error hf
    · obtain ⟨rfl, rfl⟩ := comes_one.mp h
      exact (bind_apply_ok ha).trans (bind_apply_error hf)
  | array pos elements =>
    exact bind_apply_error (evalAll_eq_error.mpr ⟨e', m₁, h, hf⟩)
  | typeCheck pos value indicator =>
    obtain ⟨rfl, rfl⟩ := comes_one.mp h
    exact bind_apply_error hf
  | member pos value member =>
    obtain ⟨rfl, rfl⟩ := comes_one.mp h
    exact bind_apply_error hf
  | literal | reference | tuple | function => cases h

/-- A target fails where one of its operands does. -/
theorem assignTo_fails_of_operand {target e : Expr} {v : Value}
    (h : Comes (r.Passes frame) (if Grammar.isTarget target then target.operands else []) m e m₁)
    (hf : r.eval e frame m₁ = (.error f, m')) : r.assignTo frame v target m = (.error f, m') := by
  cases target with
  | index pos value i =>
    rcases comes_cons.mp h with ⟨rfl, rfl⟩ | ⟨m₂, ⟨a, ha⟩, h⟩
    · exact bind_apply_error hf
    · obtain ⟨rfl, rfl⟩ := comes_one.mp h
      exact (bind_apply_ok ha).trans (bind_apply_error hf)
  | member pos value member =>
    obtain ⟨rfl, rfl⟩ := comes_one.mp h
    exact bind_apply_error hf
  | literal | reference | binary | unary | call | array | tuple | function | typeCheck => cases h

/-- A statement fails where one of its operands does. -/
theorem execRule_fails_of_operand {s : Stmt} {e : Expr}
    (h : Comes (r.Passes frame) s.operands m e m₁)
    (hf : r.eval e frame m₁ = (.error f, m')) : r.execRule frame s m = (.error f, m') := by
  cases s with
  | assign pos target value =>
    rcases comes_cons.mp h with ⟨rfl, rfl⟩ | ⟨m₂, ⟨v, hv⟩, h⟩
    · exact bind_apply_error hf
    · have htarget := assignTo_fails_of_operand (v := v) h hf
      exact (bind_apply_ok hv).trans (bind_apply_error htarget)
  | conditional pos condition thenBlock elseBlock =>
    obtain ⟨rfl, rfl⟩ := comes_one.mp h
    exact bind_apply_error (holds_eq_error.mpr hf)
  | forLoop pos loopVar body iterable rangeEnd =>
    cases iterable with
    | none => cases h
    | some iterable =>
      obtain ⟨rfl, rfl⟩ := comes_one.mp h
      refine bind_apply_error ?_
      cases rangeEnd with
      | some last => exact bind_apply_error hf
      | none => exact bind_apply_error hf
  | returnStmt pos value =>
    cases value with
    | none => cases h
    | some e =>
      obtain ⟨rfl, rfl⟩ := comes_one.mp h
      exact bind_apply_error hf
  | print pos values => exact bind_apply_error (evalAll_eq_error.mpr ⟨e, m₁, h, hf⟩)
  | expr pos value =>
    obtain ⟨rfl, rfl⟩ := comes_one.mp h
    exact bind_apply_error hf
  | declaration | block | whileLoop | exitStmt | continueStmt => cases h

/-- A call fails where the body of the function does. -/
theorem evalRule_fails_of_body {pos : Pos} {func : Expr} {args : List Expr}
    {c : Closure} {inner : Nat}
    (hcalls : r.Calls func args frame m c inner m₁) (h : r.runBody c inner m₁ = (.error f, m')) :
    r.evalRule frame (.call pos func args) m = (.error f, m') := by
  obtain ⟨ref, vs, m₂, m₃, hfunc, hargs, rfl, hcount, hopen⟩ := hcalls
  refine (bind_apply_ok hfunc).trans ((bind_apply_ok hargs).trans ?_)
  rw [invoke_func hcount, enter_eq]
  exact (bind_apply_ok hopen).trans h

/-- The rule for a task fails where one of its parts does. -/
theorem ruleFails_of_part (h : r.Part t m t' m₁) (hf : r.Fails m₁ f m' t') :
    r.RuleFails m f m' t := by
  cases h with
  | operand h => exact evalRule_fails_of_operand h hf
  | entry h => exact bind_apply_error (evalEntries_eq_error_of_comes h hf)
  | bodyExpression h he =>
    refine evalRule_fails_of_body h ?_
    unfold runBody
    rw [he]
    exact hf
  | bodyStatement h hnone hs =>
    refine evalRule_fails_of_body h ?_
    unfold runBody
    rw [hnone]
    exact bind_apply_error (runAll_eq_error.mpr ⟨_, _, hs, hf⟩)
  | value h => exact execRule_fails_of_operand h hf
  | initial hdeclare h =>
    refine (bind_apply_ok hdeclare).trans (bind_apply_error ?_)
    exact storeInitial_eq_error_of_comes h hf
  | statement hopen h =>
    exact (bind_apply_ok hopen).trans (runAll_eq_error.mpr ⟨_, _, h, hf⟩)
  | thenBlock h => exact (bind_apply_ok h).trans hf
  | elseBlock h => exact (bind_apply_ok h).trans hf
  | whileCondition h =>
    exact takeTurns_eq_error_of_comes h (bind_apply_error (holds_eq_error.mpr hf))
  | whileBody h hholds =>
    refine takeTurns_eq_error_of_comes h ((bind_apply_ok hholds).trans ?_)
    exact plainTurn_eq_error.mpr hf
  | endlessBody h => exact takeTurns_eq_error_of_comes h (plainTurn_eq_error.mpr hf)
  | rangeEnd h =>
    refine bind_apply_error ((bind_apply_ok h).trans ?_)
    exact (bind_apply_ok rfl).trans (bind_apply_error hf)
  | itemBody hitems h hopen =>
    refine (bind_apply_ok hitems).trans (takeFrom_eq_error.mpr ⟨_, _, h, ?_⟩)
    rw [itemTurn_eq]
    exact (bind_apply_ok hopen).trans (plainTurn_eq_error.mpr hf)

/-- With so many levels of nesting left, the runner gets from the task `t` on the machine `m` down
to the task `t'` on the machine `m'`, where fewer levels are left. -/
inductive Reaches (turns : Nat) :
    (depth : Nat) → (t : Task) → (m : Machine) → (depth' : Nat) → (t' : Task) →
    (m' : Machine) → Prop
  | refl {depth : Nat} {t : Task} {m : Machine} : Reaches turns depth t m depth t m
  | part {depth depth' : Nat} {t t₁ t' : Task} {m m₁ m' : Machine}
      (h : (ofDepth turns depth).Part t m t₁ m₁) (h' : Reaches turns depth t₁ m₁ depth' t' m') :
      Reaches turns (depth + 1) t m depth' t' m'

variable {turns depth depth' : Nat}

theorem RaisesAt.placeAt (h : r.RaisesAt t m f) (pos : Pos) : r.RaisesAt t m (f.placeAt pos) := by
  cases h with
  | raised h =>
    refine .raised ?_
    cases f with
    | error e =>
      rw [Failure.placeAt, Located.placeAt]
      split <;> exact h
    | tooDeep => exact h
    | abort a => exact h
  | stray h pos' =>
    rw [Failure.placeAt, Located.placeAt]
    split <;> exact .stray h _
  | outOfTurns => exact .outOfTurns
  | exhausts h => exact .exhausts h

/-- A runner fails where the rule for the task does; an error may get its position there. -/
theorem fails_succ :
    (ofDepth turns (depth + 1)).Fails m f m' t ↔
      ∃ g, (ofDepth turns depth).RuleFails m g m' t ∧ f = g.placeAt t.pos := by
  cases t with
  | eval e frame => exact locating_eq_error
  | exec s frame => exact locating_eq_error

/-- Every failure but nesting beyond the limit is raised by a task that is reached. -/
theorem origin_of_fails (h : (ofDepth turns depth).Fails m f m' t) (hf : f ≠ .tooDeep) :
    ∃ d t' m₁, Reaches turns depth t m (d + 1) t' m₁ ∧ (ofDepth turns d).RaisesAt t' m₁ f := by
  -- Each level of nesting explains the failure by a part, one level further down, or raises it
  -- itself.
  induction depth generalizing t m f with
  | zero =>
    cases t with
    | eval e frame =>
      cases h
      exact absurd rfl hf
    | exec s frame =>
      cases h
      exact absurd rfl hf
  | succ depth ih =>
    obtain ⟨g, hg, rfl⟩ := fails_succ.mp h
    have hexplains : (ofDepth turns depth).Explains t m g m' := by
      cases t with
      | eval e frame => exact explains_evalRule hg
      | exec s frame => exact explains_execRule hg
    rcases hexplains with ⟨t₁, m₁, hpart, hfails⟩ | hown
    · have hg' : g ≠ .tooDeep := by
        rintro rfl
        exact hf rfl
      obtain ⟨d, t', m₂, hreaches, hraises⟩ := ih hfails hg'
      exact ⟨d, t', m₂, .part hpart hreaches, hraises.placeAt _⟩
    · exact ⟨depth, t, m, .refl, hown.placeAt _⟩

/-- A task fails if one does that it reaches; on the way an error may only get its position. -/
theorem fails_of_reaches (h : Reaches turns depth t m depth' t' m₁)
    (hf : (ofDepth turns depth').Fails m₁ f m' t') :
    ∃ g, (ofDepth turns depth).Fails m g m' t ∧ g.unplaced = f.unplaced := by
  induction h with
  | refl => exact ⟨f, hf, rfl⟩
  | part hpart _ ih =>
    obtain ⟨g, hg, hcause⟩ := ih hf
    refine ⟨_, fails_succ.mpr ⟨g, ruleFails_of_part hpart hg, rfl⟩, ?_⟩
    rw [Failure.unplaced_placeAt, hcause]

end Runner

/-! ## Whole runs -/

namespace Machine

variable {r : Runner} {frame : Nat} {m m' : Machine}

/-- A top-level statement runs, and the run goes on behind it. -/
def GoesBeyond (r : Runner) (frame : Nat) (s : Stmt) (m m' : Machine) : Prop :=
  ∃ d, m.runStmt r frame s = (.ok d, m')

theorem goesBeyond_iff {s : Stmt} {result : Except Failure (Option Signal)} {m₁ : Machine}
    (h : r.exec s frame m = (result, m₁)) :
    GoesBeyond r frame s m m' ↔ (∃ d, s.verdict result = .ok d) ∧ m₁ = m' := by
  simp [GoesBeyond, runStmt_eq h]

/-- A run gets to the task `t` on the machine `m'`, where so many levels of nesting are left. -/
def Executes (limits : Limits) (p : Program) (m : Machine) (depth : Nat) (t : Task) (m' : Machine) :
    Prop :=
  let (frame, store) := m.store.newFrame globalFrame
  ∃ s m₁, Comes (GoesBeyond (.ofDepth limits.turns limits.depth) frame) p.statements
      { m with store } s m₁ ∧
    Runner.Reaches limits.turns limits.depth (.exec s frame) m₁ depth t m'

/-- How a top-level statement ended is how the runner dealt with it on a machine that the run came
to. -/
theorem comes_of_mem_endingsFrom {ss : List Stmt} {o : Ending} (h : o ∈ endingsFrom r frame ss m) :
    ∃ m₁, Comes (GoesBeyond r frame) ss m o.statement m₁ ∧
      o.result = (r.exec o.statement frame m₁).1 := by
  induction ss generalizing m with
  | nil => cases h
  | cons s rest ih =>
    rcases hx : r.exec s frame m with ⟨result, m₁⟩
    rcases (mem_endingsFrom_cons hx).mp h with rfl | ⟨hv, h⟩
    · exact ⟨m, .head, (congrArg Prod.fst hx).symm⟩
    · obtain ⟨m₂, hcomes, hresult⟩ := ih h
      exact ⟨m₂, .tail ((goesBeyond_iff hx).mpr ⟨hv, rfl⟩) hcomes, hresult⟩

end Machine

end Dee
