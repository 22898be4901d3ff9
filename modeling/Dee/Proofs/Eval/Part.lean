import Dee.Grammar.Statement
import Dee.Proofs.Eval.Call

/-!
# Parts of an evaluation

To evaluate an expression or to run a statement, a rule asks the runner for the parts. `Runner.Part`
lists for every rule which parts it asks for and on which machine: a part is reached only if all
that stands before it went through. `Comes` describes the walk along a sequence that the lists of
operands, the entries of a tuple, the statements of a block and the turns of a loop have in common.
-/

namespace Dee

open Eval

/-! ## Walks along a sequence -/

/-- Walking along a list from the state `s`, where each item that is passed takes a state to the
next by `goes`, comes to the item `i` in the state `s'`. -/
inductive Comes {ι σ : Type} (goes : ι → σ → σ → Prop) : List ι → σ → ι → σ → Prop
  | head {i : ι} {rest : List ι} {s : σ} : Comes goes (i :: rest) s i s
  | tail {i j : ι} {rest : List ι} {s s₁ s' : σ} (h : goes i s s₁) (h' : Comes goes rest s₁ j s') :
      Comes goes (i :: rest) s j s'

theorem comes_cons {ι σ : Type} {goes : ι → σ → σ → Prop} {i j : ι} {rest : List ι} {s s' : σ} :
    Comes goes (i :: rest) s j s' ↔
      (j = i ∧ s' = s) ∨ ∃ s₁, goes i s s₁ ∧ Comes goes rest s₁ j s' := by
  constructor
  · intro h
    cases h with
    | head => exact Or.inl ⟨rfl, rfl⟩
    | tail h h' => exact Or.inr ⟨_, h, h'⟩
  · rintro (⟨rfl, rfl⟩ | ⟨s₁, h, h'⟩)
    · exact .head
    · exact .tail h h'

theorem comes_one {ι σ : Type} {goes : ι → σ → σ → Prop} {i j : ι} {s s' : σ} :
    Comes goes [i] s j s' ↔ j = i ∧ s' = s := by
  rw [comes_cons]
  constructor
  · rintro (h | ⟨_, _, ⟨⟩⟩)
    exact h
  · exact Or.inl

theorem Comes.mem {ι σ : Type} {goes : ι → σ → σ → Prop} {items : List ι} {s s' : σ} {i : ι}
    (h : Comes goes items s i s') : i ∈ items := by
  induction h with
  | head => exact List.mem_cons_self
  | tail _ _ ih => exact List.mem_cons_of_mem _ ih

/-- What every passed item keeps holds where the walk comes to. -/
theorem Comes.keeps {ι σ : Type} {goes : ι → σ → σ → Prop} {P : σ → Prop} {items : List ι}
    {s s' : σ} {i : ι} (h : Comes goes items s i s')
    (hgoes : ∀ j ∈ items, ∀ t t', goes j t t' → P t → P t') (hs : P s) : P s' := by
  induction h with
  | head => exact hs
  | tail hstep _ ih =>
    refine ih (fun j hj => hgoes j (List.mem_cons_of_mem _ hj)) ?_
    exact hgoes _ List.mem_cons_self _ _ hstep hs

/-- A statement runs to its end. -/
def Ends (exec : Stmt → Eval (Option Signal)) (s : Stmt) (m m' : Machine) : Prop :=
  exec s m = (.ok none, m')

/-- A turn asks for the next one. -/
def GoesOn (turn : Eval Turn) (m m' : Machine) : Prop :=
  turn m = (.ok .again, m')

/-- Statements in sequence fail where one of them fails that they come to. -/
theorem runAll_eq_error {exec : Stmt → Eval (Option Signal)} {ss : List Stmt} {m m' : Machine}
    {f : Failure} :
    runAll exec ss m = (.error f, m') ↔
      ∃ s m₁, Comes (Ends exec) ss m s m₁ ∧ exec s m₁ = (.error f, m') := by
  induction ss generalizing m with
  | nil =>
    constructor
    · rintro ⟨⟩
    · rintro ⟨s, m₁, ⟨⟩, -⟩
  | cons s rest ih =>
    rw [runAll, bind_eq_error]
    constructor
    · rintro (h | ⟨signal, m₁, hs, h⟩)
      · exact ⟨s, m, .head, h⟩
      · cases signal with
        | some signal => cases h
        | none =>
          obtain ⟨s', m₂, hcomes, hfails⟩ := ih.mp h
          exact ⟨s', m₂, .tail hs hcomes, hfails⟩
    · rintro ⟨s', m₂, hcomes, hfails⟩
      cases hcomes with
      | head => exact Or.inl hfails
      | tail hs hcomes => exact Or.inr ⟨none, _, hs, ih.mpr ⟨s', m₂, hcomes, hfails⟩⟩

/-- A loop fails where one of its turns fails that it comes to. -/
theorem takeTurns_eq_error_of_comes {turn : Eval Turn} {turns : Nat}
    {m m₁ m' : Machine} {f : Failure}
    (h : Comes (fun _ => GoesOn turn) (List.replicate turns ()) m () m₁)
    (hfails : turn m₁ = (.error f, m')) : takeTurns turn turns m = (.error f, m') := by
  induction turns generalizing m with
  | zero => cases h
  | succ turns ih =>
    rw [takeTurns, bind_eq_error]
    rw [List.replicate_succ] at h
    cases h with
    | head => exact Or.inl hfails
    | tail hstep h => exact Or.inr ⟨.again, _, hstep, ih h⟩

/-- A loop fails in one of its turns, or for want of turns. -/
theorem comes_of_takeTurns {turn : Eval Turn} {turns : Nat} {m m' : Machine} {f : Failure}
    (h : takeTurns turn turns m = (.error f, m')) :
    (∃ m₁, Comes (fun _ => GoesOn turn) (List.replicate turns ()) m () m₁ ∧
      turn m₁ = (.error f, m')) ∨ f = .abort .outOfTurns := by
  induction turns generalizing m with
  | zero =>
    cases h
    exact Or.inr rfl
  | succ turns ih =>
    rw [takeTurns, bind_eq_error] at h
    rcases h with h | ⟨t, m₁, ht, h⟩
    · exact Or.inl ⟨m, .head, h⟩
    · cases t with
      | stop signal => cases h
      | again =>
        rcases ih h with ⟨m₂, hcomes, hfails⟩ | hout
        · exact Or.inl ⟨m₂, .tail ht hcomes, hfails⟩
        · exact Or.inr hout

/-- A loop over items fails where the turn of an item fails that it comes to. -/
theorem takeFrom_eq_error {items : Items} {turn : Value → Eval Turn} {remaining next : Nat}
    {m m' : Machine} {f : Failure} :
    items.takeFrom turn remaining next m = (.error f, m') ↔
      ∃ k m₁, Comes (fun k => GoesOn (turn (items.item k))) (List.range' next remaining) m k m₁ ∧
        turn (items.item k) m₁ = (.error f, m') := by
  induction remaining generalizing next m with
  | zero =>
    constructor
    · rintro ⟨⟩
    · rintro ⟨k, m₁, ⟨⟩, -⟩
  | succ remaining ih =>
    rw [Items.takeFrom, bind_eq_error, List.range'_succ]
    constructor
    · rintro (h | ⟨t, m₁, ht, h⟩)
      · exact ⟨next, m, .head, h⟩
      · cases t with
        | stop signal => cases h
        | again =>
          obtain ⟨k, m₂, hcomes, hfails⟩ := ih.mp h
          exact ⟨k, m₂, .tail ht hcomes, hfails⟩
    · rintro ⟨k, m₂, hcomes, hfails⟩
      cases hcomes with
      | head => exact Or.inl hfails
      | tail ht hcomes => exact Or.inr ⟨.again, _, ht, ih.mpr ⟨k, m₂, hcomes, hfails⟩⟩

namespace Runner

variable {r : Runner} {frame : Nat} {m m' : Machine} {f : Failure}

/-- An expression has a value. -/
def Passes (r : Runner) (frame : Nat) (e : Expr) (m m' : Machine) : Prop :=
  ∃ v, r.eval e frame m = (.ok v, m')

/-- Expressions from left to right fail where one of them fails that they come to. -/
theorem evalAll_eq_error {es : List Expr} :
    r.evalAll es frame m = (.error f, m') ↔
      ∃ e m₁, Comes (r.Passes frame) es m e m₁ ∧ r.eval e frame m₁ = (.error f, m') := by
  unfold evalAll
  induction es generalizing m with
  | nil =>
    rw [List.mapM_nil]
    constructor
    · rintro ⟨⟩
    · rintro ⟨e, m₁, ⟨⟩, -⟩
  | cons e rest ih =>
    rw [List.mapM_cons, bind_eq_error]
    constructor
    · rintro (h | ⟨v, m₁, hv, h⟩)
      · exact ⟨e, m, .head, h⟩
      · rcases bind_eq_error.mp h with h | ⟨vs, m₂, -, h⟩
        · obtain ⟨e', m₂, hcomes, hfails⟩ := ih.mp h
          exact ⟨e', m₂, .tail ⟨v, hv⟩ hcomes, hfails⟩
        · cases h
    · rintro ⟨e', m₂, hcomes, hfails⟩
      cases hcomes with
      | head => exact Or.inl hfails
      | tail hv hcomes =>
        obtain ⟨v, hv⟩ := hv
        exact Or.inr ⟨v, _, hv, bind_apply_error (ih.mpr ⟨e', m₂, hcomes, hfails⟩)⟩

/-- An entry of a tuple has a value and is added to the entries before it. -/
def Adds (r : Runner) (frame : Nat) (entry : TupleEntry) (s s' : Slots × Machine) : Prop :=
  ∃ v, r.eval entry.value frame s.2 = (.ok v, s'.2) ∧ s.1.append entry.name v = .ok s'.1

/-- The entries of a tuple fail where the value of one fails that they come to, or where an entry
cannot be added. -/
theorem comes_of_evalEntries {entries : List TupleEntry} {slots : Slots}
    (h : r.evalEntries frame entries slots m = (.error f, m')) :
    (∃ entry s, Comes (r.Adds frame) entries (slots, m) entry s ∧
      r.eval entry.value frame s.2 = (.error f, m')) ∨
    ∃ (slots' : Slots) (name : Option String) (v : Value) (e : EvalError),
      slots'.append name v = .error e ∧ f = .ofError e := by
  induction entries generalizing slots m with
  | nil => cases h
  | cons entry rest ih =>
    obtain ⟨name, e⟩ := entry
    rw [evalEntries, bind_eq_error] at h
    rcases h with h | ⟨v, m₁, hv, h⟩
    · exact Or.inl ⟨⟨name, e⟩, (slots, m), .head, h⟩
    · cases ha : slots.append name v with
      | error cause =>
        rw [ha] at h
        cases h
        exact Or.inr ⟨slots, name, v, cause, ha, rfl⟩
      | ok slots' =>
        rw [ha] at h
        rcases ih h with ⟨entry, s, hcomes, hfails⟩ | hown
        · have hadds : r.Adds frame ⟨name, e⟩ (slots, m) (slots', m₁) := ⟨v, hv, ha⟩
          exact Or.inl ⟨entry, s, .tail hadds hcomes, hfails⟩
        · exact Or.inr hown

theorem evalEntries_eq_error_of_comes {entries : List TupleEntry} {slots : Slots}
    {entry : TupleEntry} {s : Slots × Machine} (h : Comes (r.Adds frame) entries (slots, m) entry s)
    (hfails : r.eval entry.value frame s.2 = (.error f, m')) :
    r.evalEntries frame entries slots m = (.error f, m') := by
  induction entries generalizing slots m with
  | nil => cases h
  | cons first rest ih =>
    obtain ⟨name, e⟩ := first
    rw [evalEntries]
    cases h with
    | head => exact bind_apply_error hfails
    | @tail _ _ _ _ s₁ _ hadds hcomes =>
      obtain ⟨v, hv, ha⟩ := hadds
      refine (bind_apply_ok hv).trans ?_
      rw [ha]
      exact ih hcomes

/-- A declared variable has its initial value, or has none to be given. -/
def Stores (r : Runner) (frame : Nat) (v : VarDef) (m m' : Machine) : Prop :=
  match v.initializer with
  | none => m' = m
  | some e => ∃ value m₁, r.eval e frame m = (.ok value, m₁) ∧
    Eval.assign r.depth frame v.name value m₁ = (.ok (), m')

/-- Initial values fail where one of them fails that they come to, or where a name cannot be
assigned. -/
theorem comes_of_storeInitial {vars : List VarDef}
    (h : r.storeInitial frame vars m = (.error f, m')) :
    (∃ name e m₁, Comes (r.Stores frame) vars m ⟨name, some e⟩ m₁ ∧
      r.eval e frame m₁ = (.error f, m')) ∨
    ∃ name value m₁, Eval.assign r.depth frame name value m₁ = (.error f, m') := by
  induction vars generalizing m with
  | nil => cases h
  | cons v rest ih =>
    obtain ⟨name, initializer⟩ := v
    cases initializer with
    | none =>
      rcases ih h with ⟨name', e, m₁, hcomes, hfails⟩ | hown
      · have hstores : r.Stores frame ⟨name, none⟩ m m := rfl
        exact Or.inl ⟨name', e, m₁, .tail hstores hcomes, hfails⟩
      · exact Or.inr hown
    | some e =>
      rw [storeInitial, bind_eq_error] at h
      rcases h with h | ⟨value, m₁, hvalue, h⟩
      · exact Or.inl ⟨name, e, m, .head, h⟩
      · rcases bind_eq_error.mp h with h | ⟨_, m₂, hassign, h⟩
        · exact Or.inr ⟨name, value, m₁, h⟩
        · rcases ih h with ⟨name', e', m₃, hcomes, hfails⟩ | hown
          · have hstores : r.Stores frame ⟨name, some e⟩ m m₂ := ⟨value, m₁, hvalue, hassign⟩
            exact Or.inl ⟨name', e', m₃, .tail hstores hcomes, hfails⟩
          · exact Or.inr hown

theorem storeInitial_eq_error_of_comes {vars : List VarDef} {m₁ : Machine}
    {name : String} {e : Expr}
    (h : Comes (r.Stores frame) vars m ⟨name, some e⟩ m₁)
    (hfails : r.eval e frame m₁ = (.error f, m')) :
    r.storeInitial frame vars m = (.error f, m') := by
  induction vars generalizing m with
  | nil => cases h
  | cons v rest ih =>
    cases h with
    | head => exact bind_apply_error hfails
    | tail hstores hcomes =>
      obtain ⟨name', initializer⟩ := v
      cases initializer with
      | none =>
        cases hstores
        exact ih hcomes
      | some e' =>
        obtain ⟨value, m₂, hvalue, hassign⟩ := hstores
        refine (bind_apply_ok hvalue).trans ?_
        exact (bind_apply_ok hassign).trans (ih hcomes)

end Runner

/-! ## Operands -/

/-- The expressions whose values an expression needs first, from left to right. The entries of a
tuple and the body of a function are none of them. -/
def Expr.operands : Expr → List Expr
  | .binary _ _ left right => [left, right]
  | .unary _ _ operand => [operand]
  | .call _ func args => func :: args
  | .index _ value i => [value, i]
  | .array _ elements => elements
  | .typeCheck _ value _ => [value]
  | .member _ value _ => [value]
  | .literal _ _ _ | .reference _ _ | .tuple _ _ | .function _ _ _ _ => []

/-- The expressions whose values a statement needs first, from left to right. A loop with a
condition and the initial values of declared variables are treated apart. -/
def Stmt.operands : Stmt → List Expr
  | .assign _ target value => value :: if Grammar.isTarget target then target.operands else []
  | .conditional _ condition _ _ => [condition]
  | .forLoop _ _ _ (some iterable) _ => [iterable]
  | .returnStmt _ (some e) => [e]
  | .print _ values => values
  | .expr _ value => [value]
  | _ => []

/-! ## Parts -/

/-- What a runner can be asked for: the value of an expression or the run of a statement, in a
frame. -/
inductive Task where
  | eval (e : Expr) (frame : Nat)
  | exec (s : Stmt) (frame : Nat)

namespace Runner

/-- A turn of a loop with a condition. -/
def whileTurn (r : Runner) (condition : Expr) (body : Block) (frame : Nat) : Eval Turn := do
  if ← r.holds condition frame then return .ofSignal (← r.exec (.block body) frame)
  else return .stop none

/-- A turn of a loop without a condition. -/
def plainTurn (r : Runner) (body : Block) (frame : Nat) : Eval Turn :=
  return .ofSignal (← r.exec (.block body) frame)

/-- The frame that the body of a loop runs in for an item. -/
def turnFrame (frame : Nat) (loopVar : Option String) (item : Value) : Eval Nat :=
  match loopVar with
  | some name => do
    let inner ← Eval.make (·.newFrame frame)
    Eval.define inner name item
    return inner
  | none => return frame

theorem itemTurn_eq (r : Runner) (frame : Nat) (loopVar : Option String) (body : Block)
    (item : Value) :
    r.itemTurn frame loopVar body item = (do
      let inner ← turnFrame frame loopVar item
      r.plainTurn body inner) := by
  cases loopVar <;> simp [itemTurn, turnFrame, plainTurn]

/-- The frame that the body of a function runs in, with the parameters bound. -/
def openFrame (c : Closure) (args : List Value) : Eval Nat := do
  let frame ← Eval.make (·.newFrame c.frame)
  bindParams frame c.params args
  return frame

theorem enter_eq (r : Runner) (c : Closure) (args : List Value) :
    r.enter c args = (do
      let frame ← openFrame c args
      r.runBody c frame) := by
  simp [enter, openFrame]

/-- The parts of a call have values, a function and as many arguments as it takes, and the frame for
the body of the function is open. -/
def Calls (r : Runner) (func : Expr) (args : List Expr) (frame : Nat) (m : Machine) (c : Closure)
    (inner : Nat) (m' : Machine) : Prop :=
  ∃ ref vs m₁ m₂, r.eval func frame m = (.ok (.func ref), m₁) ∧
    r.evalAll args frame m₁ = (.ok vs, m₂) ∧ m₂.store.closure ref = c ∧
    vs.length = c.params.length ∧ openFrame c vs m₂ = (.ok inner, m')

/-- To deal with the task `t` on the machine `m`, a rule asks the runner for the task `t'` on the
machine `m'`. -/
inductive Part (r : Runner) : (t : Task) → (m : Machine) → (t' : Task) → (m' : Machine) → Prop
  | operand {e e' : Expr} {frame : Nat} {m m' : Machine}
      (h : Comes (r.Passes frame) e.operands m e' m') :
      Part r (.eval e frame) m (.eval e' frame) m'
  | entry {pos : Pos} {entries : List TupleEntry} {entry : TupleEntry} {frame : Nat} {m : Machine}
      {s : Slots × Machine} (h : Comes (r.Adds frame) entries (.empty, m) entry s) :
      Part r (.eval (.tuple pos entries) frame) m (.eval entry.value frame) s.2
  | bodyExpression {pos : Pos} {func e : Expr} {args : List Expr} {frame inner : Nat} {c : Closure}
      {m m' : Machine} (h : r.Calls func args frame m c inner m') (he : c.expression = some e) :
      Part r (.eval (.call pos func args) frame) m (.eval e inner) m'
  | bodyStatement {pos : Pos} {func : Expr} {args : List Expr} {frame inner : Nat} {c : Closure}
      {s : Stmt} {m m₁ m' : Machine} (h : r.Calls func args frame m c inner m₁)
      (hnone : c.expression = none) (hs : Comes (Ends (r.exec · inner)) c.statements m₁ s m') :
      Part r (.eval (.call pos func args) frame) m (.exec s inner) m'
  | value {s : Stmt} {e : Expr} {frame : Nat} {m m' : Machine}
      (h : Comes (r.Passes frame) s.operands m e m') :
      Part r (.exec s frame) m (.eval e frame) m'
  | initial {pos : Pos} {vars : List VarDef} {name : String} {e : Expr} {frame : Nat}
      {m m₁ m' : Machine} (hdeclare : declareAll frame vars m = (.ok (), m₁))
      (h : Comes (r.Stores frame) vars m₁ ⟨name, some e⟩ m') :
      Part r (.exec (.declaration pos vars) frame) m (.eval e frame) m'
  | statement {body : Block} {s : Stmt} {frame inner : Nat} {m m₁ m' : Machine}
      (hopen : Eval.make (·.newFrame frame) m = (.ok inner, m₁))
      (h : Comes (Ends (r.exec · inner)) body.statements m₁ s m') :
      Part r (.exec (.block body) frame) m (.exec s inner) m'
  | thenBlock {pos : Pos} {condition : Expr} {thenBlock : Block} {elseBlock : Option Block}
      {frame : Nat} {m m' : Machine} (h : r.holds condition frame m = (.ok true, m')) :
      Part r (.exec (.conditional pos condition thenBlock elseBlock) frame) m
        (.exec (.block thenBlock) frame) m'
  | elseBlock {pos : Pos} {condition : Expr} {thenBlock elseBlock : Block}
      {frame : Nat} {m m' : Machine} (h : r.holds condition frame m = (.ok false, m')) :
      Part r (.exec (.conditional pos condition thenBlock (some elseBlock)) frame) m
        (.exec (.block elseBlock) frame) m'
  | whileCondition {pos : Pos} {condition : Expr} {body : Block} {frame : Nat} {m m' : Machine}
      (h : Comes (fun _ => GoesOn (r.whileTurn condition body frame)) (List.replicate r.turns ())
        m () m') :
      Part r (.exec (.whileLoop pos condition body) frame) m (.eval condition frame) m'
  | whileBody {pos : Pos} {condition : Expr} {body : Block} {frame : Nat} {m m₁ m' : Machine}
      (h : Comes (fun _ => GoesOn (r.whileTurn condition body frame)) (List.replicate r.turns ())
        m () m₁) (hholds : r.holds condition frame m₁ = (.ok true, m')) :
      Part r (.exec (.whileLoop pos condition body) frame) m (.exec (.block body) frame) m'
  | endlessBody {pos : Pos} {loopVar : Option String} {body : Block} {rangeEnd : Option Expr}
      {frame : Nat} {m m' : Machine}
      (h : Comes (fun _ => GoesOn (r.plainTurn body frame)) (List.replicate r.turns ()) m () m') :
      Part r (.exec (.forLoop pos loopVar body none rangeEnd) frame) m
        (.exec (.block body) frame) m'
  | rangeEnd {pos : Pos} {loopVar : Option String} {body : Block}
      {iterable last : Expr} {first : Int}
      {frame : Nat} {m m' : Machine} (h : r.eval iterable frame m = (.ok (.int first), m')) :
      Part r (.exec (.forLoop pos loopVar body (some iterable) (some last)) frame) m
        (.eval last frame) m'
  | itemBody {pos : Pos} {loopVar : Option String} {body : Block} {iterable : Expr}
      {rangeEnd : Option Expr} {items : Items} {k frame inner : Nat} {m m₁ m₂ m' : Machine}
      (hitems : r.itemsOf frame iterable rangeEnd m = (.ok items, m₁))
      (h : Comes (fun k => GoesOn (r.itemTurn frame loopVar body (items.item k)))
        (List.range' 0 items.count) m₁ k m₂)
      (hopen : turnFrame frame loopVar (items.item k) m₂ = (.ok inner, m')) :
      Part r (.exec (.forLoop pos loopVar body (some iterable) rangeEnd) frame) m
        (.exec (.block body) inner) m'

end Runner

end Dee
