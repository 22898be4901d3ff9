import Dee.Proofs.Eval.Change

/-!
# The way through a step

While the rule for a task runs, it gets to its parts, and from the end of each part on to its own
end. Both ways are chains of changes. `Eval.Covers` says so of a step and a part of it; the lemmas
follow the way steps are put together, rule by rule.

Main statement: `Runner.Evolving.part`.
-/

namespace Dee

open Eval

/-! ## Parts of a step -/

namespace Eval

variable {α β : Type} {test : NodeTest} {x : Eval α} {g : α → Eval β} {m m₁ m₂ m' : Machine}

/-- On `m` the step gets to `m₁`, and from `m₂` it gets to its end. -/
structure Covers (test : NodeTest) (x : Eval α) (m m₁ m₂ : Machine) : Prop where
  before : Machine.Evolves test m m₁
  behind : Machine.Evolves test m₂ (x m).2

theorem Covers.self (x : Eval α) (m : Machine) : Covers test x m m (x m).2 := ⟨.refl _, .refl _⟩

/-- Steps behind the one that covers a part. -/
theorem Covers.bind (h : Covers test x m m₁ m₂) (hg : ∀ a, Evolving test (g a)) :
    Covers test (x >>= g) m m₁ m₂ := by
  refine ⟨h.before, h.behind.trans ?_⟩
  rcases hx : x m with ⟨result, m₃⟩
  cases result with
  | ok a =>
    rw [bind_apply_ok hx]
    exact hg a m₃
  | error f =>
    rw [bind_apply_error hx]
    exact .refl _

/-- A step before the one that covers a part. -/
theorem Covers.after (hx : Evolving test x) {a : α} (hok : x m = (.ok a, m'))
    (h : Covers test (g a) m' m₁ m₂) : Covers test (x >>= g) m m₁ m₂ := by
  refine ⟨(hx.ok hok).trans h.before, ?_⟩
  rw [bind_apply_ok hok]
  exact h.behind

theorem Covers.locating (h : Covers test x m m₁ m₂) (pos : Pos) :
    Covers test (Eval.locating pos x) m m₁ m₂ := by
  refine ⟨h.before, ?_⟩
  rw [locating_snd]
  exact h.behind

theorem Covers.ok (h : Covers test x m m₁ m₂) {a : α} (hx : x m = (.ok a, m')) :
    Machine.Evolves test m₂ m' := by
  have hbehind := h.behind
  rw [hx] at hbehind
  exact hbehind

/-- A part of a part. -/
theorem Covers.inside {y : Eval β} {m₃ m₄ : Machine} (h : Covers test x m m₁ (y m₁).2)
    (h' : Covers test y m₁ m₃ m₄) : Covers test x m m₃ m₄ :=
  ⟨h.before.trans h'.before, h'.behind.trans h.behind⟩

end Eval

/-! ## Sequences -/

variable {test : NodeTest} {m m₁ : Machine}

theorem covers_runAll {exec : Stmt → Eval (Option Signal)} {ss : List Stmt} {s : Stmt}
    (hexec : ∀ s ∈ ss, Evolving test (exec s)) (h : Comes (Ends exec) ss m s m₁) :
    Covers test (runAll exec ss) m m₁ (exec s m₁).2 := by
  induction h with
  | @head s rest m =>
    refine (Covers.self (exec s) m).bind fun signal => ?_
    cases signal with
    | some signal => exact evolving_pure _
    | none => exact evolving_runAll fun s' hs' => hexec s' (List.mem_cons_of_mem s hs')
  | tail hends _ ih =>
    refine Covers.after (hexec _ List.mem_cons_self) hends ?_
    exact ih fun s' hs' => hexec s' (List.mem_cons_of_mem _ hs')

theorem covers_takeTurns {turn : Eval Turn} {turns : Nat} (hturn : Evolving test turn)
    (h : Comes (fun _ => GoesOn turn) (List.replicate turns ()) m () m₁) :
    Covers test (takeTurns turn turns) m m₁ (turn m₁).2 := by
  induction turns generalizing m with
  | zero => cases h
  | succ turns ih =>
    rw [List.replicate_succ] at h
    cases h with
    | head =>
      refine (Covers.self turn _).bind fun t => ?_
      cases t with
      | again => exact evolving_takeTurns hturn turns
      | stop signal => exact evolving_pure _
    | tail hgoes h => exact Covers.after hturn hgoes (ih h)

theorem covers_takeFrom {items : Items} {turn : Value → Eval Turn} {remaining next k : Nat}
    (hturn : ∀ v, Evolving test (turn v))
    (h : Comes (fun k => GoesOn (turn (items.item k))) (List.range' next remaining) m k m₁) :
    Covers test (items.takeFrom turn remaining next) m m₁ (turn (items.item k) m₁).2 := by
  induction remaining generalizing next m with
  | zero => cases h
  | succ remaining ih =>
    rw [List.range'_succ] at h
    cases h with
    | head =>
      refine (Covers.self (turn _) _).bind fun t => ?_
      cases t with
      | again => exact evolving_takeFrom hturn remaining _
      | stop signal => exact evolving_pure _
    | tail hgoes h => exact Covers.after (hturn _) hgoes (ih h)

/-! ## Rules -/

/-- The machine that a task leaves. -/
def Task.leaves (r : Runner) : Task → Machine → Machine
  | .eval e frame, m => (r.eval e frame m).2
  | .exec s frame, m => (r.exec s frame m).2

/-- On `m` the rule for the task gets to `m₁`, and from `m₂` it gets to its end. -/
def Task.Covers (test : NodeTest) (r : Runner) (m m₁ m₂ : Machine) : Task → Prop
  | .eval e frame => Eval.Covers test (r.evalRule frame e) m m₁ m₂
  | .exec s frame => Eval.Covers test (r.execRule frame s) m m₁ m₂

namespace Runner.Evolving

variable {r : Runner} {frame : Nat}

theorem covers_evalAll (hr : r.Evolving test) {es : List Expr} {e : Expr}
    (hes : ∀ e ∈ es, e.Passes test) (h : Comes (r.Passes frame) es m e m₁) :
    Covers test (r.evalAll es frame) m m₁ (r.eval e frame m₁).2 := by
  unfold Runner.evalAll
  induction h with
  | @head e rest m =>
    rw [List.mapM_cons]
    refine (Covers.self (r.eval e frame) m).bind fun v => ?_
    exact (hr.evalAll (fun e' he' => hes e' (List.mem_cons_of_mem e he')) frame).bind fun vs =>
      evolving_pure _
  | @tail e _ rest _ _ _ hpasses _ ih =>
    obtain ⟨v, hv⟩ := hpasses
    rw [List.mapM_cons]
    refine Covers.after (hr.eval (hes e List.mem_cons_self) frame) hv ?_
    exact (ih fun e' he' => hes e' (List.mem_cons_of_mem e he')).bind fun vs => evolving_pure _

theorem covers_evalEntries (hr : r.Evolving test) {entries : List TupleEntry} {slots : Slots}
    {entry : TupleEntry} {s : Slots × Machine}
    (hentries : ∀ entry ∈ entries, entry.value.Passes test)
    (h : Comes (r.Adds frame) entries (slots, m) entry s) :
    Covers test (r.evalEntries frame entries slots) m s.2 (r.eval entry.value frame s.2).2 := by
  induction entries generalizing slots m with
  | nil => cases h
  | cons first rest ih =>
    have hrest : ∀ entry ∈ rest, entry.value.Passes test :=
      fun entry hentry => hentries entry (List.mem_cons_of_mem first hentry)
    have hfirst := hr.eval (hentries first List.mem_cons_self) frame
    obtain ⟨name, e⟩ := first
    cases h with
    | head =>
      refine (Covers.self (r.eval e frame) m).bind fun v =>
        (evolving_ofExcept _).bind fun slots' => ?_
      exact hr.evalEntries hrest frame slots'
    | @tail _ _ _ _ s₁ _ hadds h =>
      obtain ⟨v, hv, hslots⟩ := hadds
      refine Covers.after hfirst hv ?_
      rw [show slots.append name v = .ok s₁.1 from hslots]
      exact ih hrest h

theorem covers_storeInitial (hr : r.Evolving test) {pos : Pos} {all vars : List VarDef}
    {name : String}
    {e : Expr} (hall : (Stmt.declaration pos all).Passes test) (hvars : ∀ var ∈ vars, var ∈ all)
    (h : Comes (r.Stores frame) vars m ⟨name, some e⟩ m₁) :
    Covers test (r.storeInitial frame vars) m m₁ (r.eval e frame m₁).2 := by
  have hassign : ∀ var ∈ vars, ∀ v, Eval.Evolving test (Eval.assign r.depth frame var.name v) :=
    fun var hvar v => evolving_initial (Stmt.everywhere_self hall) (hvars var hvar) r.depth frame v
  induction vars generalizing m with
  | nil => cases h
  | cons var rest ih =>
    have hrest : ∀ var ∈ rest, var ∈ all :=
      fun var' hvar' => hvars var' (List.mem_cons_of_mem var hvar')
    cases h with
    | head =>
      refine (Covers.self (r.eval e frame) _).bind fun v => ?_
      exact (hassign _ List.mem_cons_self v).bind fun _ => hr.storeInitial hall frame hrest
    | tail hstores h =>
      have hcovers := ih hrest h fun var' hvar' => hassign var' (List.mem_cons_of_mem var hvar')
      have hinitializer := hall.declaration var (hvars var List.mem_cons_self)
      have hstore := hassign var List.mem_cons_self
      obtain ⟨name', initializer⟩ := var
      cases initializer with
      | none =>
        cases hstores
        exact hcovers
      | some e' =>
        obtain ⟨v, m₂, hv, hassigned⟩ := hstores
        refine Covers.after (hr.eval (hinitializer e' rfl) frame) hv ?_
        exact Covers.after (hstore v) hassigned hcovers

theorem covers_evalRule (hr : r.Evolving test) {e e' : Expr} (he : e.Passes test)
    (h : Comes (r.Passes frame) e.operands m e' m₁) :
    Covers test (r.evalRule frame e) m m₁ (r.eval e' frame m₁).2 := by
  have hoperand : ∀ e' ∈ e.operands, Eval.Evolving test (r.eval e' frame) := fun e' he' =>
    hr.eval (he.operand he') frame
  cases e with
  | binary pos op left right =>
    rcases comes_cons.mp h with ⟨rfl, rfl⟩ | ⟨m₂, ⟨a, ha⟩, h⟩
    · refine (Covers.self _ _).bind fun a => ?_
      exact (hoperand right (by simp [Expr.operands])).bind fun b => evolving_binary _ _ _ _
    · obtain ⟨rfl, rfl⟩ := comes_one.mp h
      refine Covers.after (hoperand left (by simp [Expr.operands])) ha ?_
      exact (Covers.self _ _).bind fun b => evolving_binary _ _ _ _
  | unary pos op operand =>
    obtain ⟨rfl, rfl⟩ := comes_one.mp h
    exact (Covers.self _ _).bind fun a => evolving_unary _ _
  | call pos func args =>
    have hargs : ∀ e' ∈ args, e'.Passes test :=
      fun e' he' => he.operand (by simp [Expr.operands, he'])
    rcases comes_cons.mp h with ⟨rfl, rfl⟩ | ⟨m₂, ⟨v, hv⟩, h⟩
    · refine (Covers.self _ _).bind fun f => ?_
      exact (hr.evalAll hargs frame).bind fun vs => hr.invoke f vs
    · refine Covers.after (hoperand func (by simp [Expr.operands])) hv ?_
      exact (hr.covers_evalAll hargs h).bind fun vs => hr.invoke v vs
  | index pos value i =>
    rcases comes_cons.mp h with ⟨rfl, rfl⟩ | ⟨m₂, ⟨c, hc⟩, h⟩
    · refine (Covers.self _ _).bind fun c => (hoperand i (by simp [Expr.operands])).bind fun v => ?_
      exact (evolving_requireInt _ _).bind fun n => evolving_elementAt _ _
    · obtain ⟨rfl, rfl⟩ := comes_one.mp h
      refine Covers.after (hoperand value (by simp [Expr.operands])) hc ?_
      refine (Covers.self _ _).bind fun v => ?_
      exact (evolving_requireInt _ _).bind fun n => evolving_elementAt _ _
  | array pos elements =>
    exact (hr.covers_evalAll (fun e' he' => he.operand he') h).bind fun vs => evolving_newArray _
  | typeCheck pos value indicator =>
    obtain ⟨rfl, rfl⟩ := comes_one.mp h
    refine (Covers.self _ _).bind fun v => ?_
    split
    · exact evolving_pure _
    · exact evolving_fail _
  | member pos value member =>
    obtain ⟨rfl, rfl⟩ := comes_one.mp h
    exact (Covers.self _ _).bind fun c => evolving_memberOf _ _
  | literal | reference | tuple | function => cases h

theorem covers_assignTo (hr : r.Evolving test) {target e : Expr} {v : Value}
    (htarget : target.Passes test)
    (h : Comes (r.Passes frame) (if Grammar.isTarget target then target.operands else []) m e m₁) :
    Covers test (r.assignTo frame v target) m m₁ (r.eval e frame m₁).2 := by
  have hoperand : ∀ e ∈ target.operands, Eval.Evolving test (r.eval e frame) := fun e he =>
    hr.eval (htarget.operand he) frame
  cases target with
  | index pos value i =>
    rcases comes_cons.mp h with ⟨rfl, rfl⟩ | ⟨m₂, ⟨c, hc⟩, h⟩
    · refine (Covers.self _ _).bind fun c => (hoperand i (by simp [Expr.operands])).bind fun n => ?_
      exact (evolving_requireInt _ _).bind fun n => evolving_setElementAt _ _ _
    · obtain ⟨rfl, rfl⟩ := comes_one.mp h
      refine Covers.after (hoperand value (by simp [Expr.operands])) hc ?_
      refine (Covers.self _ _).bind fun n => ?_
      exact (evolving_requireInt _ _).bind fun n => evolving_setElementAt _ _ _
  | member pos value member =>
    obtain ⟨rfl, rfl⟩ := comes_one.mp h
    exact (Covers.self _ _).bind fun c => evolving_setMemberOf _ _ _
  | literal | reference | binary | unary | call | array | tuple | function | typeCheck => cases h

theorem covers_holds {condition : Expr} :
    Covers test (r.holds condition frame) m m (r.eval condition frame m).2 :=
  (Covers.self _ _).bind fun _ => evolving_store.bind fun _ => evolving_pure _

/-- What a loop runs over is known after the value it is given has been evaluated. -/
theorem covers_itemsOf (hr : r.Evolving test) {iterable : Expr} {rangeEnd : Option Expr}
    (hend : ∀ e, rangeEnd = some e → e.Passes test) :
    Covers test (r.itemsOf frame iterable rangeEnd) m m (r.eval iterable frame m).2 := by
  cases rangeEnd with
  | some last =>
    refine (Covers.self _ _).bind fun a => (evolving_requireInt _ _).bind fun n => ?_
    refine (hr.eval (hend last rfl) frame).bind fun b => ?_
    exact (evolving_requireInt _ _).bind fun k => evolving_pure _
  | none =>
    refine (Covers.self _ _).bind fun c => evolving_store.bind fun st => ?_
    split
    · exact evolving_pure _
    · exact evolving_pure _
    · exact evolving_fail _

theorem covers_rangeEnd (hr : r.Evolving test) {iterable last : Expr} {first : Int}
    (hiterable : iterable.Passes test) (h : r.eval iterable frame m = (.ok (.int first), m₁)) :
    Covers test (r.itemsOf frame iterable (some last)) m m₁ (r.eval last frame m₁).2 := by
  refine Covers.after (hr.eval hiterable _) h ?_
  refine Covers.after (evolving_requireInt _ _) rfl ((Covers.self _ _).bind fun b => ?_)
  exact (evolving_requireInt _ _).bind fun k => evolving_pure _

theorem covers_plainTurn {body : Block} :
    Covers test (r.plainTurn body frame) m m (r.exec (.block body) frame m).2 :=
  (Covers.self _ _).bind fun _ => evolving_pure _

theorem covers_whileCondition (hr : r.Evolving test) {condition : Expr} {body : Block}
    (hbody : (Stmt.block body).Passes test) :
    Covers test (r.whileTurn condition body frame) m m (r.eval condition frame m).2 := by
  refine covers_holds.bind fun b => ?_
  cases b with
  | true => exact hr.plainTurn hbody _
  | false => exact evolving_pure _

theorem covers_whileBody (hr : r.Evolving test) {condition : Expr} {body : Block}
    (hcondition : condition.Passes test) (h : r.holds condition frame m = (.ok true, m₁)) :
    Covers test (r.whileTurn condition body frame) m m₁ (r.exec (.block body) frame m₁).2 :=
  Covers.after (hr.holds hcondition _) h covers_plainTurn

theorem covers_itemTurn {loopVar : Option String} {body : Block} {item : Value} {inner : Nat}
    (hopen : turnFrame frame loopVar item m = (.ok inner, m₁)) :
    Covers test (r.itemTurn frame loopVar body item) m m₁ (r.exec (.block body) inner m₁).2 := by
  rw [itemTurn_eq]
  exact Covers.after (evolving_turnFrame _ _ _) hopen covers_plainTurn

theorem covers_execRule (hr : r.Evolving test) {s : Stmt} {e : Expr} (hs : s.Passes test)
    (h : Comes (r.Passes frame) s.operands m e m₁) :
    Covers test (r.execRule frame s) m m₁ (r.eval e frame m₁).2 := by
  cases s with
  | assign pos target value =>
    rcases comes_cons.mp h with ⟨rfl, rfl⟩ | ⟨m₂, ⟨v, hv⟩, h⟩
    · refine (Covers.self _ _).bind fun v => ?_
      exact (hr.assignTo hs frame v).bind fun _ => evolving_pure _
    · refine Covers.after (hr.eval hs.assign.2 frame) hv ?_
      exact (hr.covers_assignTo hs.assign.1 h).bind fun _ => evolving_pure _
  | conditional pos condition thenBlock elseBlock =>
    obtain ⟨rfl, rfl⟩ := comes_one.mp h
    obtain ⟨-, hthen, helse⟩ := hs.conditional
    refine covers_holds.bind fun b => ?_
    cases b with
    | true => exact hr.exec hthen frame
    | false =>
      cases elseBlock with
      | some other => exact hr.exec (helse other rfl) frame
      | none => exact evolving_pure _
  | forLoop pos loopVar body iterable rangeEnd =>
    cases iterable with
    | none => cases h
    | some iterable =>
      obtain ⟨rfl, rfl⟩ := comes_one.mp h
      obtain ⟨-, hend, hbody⟩ := hs.forLoop
      exact (hr.covers_itemsOf hend).bind fun items =>
        evolving_takeFrom (fun v => hr.itemTurn hbody frame loopVar v) _ _
  | returnStmt pos value =>
    cases value with
    | none => cases h
    | some e =>
      obtain ⟨rfl, rfl⟩ := comes_one.mp h
      exact (Covers.self _ _).bind fun v => evolving_pure _
  | print pos values =>
    refine (hr.covers_evalAll (fun e he => hs.operand he) h).bind fun vs => ?_
    exact (evolving_print _ _).bind fun _ => evolving_pure _
  | expr pos value =>
    obtain ⟨rfl, rfl⟩ := comes_one.mp h
    exact (Covers.self _ _).bind fun _ => evolving_pure _
  | declaration | block | whileLoop | exitStmt | continueStmt => cases h

/-- The function that a call enters passes the test, and the call covers what its body covers. -/
theorem covers_call (hr : r.Evolving test) {pos : Pos} {func : Expr}
    {args : List Expr} {c : Closure}
    {inner : Nat} (he : (Expr.call pos func args).Passes test) (hm : m.Passes test)
    (hcalls : r.Calls func args frame m c inner m₁) :
    c.Passes test ∧ ∀ m₂ m₃, Covers test (r.runBody c inner) m₁ m₂ m₃ →
      Covers test (r.evalRule frame (.call pos func args)) m m₂ m₃ := by
  obtain ⟨ref, vs, m₄, m₅, hfunc, hargs, rfl, hcount, hopen⟩ := hcalls
  have hcalled : func.Passes test := he.operand List.mem_cons_self
  have hpassed : ∀ e ∈ args, e.Passes test :=
    fun e he' => he.operand (List.mem_cons_of_mem func he')
  have hfuncs := hr.eval hcalled frame
  have hvalues := hr.evalAll hpassed frame
  -- The function is looked up when its arguments are there, and it passes as all functions do then.
  have hm₅ : m₅.Passes test := ((hfuncs.ok hfunc).trans (hvalues.ok hargs)).passes hm
  refine ⟨hm₅.closure ref, fun m₂ m₃ h => Covers.after hfuncs hfunc (Covers.after hvalues hargs ?_)⟩
  have henter : Covers test (r.enter (m₅.store.closure ref) vs) m₅ m₂ m₃ := by
    rw [enter_eq]
    exact Covers.after (evolving_openFrame _ vs) hopen h
  refine ⟨henter.before, ?_⟩
  rw [invoke_func hcount]
  exact henter.behind

/-- The code of a part passes the test, and the rule for the task covers the part. -/
theorem part (hr : r.Evolving test) {t t' : Task} (h : r.Part t m t' m₁) (ht : t.Passes test)
    (hm : m.Passes test) : t'.Passes test ∧ t.Covers test r m m₁ (t'.leaves r m₁) := by
  cases h with
  | operand h => exact ⟨Expr.Passes.operand ht h.mem, hr.covers_evalRule ht h⟩
  | entry h =>
    have hentries := Expr.Passes.entries ht
    exact ⟨hentries _ h.mem, (hr.covers_evalEntries hentries h).bind fun _ => evolving_newTuple _⟩
  | bodyExpression h he =>
    obtain ⟨hc, hcovers⟩ := hr.covers_call ht hm h
    refine ⟨hc.expression _ he, hcovers _ _ ?_⟩
    unfold Runner.runBody
    rw [he]
    exact Covers.self _ _
  | bodyStatement h hnone hs =>
    obtain ⟨hc, hcovers⟩ := hr.covers_call ht hm h
    refine ⟨hc.statements _ hs.mem, hcovers _ _ ?_⟩
    unfold Runner.runBody
    rw [hnone]
    exact (covers_runAll (fun s hs => hr.exec (hc.statements s hs) _) hs).bind evolving_resultOf
  | value h => exact ⟨Stmt.Passes.operand ht h.mem, hr.covers_execRule ht h⟩
  | @initial pos vars name e frame m m₁ m' hdeclare h =>
    refine ⟨Stmt.Passes.declaration ht _ h.mem e rfl, ?_⟩
    refine Covers.after (evolving_declareAll (Stmt.everywhere_self ht) frame fun _ h => h)
      hdeclare ?_
    exact (hr.covers_storeInitial ht (fun _ h => h) h).bind fun _ => evolving_pure _
  | statement hopen h =>
    have hss := Stmt.passes_block.mp ht
    refine ⟨hss _ h.mem, Covers.after (evolving_newFrame _) hopen ?_⟩
    exact covers_runAll (fun s hs => hr.exec (hss s hs) _) h
  | thenBlock h =>
    obtain ⟨hcondition, hthen, -⟩ := Stmt.Passes.conditional ht
    exact ⟨hthen, Covers.after (hr.holds hcondition _) h (Covers.self _ _)⟩
  | elseBlock h =>
    obtain ⟨hcondition, -, helse⟩ := Stmt.Passes.conditional ht
    exact ⟨helse _ rfl, Covers.after (hr.holds hcondition _) h (Covers.self _ _)⟩
  | whileCondition h =>
    obtain ⟨hcondition, hbody⟩ := Stmt.Passes.whileLoop ht
    have hturns := covers_takeTurns (hr.whileTurn hcondition hbody _) h
    exact ⟨hcondition, hturns.inside (hr.covers_whileCondition hbody)⟩
  | whileBody h hholds =>
    obtain ⟨hcondition, hbody⟩ := Stmt.Passes.whileLoop ht
    have hturns := covers_takeTurns (hr.whileTurn hcondition hbody _) h
    exact ⟨hbody, hturns.inside (hr.covers_whileBody hcondition hholds)⟩
  | endlessBody h =>
    obtain ⟨-, -, hbody⟩ := Stmt.Passes.forLoop ht
    exact ⟨hbody, (covers_takeTurns (hr.plainTurn hbody _) h).inside covers_plainTurn⟩
  | rangeEnd h =>
    obtain ⟨hiterable, hend, hbody⟩ := Stmt.Passes.forLoop ht
    refine ⟨hend _ rfl, (hr.covers_rangeEnd (hiterable _ rfl) h).bind fun items => ?_⟩
    exact evolving_takeFrom (fun v => hr.itemTurn hbody _ _ v) _ _
  | itemBody hitems h hopen =>
    obtain ⟨hiterable, hend, hbody⟩ := Stmt.Passes.forLoop ht
    refine ⟨hbody, Covers.after (hr.itemsOf (hiterable _ rfl) hend _) hitems ?_⟩
    exact (covers_takeFrom (fun v => hr.itemTurn hbody _ _ v) h).inside (covers_itemTurn hopen)

end Runner.Evolving

end Dee
