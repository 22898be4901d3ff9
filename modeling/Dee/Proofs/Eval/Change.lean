import Mathlib.Logic.Relation
import Dee.Proofs.Eval.Tested

/-!
# What a run changes

`Machine.Change` lists all that a run does to functions and frames: it makes a function, it opens a
frame with its first bindings, it binds a name that the code declares, and it changes a binding of a
name that the code declares or assigns to. Every step of evaluation is a chain of such changes,
whether it succeeds or fails. So a property of functions or frames is kept by all runs if each
change keeps it.

Main statement: `Runner.evolving_ofDepth`.
-/

namespace Dee

open Eval

/-! ## New frames -/

namespace Machine

/-- The machine with one more frame. -/
def withFrame (m : Machine) (parent : Nat) (bindings : List (String × Value)) : Machine :=
  { m with
    store := { m.store with frames := ⟨m.store.frames.frames.push ⟨some parent, bindings⟩⟩ } }

variable (m : Machine) (parent : Nat) (bindings : List (String × Value))

theorem getElem?_withFrame_size :
    (m.withFrame parent bindings).store.frames.frames[m.store.frames.frames.size]? =
      some ⟨some parent, bindings⟩ := by
  simp [withFrame]

theorem getElem?_withFrame_lt {f : Nat} (h : f < m.store.frames.frames.size) :
    (m.withFrame parent bindings).store.frames.frames[f]? = m.store.frames.frames[f]? := by
  simp [withFrame, Array.getElem?_push, Nat.ne_of_lt h]

theorem bindAt_withFrame (name : String) (v : Value) :
    { m.withFrame parent bindings with
      store := (m.withFrame parent bindings).store.modifyFrames
        (·.bindAt m.store.frames.frames.size name v) } =
      m.withFrame parent (bindings ++ [(name, v)]) := by
  have hframes : (m.store.frames.frames.push ⟨some parent, bindings⟩).modify
      m.store.frames.frames.size (·.bind name v) =
        m.store.frames.frames.push ⟨some parent, bindings ++ [(name, v)]⟩ := by
    refine Array.ext_getElem? fun f => ?_
    rw [Array.getElem?_modify, Array.getElem?_push, Array.getElem?_push]
    by_cases hf : f = m.store.frames.frames.size
    · simp [hf, Frame.bind]
    · simp [hf, Ne.symm hf]
  simp only [withFrame, Store.modifyFrames, Frames.bindAt, hframes]

/-- Binding a name in the frame opened last. -/
theorem leads_define_withFrame (name : String) (v : Value) :
    Leads (define m.store.frames.frames.size name v) (m.withFrame parent bindings)
      (fun _ m' => m' = m.withFrame parent (bindings ++ [(name, v)]))
      (fun _ m' => m' = m.withFrame parent bindings ∧ name ∈ bindings.map Prod.fst) := by
  have hframe := m.getElem?_withFrame_size parent bindings
  refine (leads_define _ name v).mono ?_ ?_
  · rintro _ m' ⟨-, rfl⟩
    exact m.bindAt_withFrame parent bindings name v
  · rintro f m' ⟨rfl, ⟨hnone, -⟩ | ⟨fr, hfr, hbinds, -⟩⟩
    · rw [hframe] at hnone
      cases hnone
    · cases hframe.symm.trans hfr
      exact ⟨rfl, Frame.binds_iff.mp hbinds⟩

end Machine

namespace Runner

/-- A turn of a loop with a variable opens a frame that binds the variable to the item. -/
theorem turnFrame_some (outer : Nat) (name : String) (item : Value) (m : Machine) :
    turnFrame outer (some name) item m =
      (.ok m.store.frames.frames.size, m.withFrame outer [(name, item)]) := by
  obtain ⟨hok, herror⟩ := leads_iff.mp (m.leads_define_withFrame outer [] name item)
  show (do
    define m.store.frames.frames.size name item
    return m.store.frames.frames.size : Eval Nat) (m.withFrame outer []) = _
  rcases hx : define m.store.frames.frames.size name item (m.withFrame outer []) with ⟨result, m'⟩
  cases result with
  | ok u =>
    rw [bind_apply_ok hx, hok u m' hx]
    rfl
  | error f =>
    -- The new frame binds nothing yet, so the name cannot be taken.
    cases (herror f m' hx).2

/-- Binding parameters in the frame opened last. -/
theorem leads_bindParams (m : Machine) (parent : Nat) (bindings : List (String × Value))
    (params : List String) (args : List Value) :
    Leads (bindParams m.store.frames.frames.size params args) (m.withFrame parent bindings)
      (fun _ m' => ∃ more, m' = m.withFrame parent (bindings ++ more) ∧ ∀ b ∈ more, b.1 ∈ params)
      (fun _ m' => ∃ more, m' = m.withFrame parent more) := by
  induction params generalizing args bindings with
  | nil => exact leads_pure.mpr ⟨[], by simp, by simp⟩
  | cons name params ih =>
    cases args with
    | nil => exact leads_pure.mpr ⟨[], by simp, by simp⟩
    | cons v args =>
      refine leads_bind.mpr ((m.leads_define_withFrame parent bindings name v).mono ?_ ?_)
      · rintro _ m' rfl
        refine (ih (bindings ++ [(name, v)]) args).mono ?_ fun _ _ h => h
        rintro _ m' ⟨more, rfl, hmore⟩
        refine ⟨(name, v) :: more, by simp, ?_⟩
        intro b hb
        rcases List.mem_cons.mp hb with rfl | hb
        · exact List.mem_cons_self
        · exact List.mem_cons_of_mem _ (hmore b hb)
      · rintro f m' ⟨rfl, -⟩
        exact ⟨bindings, rfl⟩

/-- A call opens a frame that binds nothing but the parameters. -/
theorem leads_openFrame (c : Closure) (args : List Value) (m : Machine) :
    Leads (openFrame c args) m
      (fun inner m' => inner = m.store.frames.frames.size ∧
        ∃ bindings, m' = m.withFrame c.frame bindings ∧ ∀ b ∈ bindings, b.1 ∈ c.params)
      (fun _ m' => ∃ bindings, m' = m.withFrame c.frame bindings) := by
  refine leads_bind.mpr (leads_make.mpr (leads_bind.mpr ?_))
  refine (leads_bindParams m c.frame [] c.params args).mono ?_ fun _ _ h => h
  exact fun _ m' h => leads_pure.mpr ⟨rfl, h⟩

end Runner

/-! ## Changes -/

namespace Machine

variable {test : NodeTest} {m m' m'' : Machine}

/-- What code that passes a test can do to a machine at once. -/
inductive Change (test : NodeTest) : Machine → Machine → Prop
  /-- Arrays, tuples and the output change. -/
  | contents {m m' : Machine} (hclosures : m'.store.closures = m.store.closures)
      (hframes : m'.store.frames = m.store.frames) : Change test m m'
  | function {m : Machine} {c : Closure} (hc : c.Passes test) :
      Change test m { m with store := (m.store.newClosure c).2 }
  | frame (m : Machine) (parent : Nat) (bindings : List (String × Value)) :
      Change test m (m.withFrame parent bindings)
  | declare {m : Machine} {pos : Pos} {vars : List VarDef} {var : VarDef} (frame : Nat)
      (h : test.stmt (.declaration pos vars) = true) (hvar : var ∈ vars) :
      Change test m { m with store := m.store.modifyFrames (·.bindAt frame var.name Value.none) }
  | initial {m : Machine} {pos : Pos} {vars : List VarDef} {var : VarDef} (owner : Nat)
      (v : Value) (h : test.stmt (.declaration pos vars) = true) (hvar : var ∈ vars) :
      Change test m { m with store := m.store.modifyFrames (·.rebindAt owner var.name v) }
  | assign {m : Machine} {pos targetPos : Pos} {name : String} {value : Expr} (owner : Nat)
      (v : Value) (h : test.stmt (.assign pos (.reference targetPos name) value) = true) :
      Change test m { m with store := m.store.modifyFrames (·.rebindAt owner name v) }

theorem Change.passes (h : Change test m m') (hm : m.Passes test) : m'.Passes test := by
  cases h with
  | contents hclosures hframes =>
    intro c hc
    rw [hclosures] at hc
    exact hm c hc
  | function hnew =>
    intro c hc
    rcases Array.mem_push.mp hc with hold | rfl
    · exact hm c hold
    · exact hnew
  | frame | declare | initial | assign => exact hm

/-- As long as the functions in the store pass the test, a chain of changes leads from `m` to
`m'`. -/
def Evolves (test : NodeTest) (m m' : Machine) : Prop :=
  m.Passes test → Relation.ReflTransGen (Change test) m m'

theorem Evolves.passes (h : Evolves test m m') (hm : m.Passes test) : m'.Passes test := by
  have hchain := h hm
  clear h
  induction hchain with
  | refl => exact hm
  | tail _ hchange ih => exact hchange.passes ih

theorem Evolves.refl (m : Machine) : Evolves test m m := fun _ => .refl

theorem Evolves.trans (h : Evolves test m m') (h' : Evolves test m' m'') : Evolves test m m'' :=
  fun hm => (h hm).trans (h' (h.passes hm))

theorem Change.evolves (h : Change test m m') : Evolves test m m' := fun _ => .single h

/-- What every change keeps is kept as long as the functions pass the test. -/
theorem Evolves.keeps {P : Machine → Prop} (h : Evolves test m m') (hm : m.Passes test)
    (hchange : ∀ m₁ m₂, Change test m₁ m₂ → P m₁ → P m₂) (hp : P m) : P m' := by
  have hchain := h hm
  clear h
  induction hchain with
  | refl => exact hp
  | tail _ hstep ih => exact hchange _ _ hstep ih

end Machine

/-! ## Steps -/

namespace Eval

variable {α β : Type} {test : NodeTest} {x : Eval α}

/-- The step is a chain of changes, whether it succeeds or fails. -/
def Evolving (test : NodeTest) (x : Eval α) : Prop :=
  ∀ m : Machine, Machine.Evolves test m (x m).2

theorem Evolving.ok (h : Evolving test x) {m m' : Machine} {a : α} (hx : x m = (.ok a, m')) :
    Machine.Evolves test m m' := by
  have hevolves := h m
  rw [hx] at hevolves
  exact hevolves

theorem Evolving.bind {g : α → Eval β} (hx : Evolving test x) (hg : ∀ a, Evolving test (g a)) :
    Evolving test (x >>= g) := by
  intro m
  rcases hresult : x m with ⟨result, m₁⟩
  cases result with
  | ok a =>
    rw [bind_apply_ok hresult]
    exact (hx.ok hresult).trans (hg a m₁)
  | error f =>
    rw [bind_apply_error hresult, ← congrArg Prod.snd hresult]
    exact hx m

theorem locating_snd (pos : Pos) (x : Eval α) (m : Machine) : (locating pos x m).2 = (x m).2 := by
  unfold locating
  split
  next hx => rw [hx]
  next => rfl

theorem Evolving.locating (h : Evolving test x) (pos : Pos) :
    Evolving test (Eval.locating pos x) := by
  intro m
  rw [locating_snd]
  exact h m

theorem evolving_of_leads {ok : Machine → α → Machine → Prop}
    {err : Machine → Failure → Machine → Prop} (h : ∀ m, Leads x m (ok m) (err m))
    (hok : ∀ m a m', ok m a m' → Machine.Evolves test m m')
    (herr : ∀ m f m', err m f m' → Machine.Evolves test m m') : Evolving test x := by
  intro m
  obtain ⟨hleads, hfails⟩ := leads_iff.mp (h m)
  rcases hx : x m with ⟨result, m'⟩
  cases result with
  | ok a => exact hok m a m' (hleads a m' hx)
  | error f => exact herr m f m' (hfails f m' hx)

/-- A step that leaves the machine as it is where it fails, and only changes contents where it
succeeds. -/
theorem evolving_of_contents {ok : Machine → α → Machine → Prop}
    (h : ∀ m, Leads x m (ok m) (FailsPlainly m))
    (hok : ∀ m a m', ok m a m' →
      m'.store.closures = m.store.closures ∧ m'.store.frames = m.store.frames) :
        Evolving test x := by
  refine evolving_of_leads h ?_ ?_
  · intro m a m' h'
    exact Machine.Change.evolves (.contents (hok m a m' h').1 (hok m a m' h').2)
  · rintro m f m' ⟨rfl, -⟩
    exact .refl _

theorem evolving_pure (a : α) : Evolving test (pure a : Eval α) := fun m => .refl m

theorem evolving_throw (f : Failure) : Evolving test (throw f : Eval α) := fun m => .refl m

theorem evolving_fail (e : EvalError) : Evolving test (fail e : Eval α) := fun m => .refl m

theorem evolving_store : Evolving test store := fun m => .refl m

theorem evolving_ofExcept (result : Except EvalError α) : Evolving test (ofExcept result) := by
  cases result with
  | ok a => exact evolving_pure a
  | error e => exact evolving_fail e

theorem evolving_newArray (c : Cells) : Evolving test (make (·.newArray c)) :=
  fun _ => Machine.Change.evolves (.contents rfl rfl)

theorem evolving_newTuple (s : Slots) : Evolving test (make (·.newTuple s)) :=
  fun _ => Machine.Change.evolves (.contents rfl rfl)

theorem evolving_newClosure {c : Closure} (h : c.Passes test) :
    Evolving test (make (·.newClosure c)) :=
  fun _ => Machine.Change.evolves (.function h)

theorem evolving_newFrame (parent : Nat) : Evolving test (make (·.newFrame parent)) :=
  fun m => Machine.Change.evolves (.frame m parent [])

theorem evolving_lookup (reach frame : Nat) (name : String) :
    Evolving test (lookup reach frame name) := by
  refine evolving_of_leads (fun m => leads_lookup reach frame name) ?_ ?_
  · rintro m v m' ⟨rfl, -⟩
    exact .refl _
  · rintro m f m' ⟨rfl, -⟩
    exact .refl _

theorem evolving_print (depth : Nat) (vs : List Value) : Evolving test (print depth vs) := by
  refine evolving_of_contents (fun m => leads_print depth vs) fun m _ m' h => ?_
  rw [h]
  exact ⟨rfl, rfl⟩

theorem evolving_requireInt (role : IntRole) (v : Value) : Evolving test (requireInt role v) := by
  refine evolving_of_contents (fun m => leads_requireInt role v) ?_
  rintro m n m' ⟨rfl, -⟩
  exact ⟨rfl, rfl⟩

theorem evolving_elementAt (container : Value) (index : Int) :
    Evolving test (elementAt container index) := by
  refine evolving_of_contents (fun m => leads_elementAt container index) ?_
  rintro m v m' ⟨rfl, -⟩
  exact ⟨rfl, rfl⟩

theorem evolving_memberOf (container : Value) (member : Member) :
    Evolving test (memberOf container member) := by
  refine evolving_of_contents (fun m => leads_memberOf container member) ?_
  rintro m v m' ⟨rfl, -⟩
  exact ⟨rfl, rfl⟩

theorem evolving_setElementAt (container : Value) (index : Int) (v : Value) :
    Evolving test (setElementAt container index v) := by
  refine evolving_of_contents (fun m => leads_setElementAt container index v) ?_
  rintro m _ m' (⟨ref, i, -, rfl⟩ | ⟨ref, place, -, rfl⟩)
  · exact ⟨rfl, rfl⟩
  · exact ⟨rfl, rfl⟩

theorem evolving_setMemberOf (container : Value) (member : Member) (v : Value) :
    Evolving test (setMemberOf container member v) := by
  refine evolving_of_contents (fun m => leads_setMemberOf container member v) ?_
  rintro m _ m' (⟨ref, i, -, rfl⟩ | ⟨ref, place, -, rfl⟩)
  · exact ⟨rfl, rfl⟩
  · exact ⟨rfl, rfl⟩

theorem evolving_binary (depth : Nat) (op : String) (a b : Value) :
    Evolving test (binary depth op a b) := by
  refine evolving_of_contents (fun m => leads_binary depth op a b) ?_
  rintro m v m' (⟨rfl, -⟩ | ⟨i, j, cells, -, -, -, hnew, -⟩ |
    ⟨i, j, slots, -, -, -, hnew, -⟩)
  · exact ⟨rfl, rfl⟩
  · rw [(Prod.mk.inj hnew).2]
    exact ⟨rfl, rfl⟩
  · rw [(Prod.mk.inj hnew).2]
    exact ⟨rfl, rfl⟩

theorem evolving_unary (op : String) (v : Value) : Evolving test (unary op v) := by
  refine evolving_of_contents (fun m => leads_unary op v) ?_
  rintro m w m' ⟨rfl, -⟩
  exact ⟨rfl, rfl⟩

end Eval

/-! ## Sequences -/

variable {test : NodeTest}

theorem evolving_runAll {exec : Stmt → Eval (Option Signal)} {ss : List Stmt}
    (h : ∀ s ∈ ss, Evolving test (exec s)) : Evolving test (runAll exec ss) := by
  induction ss with
  | nil => exact evolving_pure _
  | cons s rest ih =>
    refine (h s List.mem_cons_self).bind fun signal => ?_
    cases signal with
    | some signal => exact evolving_pure _
    | none => exact ih fun s' hs' => h s' (List.mem_cons_of_mem s hs')

theorem evolving_takeTurns {turn : Eval Turn} (h : Evolving test turn) (turns : Nat) :
    Evolving test (takeTurns turn turns) := by
  induction turns with
  | zero => exact evolving_throw _
  | succ turns ih =>
    refine h.bind fun t => ?_
    cases t with
    | again => exact ih
    | stop signal => exact evolving_pure _

theorem evolving_takeFrom {items : Items} {turn : Value → Eval Turn}
    (h : ∀ v, Evolving test (turn v))
    (remaining next : Nat) : Evolving test (items.takeFrom turn remaining next) := by
  induction remaining generalizing next with
  | zero => exact evolving_pure _
  | succ remaining ih =>
    refine (h _).bind fun t => ?_
    cases t with
    | again => exact ih (next + 1)
    | stop signal => exact evolving_pure _

/-! ## Runners -/

namespace Runner

variable {r : Runner}

/-- The runner makes chains of changes, if the code that it is asked for passes the test. -/
structure Evolving (test : NodeTest) (r : Runner) : Prop where
  eval : ∀ {e : Expr}, e.Passes test → ∀ frame, Eval.Evolving test (r.eval e frame)
  exec : ∀ {s : Stmt}, s.Passes test → ∀ frame, Eval.Evolving test (r.exec s frame)

theorem evolving_turnFrame (outer : Nat) (loopVar : Option String) (item : Value) :
    Eval.Evolving test (turnFrame outer loopVar item) := by
  cases loopVar with
  | none => exact evolving_pure _
  | some name =>
    intro m
    rw [turnFrame_some]
    exact Machine.Change.evolves (.frame m outer _)

theorem evolving_openFrame (c : Closure) (args : List Value) :
    Eval.Evolving test (openFrame c args) := by
  refine evolving_of_leads (fun m => leads_openFrame c args m) ?_ ?_
  · rintro m inner m' ⟨-, bindings, rfl, -⟩
    exact Machine.Change.evolves (.frame m c.frame bindings)
  · rintro m f m' ⟨bindings, rfl⟩
    exact Machine.Change.evolves (.frame m c.frame bindings)

theorem evolving_resultOf (signal : Option Signal) : Eval.Evolving test (resultOf signal) := by
  unfold resultOf
  split
  · exact evolving_pure _
  · exact evolving_pure _
  · exact evolving_fail _

/-- The variables of a declaration are bound. -/
theorem evolving_declareAll {pos : Pos} {vars : List VarDef}
    (h : test.stmt (.declaration pos vars) = true) (frame : Nat) {some : List VarDef}
    (hsome : ∀ var ∈ some, var ∈ vars) : Eval.Evolving test (declareAll frame some) := by
  induction some with
  | nil => exact evolving_pure ()
  | cons var rest ih =>
    have hdefine : Eval.Evolving test (define frame var.name Value.none) := by
      refine evolving_of_leads (fun m => leads_define frame var.name Value.none) ?_ ?_
      · rintro m _ m' ⟨-, rfl⟩
        exact Machine.Change.evolves (.declare frame h (hsome var List.mem_cons_self))
      · rintro m f m' ⟨rfl, -⟩
        exact .refl _
    exact hdefine.bind fun _ => ih fun var' hvar' => hsome var' (List.mem_cons_of_mem var hvar')

/-- The initial value of a declared variable is stored. -/
theorem evolving_initial {pos : Pos} {vars : List VarDef} {var : VarDef}
    (h : test.stmt (.declaration pos vars) = true) (hvar : var ∈ vars)
    (reach frame : Nat) (v : Value) :
    Eval.Evolving test (Eval.assign reach frame var.name v) := by
  refine evolving_of_leads (fun m => leads_assign reach frame var.name v) ?_ ?_
  · rintro m _ m' ⟨owner, -, rfl⟩
    exact Machine.Change.evolves (.initial owner v h hvar)
  · rintro m f m' ⟨rfl, -⟩
    exact .refl _

namespace Evolving

theorem evalAll (hr : r.Evolving test) {es : List Expr} (h : ∀ e ∈ es, e.Passes test)
    (frame : Nat) :
    Eval.Evolving test (r.evalAll es frame) := by
  unfold Runner.evalAll
  induction es with
  | nil =>
    rw [List.mapM_nil]
    exact evolving_pure _
  | cons e rest ih =>
    rw [List.mapM_cons]
    refine (hr.eval (h e List.mem_cons_self) frame).bind fun v => ?_
    refine (ih fun e' he' => h e' (List.mem_cons_of_mem e he')).bind fun vs => ?_
    exact evolving_pure _

theorem evalEntries (hr : r.Evolving test) {entries : List TupleEntry}
    (h : ∀ entry ∈ entries, entry.value.Passes test) (frame : Nat) (slots : Slots) :
    Eval.Evolving test (r.evalEntries frame entries slots) := by
  induction entries generalizing slots with
  | nil => exact evolving_pure _
  | cons entry rest ih =>
    obtain ⟨name, e⟩ := entry
    refine (hr.eval (h ⟨name, e⟩ List.mem_cons_self) frame).bind fun v => ?_
    refine (evolving_ofExcept _).bind fun slots' => ?_
    exact ih (fun entry hentry => h entry (List.mem_cons_of_mem _ hentry)) slots'

theorem runBody (hr : r.Evolving test) {c : Closure} (hc : c.Passes test) (frame : Nat) :
    Eval.Evolving test (r.runBody c frame) := by
  unfold Runner.runBody
  split
  next e he => exact hr.eval (hc.expression e he) frame
  next =>
    refine (evolving_runAll fun s hs => hr.exec (hc.statements s hs) frame).bind fun signal => ?_
    exact evolving_resultOf signal

/-- The function that a call enters is in the store, so it passes the test. -/
theorem invoke (hr : r.Evolving test) (func : Value) (args : List Value) :
    Eval.Evolving test (r.invoke func args) := by
  intro m hm
  cases func with
  | func ref =>
    by_cases hcount : args.length = (m.store.closure ref).params.length
    · rw [invoke_func hcount, enter_eq]
      exact (evolving_openFrame _ args).bind (fun frame => hr.runBody (hm.closure ref) frame) m hm
    · change Relation.ReflTransGen _ m
        ((if args.length = (m.store.closure ref).params.length then _ else _ : Eval Value) m).2
      rw [if_neg hcount]
      exact .refl
  | scalar s => exact .refl
  | array ref => exact .refl
  | tuple ref => exact .refl

theorem evalRule (hr : r.Evolving test) {e : Expr} (he : e.Passes test) (frame : Nat) :
    Eval.Evolving test (r.evalRule frame e) := by
  have hoperand : ∀ e' ∈ e.operands, Eval.Evolving test (r.eval e' frame) := fun e' he' =>
    hr.eval (he.operand he') frame
  cases e with
  | literal pos value kind => exact evolving_pure _
  | reference pos name => exact evolving_lookup _ _ _
  | binary pos op left right =>
    refine (hoperand left (by simp [Expr.operands])).bind fun a => ?_
    refine (hoperand right (by simp [Expr.operands])).bind fun b => ?_
    exact evolving_binary _ _ _ _
  | unary pos op operand =>
    exact (hoperand operand (by simp [Expr.operands])).bind fun a => evolving_unary _ _
  | call pos func args =>
    refine (hoperand func (by simp [Expr.operands])).bind fun f => ?_
    have hargs : ∀ e' ∈ args, e'.Passes test :=
      fun e' he' => he.operand (by simp [Expr.operands, he'])
    exact (hr.evalAll hargs frame).bind fun vs => hr.invoke f vs
  | index pos value i =>
    refine (hoperand value (by simp [Expr.operands])).bind fun c => ?_
    refine (hoperand i (by simp [Expr.operands])).bind fun v => ?_
    exact (evolving_requireInt _ _).bind fun n => evolving_elementAt _ _
  | array pos elements =>
    exact (hr.evalAll (fun e' he' => he.operand he') frame).bind fun vs => evolving_newArray _
  | tuple pos entries =>
    exact (hr.evalEntries he.entries frame _).bind fun slots => evolving_newTuple _
  | function pos params statements expression => exact evolving_newClosure (he.function frame)
  | typeCheck pos value indicator =>
    refine (hoperand value (by simp [Expr.operands])).bind fun v => ?_
    split
    · exact evolving_pure _
    · exact evolving_fail _
  | member pos value member =>
    exact (hoperand value (by simp [Expr.operands])).bind fun c => evolving_memberOf _ _

theorem storeInitial (hr : r.Evolving test) {pos : Pos} {vars : List VarDef}
    (h : (Stmt.declaration pos vars).Passes test) (frame : Nat) {some : List VarDef}
    (hsome : ∀ var ∈ some, var ∈ vars) : Eval.Evolving test (r.storeInitial frame some) := by
  induction some with
  | nil => exact evolving_pure ()
  | cons var rest ih =>
    have hrest := ih fun var' hvar' => hsome var' (List.mem_cons_of_mem var hvar')
    have hvar := hsome var List.mem_cons_self
    obtain ⟨name, initializer⟩ := var
    cases initializer with
    | none => exact hrest
    | some e =>
      refine (hr.eval (h.declaration _ hvar e rfl) frame).bind fun value => ?_
      exact (evolving_initial (Stmt.everywhere_self h) hvar r.depth frame value).bind fun _ => hrest

theorem assignTo (hr : r.Evolving test) {pos : Pos} {target value : Expr}
    (h : (Stmt.assign pos target value).Passes test) (frame : Nat) (v : Value) :
    Eval.Evolving test (r.assignTo frame v target) := by
  have hoperand : ∀ e ∈ target.operands, Eval.Evolving test (r.eval e frame) := fun e he =>
    hr.eval (h.assign.1.operand he) frame
  cases target with
  | reference targetPos name =>
    refine evolving_of_leads (fun m => leads_assign r.depth frame name v) ?_ ?_
    · rintro m _ m' ⟨owner, -, rfl⟩
      exact Machine.Change.evolves (.assign owner v (Stmt.everywhere_self h))
    · rintro m f m' ⟨rfl, -⟩
      exact .refl _
  | index targetPos container i =>
    refine (hoperand _ (by simp [Expr.operands])).bind fun c => ?_
    refine (hoperand _ (by simp [Expr.operands])).bind fun i => ?_
    exact (evolving_requireInt _ _).bind fun n => evolving_setElementAt _ _ _
  | member targetPos container member =>
    exact (hoperand _ (by simp [Expr.operands])).bind fun c => evolving_setMemberOf _ _ _
  | literal | binary | unary | call | array | tuple | function | typeCheck => exact evolving_fail _

theorem holds (hr : r.Evolving test) {condition : Expr} (h : condition.Passes test) (frame : Nat) :
    Eval.Evolving test (r.holds condition frame) :=
  (hr.eval h frame).bind fun _ => evolving_store.bind fun _ => evolving_pure _

theorem itemsOf (hr : r.Evolving test) {iterable : Expr} (hi : iterable.Passes test)
    {rangeEnd : Option Expr} (hend : ∀ e, rangeEnd = some e → e.Passes test) (frame : Nat) :
    Eval.Evolving test (r.itemsOf frame iterable rangeEnd) := by
  cases rangeEnd with
  | some last =>
    refine (hr.eval hi frame).bind fun a => (evolving_requireInt _ _).bind fun n => ?_
    refine (hr.eval (hend last rfl) frame).bind fun b => (evolving_requireInt _ _).bind fun k => ?_
    exact evolving_pure _
  | none =>
    refine (hr.eval hi frame).bind fun c => evolving_store.bind fun st => ?_
    split
    · exact evolving_pure _
    · exact evolving_pure _
    · exact evolving_fail _

theorem plainTurn (hr : r.Evolving test) {body : Block} (h : (Stmt.block body).Passes test)
    (frame : Nat) : Eval.Evolving test (r.plainTurn body frame) :=
  (hr.exec h frame).bind fun _ => evolving_pure _

theorem whileTurn (hr : r.Evolving test) {condition : Expr} (hc : condition.Passes test)
    {body : Block}
    (hbody : (Stmt.block body).Passes test) (frame : Nat) :
    Eval.Evolving test (r.whileTurn condition body frame) := by
  refine (hr.holds hc frame).bind fun b => ?_
  cases b with
  | true => exact hr.plainTurn hbody frame
  | false => exact evolving_pure _

theorem itemTurn (hr : r.Evolving test) {body : Block} (h : (Stmt.block body).Passes test)
    (frame : Nat)
    (loopVar : Option String) (item : Value) :
    Eval.Evolving test (r.itemTurn frame loopVar body item) := by
  rw [itemTurn_eq]
  exact (evolving_turnFrame frame loopVar item).bind fun inner => hr.plainTurn h inner

theorem execRule (hr : r.Evolving test) {s : Stmt} (hs : s.Passes test) (frame : Nat) :
    Eval.Evolving test (r.execRule frame s) := by
  have hoperand : ∀ e ∈ s.operands, e.Passes test := fun e he => hs.operand he
  cases s with
  | declaration pos vars =>
    refine (evolving_declareAll (Stmt.everywhere_self hs) frame fun _ h => h).bind fun _ => ?_
    exact (hr.storeInitial hs frame fun _ h => h).bind fun _ => evolving_pure _
  | assign pos target value =>
    refine (hr.eval hs.assign.2 frame).bind fun v => ?_
    exact (hr.assignTo hs frame v).bind fun _ => evolving_pure _
  | block body =>
    refine (evolving_newFrame frame).bind fun inner => ?_
    exact evolving_runAll fun s hs' => hr.exec (Stmt.passes_block.mp hs s hs') inner
  | conditional pos condition thenBlock elseBlock =>
    obtain ⟨hcondition, hthen, helse⟩ := hs.conditional
    refine (hr.holds hcondition frame).bind fun b => ?_
    cases b with
    | true => exact hr.exec hthen frame
    | false =>
      cases elseBlock with
      | some other => exact hr.exec (helse other rfl) frame
      | none => exact evolving_pure _
  | whileLoop pos condition body =>
    obtain ⟨hcondition, hbody⟩ := hs.whileLoop
    exact evolving_takeTurns (hr.whileTurn hcondition hbody frame) _
  | forLoop pos loopVar body iterable rangeEnd =>
    obtain ⟨hiterable, hend, hbody⟩ := hs.forLoop
    cases iterable with
    | none => exact evolving_takeTurns (hr.plainTurn hbody frame) _
    | some iterable =>
      refine (hr.itemsOf (hiterable iterable rfl) hend frame).bind fun items => ?_
      exact evolving_takeFrom (fun v => hr.itemTurn hbody frame loopVar v) _ _
  | returnStmt pos value =>
    cases value with
    | none => exact evolving_pure _
    | some e =>
      exact (hr.eval (hoperand e (by simp [Stmt.operands])) frame).bind fun v => evolving_pure _
  | exitStmt pos => exact evolving_pure _
  | continueStmt pos => exact evolving_pure _
  | print pos values =>
    refine (hr.evalAll hoperand frame).bind fun vs => ?_
    exact (evolving_print _ _).bind fun _ => evolving_pure _
  | expr pos value =>
    exact (hr.eval (hoperand value (by simp [Stmt.operands])) frame).bind fun _ => evolving_pure _

end Evolving

/-- Every runner makes chains of changes, at every depth. -/
theorem evolving_ofDepth (test : NodeTest) (turns depth : Nat) :
    (ofDepth turns depth).Evolving test := by
  induction depth with
  | zero => exact ⟨fun _ _ => evolving_throw _, fun _ _ => evolving_throw _⟩
  | succ depth ih =>
    refine ⟨?_, ?_⟩
    · intro e he frame
      exact (ih.evalRule he frame).locating _
    · intro s hs frame
      exact (ih.execRule hs frame).locating _

end Runner

end Dee
