import Dee.Proofs.Eval.Call
import Dee.Proofs.Eval.Sequence

/-!
# Jumps that leave a statement

`Stmt.escapes j s` says by the text alone that the jump `j` can leave the statement `s`: it stands
in `s` outside every function and, unless it is a return, outside every loop. Running a statement
gives a signal only if the jump of the signal escapes the statement.

A call hands its caller a value or fails; a stray return is never among its failures, since a call
catches every return.
-/

namespace Dee

/-! ## Jumps in the text -/

mutual

/-- Whether a jump stands in a statement where nothing in the statement catches it. -/
def Stmt.escapes (j : Jump) : Stmt → Bool
  | .declaration _ _ => false
  | .assign _ _ _ => false
  | .block ⟨_, body⟩ => Stmt.escapesAny j body
  | .conditional _ _ ⟨_, body⟩ none => Stmt.escapesAny j body
  | .conditional _ _ ⟨_, body⟩ (some ⟨_, other⟩) =>
    Stmt.escapesAny j body || Stmt.escapesAny j other
  | .whileLoop _ _ ⟨_, body⟩ => j = .leaveFunction && Stmt.escapesAny j body
  | .forLoop _ _ ⟨_, body⟩ _ _ => j = .leaveFunction && Stmt.escapesAny j body
  | .returnStmt _ _ => j = .leaveFunction
  | .exitStmt _ => j = .exitLoop
  | .continueStmt _ => j = .nextTurn
  | .print _ _ => false
  | .expr _ _ => false

/-- Whether a jump escapes one of some statements. -/
def Stmt.escapesAny (j : Jump) : List Stmt → Bool
  | [] => false
  | s :: rest => s.escapes j || Stmt.escapesAny j rest

end

theorem Stmt.escapesAny_iff {j : Jump} {ss : List Stmt} :
    Stmt.escapesAny j ss = true ↔ ∃ s ∈ ss, s.escapes j = true := by
  induction ss with
  | nil => simp [Stmt.escapesAny]
  | cons s rest ih => simp [Stmt.escapesAny, ih]

theorem Stmt.escapes_block (j : Jump) (body : Block) :
    (Stmt.block body).escapes j = Stmt.escapesAny j body.statements := by
  obtain ⟨pos, statements⟩ := body
  rw [Stmt.escapes]

theorem Stmt.escapes_conditional_none (j : Jump) (pos : Pos) (condition : Expr)
    (thenBlock : Block) : (Stmt.conditional pos condition thenBlock none).escapes j =
      Stmt.escapesAny j thenBlock.statements := by
  obtain ⟨thenPos, body⟩ := thenBlock
  rw [Stmt.escapes]

theorem Stmt.escapes_conditional_some (j : Jump) (pos : Pos) (condition : Expr)
    (thenBlock other : Block) : (Stmt.conditional pos condition thenBlock (some other)).escapes j =
      (Stmt.escapesAny j thenBlock.statements || Stmt.escapesAny j other.statements) := by
  obtain ⟨thenPos, body⟩ := thenBlock
  obtain ⟨elsePos, rest⟩ := other
  rw [Stmt.escapes]

theorem Stmt.escapes_whileLoop (j : Jump) (pos : Pos) (condition : Expr) (body : Block) :
    (Stmt.whileLoop pos condition body).escapes j =
      (j = .leaveFunction && Stmt.escapesAny j body.statements) := by
  obtain ⟨bodyPos, statements⟩ := body
  rw [Stmt.escapes]

theorem Stmt.escapes_forLoop (j : Jump) (pos : Pos) (loopVar : Option String) (body : Block)
    (iterable rangeEnd : Option Expr) :
    (Stmt.forLoop pos loopVar body iterable rangeEnd).escapes j =
      (j = .leaveFunction && Stmt.escapesAny j body.statements) := by
  obtain ⟨bodyPos, statements⟩ := body
  rw [Stmt.escapes]

/-! ## Stray returns -/

/-- Whether a failure is a return that nothing caught. -/
def Failure.isStrayReturn : Failure → Bool
  | .error e => e.cause = .stray .leaveFunction
  | _ => false

theorem Failure.isStrayReturn_of_isPlain {f : Failure} (h : f.isPlain = true) :
    f.isStrayReturn = false := by
  unfold Failure.isStrayReturn
  split
  next e =>
    by_cases he : e.cause = .stray .leaveFunction
    · simp [Failure.isPlain, he, EvalError.isPlain] at h
    · simp [he]
  next => rfl

theorem Failure.isStrayReturn_placeAt (e : Located EvalError) (pos : Pos) :
    (Failure.error (e.placeAt pos)).isStrayReturn = (Failure.error e).isStrayReturn := by
  unfold Located.placeAt Located.moveTo
  split <;> rfl

namespace Eval

variable {α β : Type}

/-- From every machine the step gives a result with `good`, or fails by something else than a stray
return. -/
def Yields (x : Eval α) (good : α → Prop) : Prop :=
  ∀ m, Leads x m (fun a _ => good a) fun f _ => f.isStrayReturn = false

variable {x : Eval α} {good : α → Prop}

theorem Yields.bind {f : α → Eval β} {good' : β → Prop} (hx : Yields x good)
    (hf : ∀ a, good a → Yields (f a) good') : Yields (x >>= f) good' :=
  fun m => (hx m).bind fun a m' ha => hf a ha m'

theorem yields_pure {a : α} (h : good a) : Yields (pure a) good :=
  fun _ => leads_pure.mpr h

theorem yields_fail {e : EvalError} (h : (Failure.ofError e).isStrayReturn = false) :
    Yields (fail e) good :=
  fun _ => leads_fail.mpr h

theorem Yields.mono {good' : α → Prop} (hx : Yields x good) (h : ∀ a, good a → good' a) :
    Yields x good' :=
  fun m => (hx m).mono (fun a _ => h a) fun _ _ hf => hf

theorem Yields.locating {pos : Pos} (hx : Yields x good) : Yields (Eval.locating pos x) good := by
  intro m
  refine (hx m).locating fun e m' he => ?_
  rw [Failure.isStrayReturn_placeAt]
  exact he

/-- A step whose failures are plain. -/
theorem yields_of_plain {ok : Machine → α → Machine → Prop}
    (h : ∀ m, Leads x m (ok m) (FailsPlainly m)) : Yields x fun _ => True :=
  fun m => (h m).mono (fun _ _ _ => trivial) fun _ _ hf => Failure.isStrayReturn_of_isPlain hf.2

theorem yields_make {f : Store → α × Store} : Yields (make f) fun _ => True :=
  fun _ => leads_make.mpr trivial

theorem yields_store : Yields store fun _ => True :=
  fun _ => leads_store.mpr trivial

theorem yields_slotsAppend (slots : Slots) (name : Option String) (v : Value) :
    Yields (ofExcept (slots.append name v)) fun _ => True :=
  fun _ => leads_ofExcept.mpr ⟨fun _ _ => trivial,
    fun _ h => Failure.isStrayReturn_of_isPlain (Slots.append_error h)⟩

theorem yields_define (frame : Nat) (name : String) (v : Value) :
    Yields (define frame name v) fun _ => True := by
  refine fun m => (leads_define frame name v).mono (fun _ _ _ => trivial) fun f m' hf => ?_
  rcases hf.2 with ⟨_, rfl⟩ | ⟨_, _, _, rfl⟩
  · rfl
  · rfl

theorem yields_assign (reach frame : Nat) (name : String) (v : Value) :
    Yields (assign reach frame name v) fun _ => True := by
  refine fun m => (leads_assign reach frame name v).mono (fun _ _ _ => trivial) fun f m' hf => ?_
  rcases hf.2 with ⟨_, rfl⟩ | ⟨_, rfl⟩
  · rfl
  · rfl

theorem yields_lookup (reach frame : Nat) (name : String) :
    Yields (lookup reach frame name) fun _ => True := by
  refine fun m => (leads_lookup reach frame name).mono (fun _ _ _ => trivial) fun f m' hf => ?_
  rcases hf.2 with ⟨_, rfl⟩ | ⟨_, rfl⟩
  · rfl
  · rfl

end Eval

/-! ## Loops -/

open Eval

/-- A signal whose jump escapes. -/
def Signal.Escapes (escapes : Jump → Prop) (signal : Option Signal) : Prop :=
  ∀ g, signal = some g → escapes g.jump

theorem yields_runAll {exec : Stmt → Eval (Option Signal)} {ss : List Stmt}
    (h : ∀ s ∈ ss, Yields (exec s) (Signal.Escapes fun j => s.escapes j = true)) :
    Yields (runAll exec ss) (Signal.Escapes fun j => Stmt.escapesAny j ss = true) := by
  intro m
  refine leads_runAll (fun rest _ => ∀ s ∈ rest, s ∈ ss) ?_ ?_ ss fun s hs => hs
  · intro s rest m hinv
    have hs : s ∈ ss := hinv s (by simp)
    refine (h s hs m).mono ?_ fun _ _ hf => hf
    intro signal m' hsignal
    refine ⟨fun _ t ht => hinv t (by simp [ht]), ?_⟩
    rintro g hg g' ⟨rfl⟩
    exact Stmt.escapesAny_iff.mpr ⟨s, hs, hsignal g hg⟩
  · intro _ _ g hg
    cases hg

/-- What a loop gives if its body gives a signal: only a return passes on. -/
theorem Turn.ofSignal_stop {signal out : Option Signal} (h : Turn.ofSignal signal = .stop out) :
    ∀ g, out = some g → signal = some g ∧ g.jump = .leaveFunction := by
  rintro g rfl
  unfold Turn.ofSignal at h
  split at h
  · cases h
  · cases h
    exact ⟨rfl, rfl⟩
  · cases h
  · cases h

/-- The jumps that a loop lets through: the returns that escape its body. -/
def Block.letsThrough (body : Block) (j : Jump) : Prop :=
  j = .leaveFunction ∧ Stmt.escapesAny j body.statements = true

theorem Block.letsThrough_of_stop {body : Block} {signal out : Option Signal}
    (hsignal : Signal.Escapes (fun j => (Stmt.block body).escapes j = true) signal)
    (h : Turn.ofSignal signal = .stop out) : Signal.Escapes body.letsThrough out := by
  intro g hg
  obtain ⟨hs, hj⟩ := Turn.ofSignal_stop h g hg
  have hbody : (Stmt.block body).escapes g.jump = true := hsignal g hs
  rw [Stmt.escapes_block] at hbody
  exact ⟨hj, hbody⟩

/-- A turn that stops a loop gives only what the body lets through. -/
def Turn.LetsThrough (body : Block) (t : Turn) : Prop :=
  ∀ out, t = .stop out → Signal.Escapes body.letsThrough out

theorem Turn.letsThrough_ofSignal {body : Block} {signal : Option Signal}
    (h : Signal.Escapes (fun j => (Stmt.block body).escapes j = true) signal) :
    Turn.LetsThrough body (.ofSignal signal) :=
  fun _ hout => Block.letsThrough_of_stop h hout

theorem yields_takeTurns {turn : Eval Turn} (body : Block) (turns : Nat)
    (h : Yields turn (Turn.LetsThrough body)) :
    Yields (takeTurns turn turns) (Signal.Escapes body.letsThrough) := by
  intro m
  refine leads_takeTurns (fun _ => True) ?_ (fun _ _ => rfl) turns trivial
  intro m _
  exact (h m).mono (fun t _ ht => ⟨fun _ => trivial, ht⟩) fun _ _ hf => hf

theorem yields_forEach {items : Items} {turn : Value → Eval Turn} {body : Block}
    (h : ∀ v, Yields (turn v) (Turn.LetsThrough body)) :
    Yields (items.forEach turn) (Signal.Escapes body.letsThrough) := by
  intro m
  refine leads_forEach (fun _ => True) ?_ ?_ trivial
  · intro k m _ _
    exact (h (items.item k) m).mono (fun t _ ht => ⟨fun _ => trivial, ht⟩) fun _ _ hf => hf
  · intro _ _ g hg
    cases hg

/-! ## Evaluation -/

namespace Runner

/-- The runner gives signals only of jumps that escape, and never fails by a stray return. -/
structure KeepsJumps (r : Runner) : Prop where
  eval : ∀ e frame, Yields (r.eval e frame) fun _ => True
  exec : ∀ s frame, Yields (r.exec s frame) (Signal.Escapes fun j => s.escapes j = true)

variable {r : Runner}

theorem KeepsJumps.evalAll (hr : r.KeepsJumps) (es : List Expr) (frame : Nat) :
    Yields (r.evalAll es frame) fun _ => True := by
  intro m
  refine (leads_evalAll (fun _ => True) (fun _ => True) ?_ trivial).mono
    (fun _ _ _ => trivial) fun _ _ hf => hf
  intro e _ m _
  exact (hr.eval e frame m).mono (fun _ _ _ => ⟨trivial, trivial⟩) fun _ _ hf => hf

theorem yields_bindParams (frame : Nat) (ps : List String) (vs : List Value) :
    Yields (bindParams frame ps vs) fun _ => True := by
  induction ps generalizing vs with
  | nil => exact yields_pure trivial
  | cons p ps ih =>
    cases vs with
    | nil => exact yields_pure trivial
    | cons v vs => exact (yields_define frame p v).bind fun _ _ => ih vs

/-- A call catches every return, so it never fails by one. -/
theorem yields_resultOf (signal : Option Signal) : Yields (resultOf signal) fun _ => True := by
  unfold resultOf
  split
  · exact yields_pure trivial
  · exact yields_pure trivial
  next g hg =>
    refine yields_fail ?_
    cases g with
    | leave v => exact absurd rfl (hg v)
    | exitLoop => rfl
    | nextTurn => rfl

theorem KeepsJumps.runBody (hr : r.KeepsJumps) (c : Closure) (frame : Nat) :
    Yields (r.runBody c frame) fun _ => True := by
  unfold Runner.runBody
  split
  · exact hr.eval _ _
  · exact (yields_runAll fun s _ => hr.exec s _).bind fun signal _ => yields_resultOf signal

theorem KeepsJumps.invoke (hr : r.KeepsJumps) (func : Value) (args : List Value) :
    Yields (r.invoke func args) fun _ => True := by
  intro m
  refine leads_invoke ?_ fun e he => Failure.isStrayReturn_of_isPlain he
  intro ref _ _
  have henter : Yields (r.enter (m.store.closure ref) args) fun _ => True :=
    yields_make.bind fun frame _ => (yields_bindParams _ _ _).bind fun _ _ => hr.runBody _ _
  exact henter m

theorem KeepsJumps.evalEntries (hr : r.KeepsJumps) (frame : Nat) (entries : List TupleEntry)
    (slots : Slots) : Yields (r.evalEntries frame entries slots) fun _ => True := by
  induction entries generalizing slots with
  | nil => exact yields_pure trivial
  | cons entry rest ih =>
    obtain ⟨name, e⟩ := entry
    refine (hr.eval _ _).bind fun v _ => ?_
    exact (yields_slotsAppend _ _ _).bind fun slots' _ => ih slots'

theorem KeepsJumps.evalRule (hr : r.KeepsJumps) (frame : Nat) (e : Expr) :
    Yields (r.evalRule frame e) fun _ => True := by
  cases e with
  | literal pos value kind => exact yields_pure trivial
  | reference pos name => exact yields_lookup _ _ _
  | binary pos op left right =>
    refine (hr.eval _ _).bind fun a _ => (hr.eval _ _).bind fun b _ => ?_
    exact yields_of_plain fun m => leads_binary _ _ _ _
  | unary pos op operand =>
    exact (hr.eval _ _).bind fun a _ => yields_of_plain fun m => leads_unary _ _
  | call pos func args =>
    exact (hr.eval _ _).bind fun f _ => (hr.evalAll _ _).bind fun vs _ => hr.invoke f vs
  | index pos value index =>
    refine (hr.eval _ _).bind fun c _ => (hr.eval _ _).bind fun i _ => ?_
    refine (yields_of_plain fun m => leads_requireInt _ _).bind fun n _ => ?_
    exact yields_of_plain fun m => leads_elementAt _ _
  | array pos elements => exact (hr.evalAll _ _).bind fun vs _ => yields_make
  | tuple pos entries => exact (hr.evalEntries _ _ _).bind fun slots _ => yields_make
  | function pos params statements expression => exact fun m => trivial
  | typeCheck pos value indicator =>
    refine (hr.eval _ _).bind fun v _ => ?_
    split
    · exact yields_pure trivial
    · exact yields_fail rfl
  | member pos value member =>
    exact (hr.eval _ _).bind fun c _ => yields_of_plain fun m => leads_memberOf _ _

theorem yields_declareAll (frame : Nat) (vars : List VarDef) :
    Yields (declareAll frame vars) fun _ => True := by
  induction vars with
  | nil => exact yields_pure trivial
  | cons v rest ih => exact (yields_define _ _ _).bind fun _ _ => ih

theorem KeepsJumps.storeInitial (hr : r.KeepsJumps) (frame : Nat) (vars : List VarDef) :
    Yields (r.storeInitial frame vars) fun _ => True := by
  induction vars with
  | nil => exact yields_pure trivial
  | cons v rest ih =>
    obtain ⟨name, initializer⟩ := v
    cases initializer with
    | none => exact ih
    | some e =>
      exact (hr.eval _ _).bind fun v _ => (yields_assign _ _ _ _).bind fun _ _ => ih

theorem KeepsJumps.assignTo (hr : r.KeepsJumps) (frame : Nat) (v : Value) (target : Expr) :
    Yields (r.assignTo frame v target) fun _ => True := by
  unfold Runner.assignTo
  split
  · exact yields_assign _ _ _ _
  · refine (hr.eval _ _).bind fun c _ => (hr.eval _ _).bind fun i _ => ?_
    refine (yields_of_plain fun m => leads_requireInt _ _).bind fun n _ => ?_
    exact yields_of_plain fun m => leads_setElementAt _ _ _
  · exact (hr.eval _ _).bind fun c _ => yields_of_plain fun m => leads_setMemberOf _ _ _
  · exact yields_fail rfl

theorem KeepsJumps.itemsOf (hr : r.KeepsJumps) (frame : Nat) (iterable : Expr)
    (rangeEnd : Option Expr) : Yields (r.itemsOf frame iterable rangeEnd) fun _ => True := by
  cases rangeEnd with
  | some last =>
    refine (hr.eval _ _).bind fun a _ => ?_
    refine (yields_of_plain fun m => leads_requireInt _ _).bind fun n _ => ?_
    refine (hr.eval _ _).bind fun b _ => ?_
    exact (yields_of_plain fun m => leads_requireInt _ _).bind fun k _ => yields_pure trivial
  | none =>
    refine (hr.eval _ _).bind fun c _ => yields_store.bind fun st _ => ?_
    split
    · exact yields_pure trivial
    · exact yields_pure trivial
    · exact yields_fail rfl

theorem KeepsJumps.itemTurn (hr : r.KeepsJumps) (frame : Nat) (loopVar : Option String)
    (body : Block) (item : Value) :
    Yields (r.itemTurn frame loopVar body item) (Turn.LetsThrough body) := by
  unfold Runner.itemTurn
  split
  · refine yields_make.bind fun inner _ => (yields_define _ _ _).bind fun _ _ => ?_
    exact (hr.exec _ _).bind fun signal h => yields_pure (Turn.letsThrough_ofSignal h)
  · exact (hr.exec _ _).bind fun signal h => yields_pure (Turn.letsThrough_ofSignal h)

theorem KeepsJumps.holds (hr : r.KeepsJumps) (condition : Expr) (frame : Nat) :
    Yields (r.holds condition frame) fun _ => True :=
  (hr.eval _ _).bind fun _ _ => yields_store.bind fun _ _ => yields_pure trivial

/-- Nothing escapes a statement that ends without a signal. -/
theorem escapes_none {escapes : Jump → Prop} : Signal.Escapes escapes none := by
  intro g hg
  cases hg

theorem escapes_thenBlock {j : Jump} {pos : Pos} {condition : Expr} {thenBlock : Block}
    {elseBlock : Option Block} (h : (Stmt.block thenBlock).escapes j = true) :
    (Stmt.conditional pos condition thenBlock elseBlock).escapes j = true := by
  rw [Stmt.escapes_block] at h
  cases elseBlock with
  | none => rw [Stmt.escapes_conditional_none, h]
  | some other => rw [Stmt.escapes_conditional_some, h, Bool.true_or]

theorem escapes_elseBlock {j : Jump} {pos : Pos} {condition : Expr} {thenBlock other : Block}
    (h : (Stmt.block other).escapes j = true) :
    (Stmt.conditional pos condition thenBlock (some other)).escapes j = true := by
  rw [Stmt.escapes_block] at h
  rw [Stmt.escapes_conditional_some, h, Bool.or_true]

theorem KeepsJumps.execRule (hr : r.KeepsJumps) (frame : Nat) (s : Stmt) :
    Yields (r.execRule frame s) (Signal.Escapes fun j => s.escapes j = true) := by
  cases s with
  | declaration pos vars =>
    refine (yields_declareAll _ _).bind fun _ _ => (hr.storeInitial _ _).bind fun _ _ => ?_
    exact yields_pure escapes_none
  | assign pos target value =>
    refine (hr.eval _ _).bind fun v _ => (hr.assignTo _ _ _).bind fun _ _ => ?_
    exact yields_pure escapes_none
  | block body =>
    refine yields_make.bind fun inner _ => ?_
    refine (yields_runAll fun s _ => hr.exec s inner).mono fun signal h g hg => ?_
    show (Stmt.block body).escapes g.jump = true
    rw [Stmt.escapes_block]
    exact h g hg
  | conditional pos condition thenBlock elseBlock =>
    refine (hr.holds _ _).bind fun b _ => ?_
    cases b with
    | true => exact (hr.exec _ _).mono fun signal h g hg => escapes_thenBlock (h g hg)
    | false =>
      cases elseBlock with
      | some other => exact (hr.exec _ _).mono fun signal h g hg => escapes_elseBlock (h g hg)
      | none => exact yields_pure escapes_none
  | whileLoop pos condition body =>
    refine (yields_takeTurns body _ ?_).mono fun signal h g hg => ?_
    · refine (hr.holds _ _).bind fun b _ => ?_
      cases b with
      | true =>
        exact (hr.exec _ _).bind fun signal h => yields_pure (Turn.letsThrough_ofSignal h)
      | false =>
        refine yields_pure fun out hout => ?_
        cases hout
        exact escapes_none
    · obtain ⟨hj, hbody⟩ := h g hg
      show (Stmt.whileLoop pos condition body).escapes g.jump = true
      rw [Stmt.escapes_whileLoop, hbody]
      simp [hj]
  | forLoop pos loopVar body iterable rangeEnd =>
    have hloop : ∀ {x : Eval (Option Signal)}, Yields x (Signal.Escapes body.letsThrough) →
        Yields x (Signal.Escapes fun j =>
          (Stmt.forLoop pos loopVar body iterable rangeEnd).escapes j = true) := by
      refine fun hx => hx.mono fun signal h g hg => ?_
      obtain ⟨hj, hbody⟩ := h g hg
      show (Stmt.forLoop pos loopVar body iterable rangeEnd).escapes g.jump = true
      rw [Stmt.escapes_forLoop, hbody]
      simp [hj]
    cases iterable with
    | none =>
      refine hloop (yields_takeTurns _ _ ?_)
      exact (hr.exec _ _).bind fun signal h => yields_pure (Turn.letsThrough_ofSignal h)
    | some e =>
      refine (hr.itemsOf _ _ _).bind fun items _ => hloop ?_
      exact yields_forEach fun v => hr.itemTurn _ _ _ _
  | returnStmt pos value =>
    cases value with
    | none =>
      refine yields_pure ?_
      rintro g ⟨rfl⟩
      rfl
    | some e =>
      refine (hr.eval _ _).bind fun v _ => yields_pure ?_
      rintro g ⟨rfl⟩
      rfl
  | exitStmt pos =>
    refine yields_pure ?_
    rintro g ⟨rfl⟩
    rfl
  | continueStmt pos =>
    refine yields_pure ?_
    rintro g ⟨rfl⟩
    rfl
  | print pos values =>
    refine (hr.evalAll _ _).bind fun vs _ => ?_
    exact (yields_of_plain fun m => leads_print _ _).bind fun _ _ => yields_pure escapes_none
  | expr pos value => exact (hr.eval _ _).bind fun _ _ => yields_pure escapes_none

/-- Every runner keeps jumps where they belong, at every depth. -/
theorem keepsJumps_ofDepth (turns depth : Nat) : (ofDepth turns depth).KeepsJumps := by
  induction depth with
  | zero => exact ⟨fun _ _ _ => rfl, fun _ _ _ => rfl⟩
  | succ depth ih =>
    exact ⟨fun e frame => (ih.evalRule frame e).locating,
      fun s frame => (ih.execRule frame s).locating⟩

end Runner

end Dee
