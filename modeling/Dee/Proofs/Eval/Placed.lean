import Dee.Proofs.Eval.Call
import Dee.Proofs.Eval.InOrder
import Dee.Proofs.Eval.Trace

/-!
# Where errors are placed

A step fails with an error whose position is open, and the expression or the statement around it
gives the error its own position. So if all code stands at good positions, the code of the functions
in the store included, all errors lie at good positions.

The same walk over the evaluation shows what a run does to the outermost frame: statements run in
frames that are made for them, so no name is ever bound in the outermost one.

Main statement: `Machine.run_inOrder`.
-/

namespace Dee

open Eval

variable {okPos : Pos → Bool}

/-! ## Evaluation -/

namespace Runner

variable {names : List String} {r : Runner}

/-- The runner places errors at good positions, and runs statements only in frames of their own. -/
structure Places (okPos : Pos → Bool) (names : List String) (r : Runner) : Prop where
  eval : ∀ e frame, e.Placed okPos →
    Stays okPos names (·.IsPlaced okPos) (r.eval e frame) fun _ => True
  exec : ∀ s frame, s.Placed okPos → frame ≠ Machine.globalFrame →
    Stays okPos names (·.IsPlaced okPos) (r.exec s frame) fun _ => True

/-- A part of an expression or a statement keeps what it has placed. -/
theorem Places.part (hr : r.Places okPos names) {e : Expr} (he : e.Placed okPos) (frame : Nat) :
    Stays okPos names (·.IsPlaceable okPos) (r.eval e frame) fun _ => True :=
  (hr.eval e frame he).mono (fun _ ha => ha) fun _ hf => hf.isPlaceable

theorem Places.run (hr : r.Places okPos names) {s : Stmt} (hs : s.Placed okPos) {frame : Nat}
    (hframe : frame ≠ Machine.globalFrame) :
    Stays okPos names (·.IsPlaceable okPos) (r.exec s frame) fun _ => True :=
  (hr.exec s frame hs hframe).mono (fun _ ha => ha) fun _ hf => hf.isPlaceable

theorem Places.evalAll (hr : r.Places okPos names) {es : List Expr}
    (hes : ∀ e ∈ es, e.Placed okPos) (frame : Nat) :
    Stays okPos names (·.IsPlaceable okPos) (r.evalAll es frame) fun _ => True := by
  unfold Runner.evalAll
  induction es with
  | nil =>
    rw [List.mapM_nil]
    exact stays_pure trivial
  | cons e rest ih =>
    rw [List.mapM_cons]
    refine (hr.part (hes e List.mem_cons_self) frame).bind fun v _ => ?_
    refine (ih fun e' he' => hes e' (List.mem_cons_of_mem e he')).bind fun vs _ => ?_
    exact stays_pure trivial

/-! ## Calls -/

theorem stays_bindParams {frame : Nat} (hframe : frame ≠ Machine.globalFrame) (ps : List String)
    (vs : List Value) :
    Stays okPos names (·.IsPlaceable okPos) (bindParams frame ps vs) fun _ => True := by
  induction ps generalizing vs with
  | nil => exact stays_pure trivial
  | cons p ps ih =>
    cases vs with
    | nil => exact stays_pure trivial
    | cons v vs => exact (stays_define hframe p v).bind fun _ _ => ih vs

theorem stays_resultOf (signal : Option Signal) :
    Stays okPos names (·.IsPlaceable okPos) (resultOf signal) fun _ => True := by
  unfold resultOf
  split
  · exact stays_pure trivial
  · exact stays_pure trivial
  · exact stays_fail _

theorem Places.runBody (hr : r.Places okPos names) {c : Closure} (hc : c.Placed okPos)
    {frame : Nat} (hframe : frame ≠ Machine.globalFrame) :
    Stays okPos names (·.IsPlaceable okPos) (r.runBody c frame) fun _ => True := by
  unfold Runner.runBody
  split
  next e he => exact hr.part (hc.expression e he) frame
  next =>
    refine (stays_runAll fun s hs => hr.run (hc.statements s hs) hframe).bind fun signal _ => ?_
    exact stays_resultOf signal

/-- A call runs the body of a function of the store in a frame of its own. -/
theorem Places.invoke (hr : r.Places okPos names) (func : Value) (args : List Value) :
    Stays okPos names (·.IsPlaceable okPos) (r.invoke func args) fun _ => True := by
  intro m hm
  refine leads_invoke ?_ fun e _ => ⟨Or.inl rfl, hm⟩
  intro ref _ _
  have henter : Stays okPos names (·.IsPlaceable okPos)
      (r.enter (m.store.closure ref) args) fun _ => True := by
    refine (stays_newFrame _).bind fun frame hframe => ?_
    refine (stays_bindParams hframe _ _).bind fun _ _ => ?_
    exact hr.runBody (hm.closure ref) hframe
  exact henter m hm

/-! ## Expressions -/

theorem Places.evalEntries (hr : r.Places okPos names) {entries : List TupleEntry}
    (h : ∀ entry ∈ entries, entry.value.Placed okPos) (frame : Nat) (slots : Slots) :
    Stays okPos names (·.IsPlaceable okPos) (r.evalEntries frame entries slots) fun _ => True := by
  induction entries generalizing slots with
  | nil => exact stays_pure trivial
  | cons entry rest ih =>
    obtain ⟨name, e⟩ := entry
    refine (hr.part (h ⟨name, e⟩ List.mem_cons_self) frame).bind fun v _ => ?_
    refine (stays_ofExcept _).bind fun slots' _ => ?_
    exact ih (fun entry' hentry => h entry' (List.mem_cons_of_mem _ hentry)) slots'

theorem Places.evalRule (hr : r.Places okPos names) {e : Expr} (he : e.Placed okPos)
    (frame : Nat) :
    Stays okPos names (·.IsPlaceable okPos) (r.evalRule frame e) fun _ => True := by
  cases e with
  | literal pos value kind => exact stays_pure trivial
  | reference pos name => exact stays_lookup _ _ _
  | binary pos op left right =>
    obtain ⟨-, hleft, hright⟩ := Expr.placed_binary.mp he
    refine (hr.part hleft frame).bind fun a _ => (hr.part hright frame).bind fun b _ => ?_
    exact stays_binary _ _ _ _
  | unary pos op operand =>
    exact (hr.part (Expr.placed_unary.mp he).2 frame).bind fun a _ => stays_unary _ _
  | call pos func args =>
    obtain ⟨-, hfunc, hargs⟩ := Expr.placed_call.mp he
    refine (hr.part hfunc frame).bind fun f _ => ?_
    refine (hr.evalAll (Expr.allPlaced_iff.mp hargs) frame).bind fun vs _ => ?_
    exact hr.invoke f vs
  | index pos value index =>
    obtain ⟨-, hvalue, hindex⟩ := Expr.placed_index.mp he
    refine (hr.part hvalue frame).bind fun c _ => (hr.part hindex frame).bind fun i _ => ?_
    exact (stays_requireInt _ _).bind fun n _ => stays_elementAt _ _
  | array pos elements =>
    have helements := Expr.allPlaced_iff.mp (Expr.placed_array.mp he).2
    exact (hr.evalAll helements frame).bind fun vs _ => stays_newArray _
  | tuple pos entries =>
    have hentries := TupleEntry.allPlaced_iff.mp (Expr.placed_tuple.mp he).2
    exact (hr.evalEntries hentries frame _).bind fun slots _ => stays_newTuple _
  | function pos params statements expression =>
    obtain ⟨-, hstatements, hexpression⟩ := Expr.placed_function.mp he
    exact stays_newClosure
      ⟨Stmt.allPlaced_iff.mp hstatements, Expr.optionPlaced_iff.mp hexpression⟩
  | typeCheck pos value indicator =>
    refine (hr.part (Expr.placed_typeCheck.mp he).2 frame).bind fun v _ => ?_
    split
    · exact stays_pure trivial
    · exact stays_fail _
  | member pos value member =>
    exact (hr.part (Expr.placed_member.mp he).2 frame).bind fun c _ => stays_memberOf _ _

/-! ## Statements -/

theorem stays_declareAll {frame : Nat} (hframe : frame ≠ Machine.globalFrame)
    (vars : List VarDef) :
    Stays okPos names (·.IsPlaceable okPos) (declareAll frame vars) fun _ => True := by
  induction vars with
  | nil => exact stays_pure trivial
  | cons v rest ih => exact (stays_define hframe _ _).bind fun _ _ => ih

theorem Places.storeInitial (hr : r.Places okPos names) {vars : List VarDef}
    (h : VarDef.AllPlaced okPos vars) (frame : Nat) :
    Stays okPos names (·.IsPlaceable okPos) (r.storeInitial frame vars) fun _ => True := by
  induction vars with
  | nil => exact stays_pure trivial
  | cons v rest ih =>
    obtain ⟨name, initializer⟩ := v
    obtain ⟨hinitializer, hrest⟩ := VarDef.allPlaced_cons.mp h
    cases initializer with
    | none => exact ih hrest
    | some e =>
      refine (hr.part hinitializer frame).bind fun v _ => ?_
      exact (stays_assign _ _ _ _).bind fun _ _ => ih hrest

theorem Places.assignTo (hr : r.Places okPos names) {target : Expr} (h : target.Placed okPos)
    (frame : Nat) (v : Value) :
    Stays okPos names (·.IsPlaceable okPos) (r.assignTo frame v target) fun _ => True := by
  unfold Runner.assignTo
  split
  · exact stays_assign _ _ _ _
  · obtain ⟨-, hvalue, hindex⟩ := Expr.placed_index.mp h
    refine (hr.part hvalue frame).bind fun c _ => (hr.part hindex frame).bind fun i _ => ?_
    exact (stays_requireInt _ _).bind fun n _ => stays_setElementAt _ _ _
  · exact (hr.part (Expr.placed_member.mp h).2 frame).bind fun c _ => stays_setMemberOf _ _ _
  · exact stays_fail _

theorem Places.itemsOf (hr : r.Places okPos names) {iterable : Expr} (hi : iterable.Placed okPos)
    {rangeEnd : Option Expr} (hend : ∀ e, rangeEnd = some e → e.Placed okPos) (frame : Nat) :
    Stays okPos names (·.IsPlaceable okPos) (r.itemsOf frame iterable rangeEnd) fun _ => True := by
  cases rangeEnd with
  | some last =>
    refine (hr.part hi frame).bind fun a _ => (stays_requireInt _ _).bind fun n _ => ?_
    refine (hr.part (hend last rfl) frame).bind fun b _ => (stays_requireInt _ _).bind fun k _ => ?_
    exact stays_pure trivial
  | none =>
    refine (hr.part hi frame).bind fun c _ => stays_store.bind fun st _ => ?_
    split
    · exact stays_pure trivial
    · exact stays_pure trivial
    · exact stays_fail _

theorem Places.itemTurn (hr : r.Places okPos names) {body : Block}
    (hbody : (Stmt.block body).Placed okPos) {frame : Nat} (hframe : frame ≠ Machine.globalFrame)
    (loopVar : Option String) (item : Value) :
    Stays okPos names (·.IsPlaceable okPos) (r.itemTurn frame loopVar body item)
      fun _ => True := by
  unfold Runner.itemTurn
  split
  · refine (stays_newFrame _).bind fun inner hinner => ?_
    refine (stays_define hinner _ _).bind fun _ _ => (hr.run hbody hinner).bind fun signal _ => ?_
    exact stays_pure trivial
  · exact (hr.run hbody hframe).bind fun signal _ => stays_pure trivial

theorem Places.holds (hr : r.Places okPos names) {condition : Expr} (h : condition.Placed okPos)
    (frame : Nat) :
    Stays okPos names (·.IsPlaceable okPos) (r.holds condition frame) fun _ => True :=
  (hr.part h frame).bind fun _ _ => stays_store.bind fun _ _ => stays_pure trivial

theorem Places.execRule (hr : r.Places okPos names) {s : Stmt} (hs : s.Placed okPos) {frame : Nat}
    (hframe : frame ≠ Machine.globalFrame) :
    Stays okPos names (·.IsPlaceable okPos) (r.execRule frame s) fun _ => True := by
  cases s with
  | declaration pos vars =>
    refine (stays_declareAll hframe vars).bind fun _ _ => ?_
    exact (hr.storeInitial (Stmt.placed_declaration.mp hs).2 frame).bind fun _ _ =>
      stays_pure trivial
  | assign pos target value =>
    obtain ⟨-, htarget, hvalue⟩ := Stmt.placed_assign.mp hs
    refine (hr.part hvalue frame).bind fun v _ => ?_
    exact (hr.assignTo htarget frame v).bind fun _ _ => stays_pure trivial
  | block body =>
    refine (stays_newFrame frame).bind fun inner hinner => ?_
    have hbody := Stmt.allPlaced_iff.mp (Stmt.placed_block.mp hs).statements
    exact stays_runAll fun s' hs' => hr.run (hbody s' hs') hinner
  | conditional pos condition thenBlock elseBlock =>
    obtain ⟨-, hcondition, hthen, helse⟩ := Stmt.placed_conditional.mp hs
    refine (hr.holds hcondition frame).bind fun b _ => ?_
    cases b with
    | true => exact hr.run (Stmt.placed_block.mpr hthen) hframe
    | false =>
      cases elseBlock with
      | some other => exact hr.run (Stmt.placed_block.mpr (helse other rfl)) hframe
      | none => exact stays_pure trivial
  | whileLoop pos condition body =>
    obtain ⟨-, hcondition, hblock⟩ := Stmt.placed_whileLoop.mp hs
    have hbody := Stmt.placed_block.mpr hblock
    refine stays_takeTurns ((hr.holds hcondition frame).bind fun b _ => ?_) _
    cases b with
    | true => exact (hr.run hbody hframe).bind fun signal _ => stays_pure trivial
    | false => exact stays_pure trivial
  | forLoop pos loopVar body iterable rangeEnd =>
    obtain ⟨-, hiterable, hrangeEnd, hblock⟩ := Stmt.placed_forLoop.mp hs
    have hbody := Stmt.placed_block.mpr hblock
    cases iterable with
    | none =>
      refine stays_takeTurns ?_ _
      exact (hr.run hbody hframe).bind fun signal _ => stays_pure trivial
    | some e =>
      refine (hr.itemsOf hiterable (Expr.optionPlaced_iff.mp hrangeEnd) frame).bind
        fun items _ => ?_
      exact stays_takeFrom (fun v => hr.itemTurn hbody hframe loopVar v) _ _
  | returnStmt pos value =>
    cases value with
    | none => exact stays_pure trivial
    | some e =>
      exact (hr.part (Stmt.placed_returnStmt.mp hs).2 frame).bind fun v _ => stays_pure trivial
  | exitStmt pos => exact stays_pure trivial
  | continueStmt pos => exact stays_pure trivial
  | print pos values =>
    have hvalues := Expr.allPlaced_iff.mp (Stmt.placed_print.mp hs).2
    refine (hr.evalAll hvalues frame).bind fun vs _ => ?_
    exact (stays_print _ _).bind fun _ _ => stays_pure trivial
  | expr pos value =>
    exact (hr.part (Stmt.placed_expr.mp hs).2 frame).bind fun _ _ => stays_pure trivial

/-- Every runner places errors at good positions, at every depth. -/
theorem places_ofDepth (okPos : Pos → Bool) (names : List String) (turns depth : Nat) :
    (ofDepth turns depth).Places okPos names := by
  induction depth with
  | zero =>
    refine ⟨?_, ?_⟩
    · intro e frame _ m hm
      exact leads_throw.mpr ⟨trivial, hm⟩
    · intro s frame _ _ m hm
      exact leads_throw.mpr ⟨trivial, hm⟩
  | succ depth ih =>
    refine ⟨?_, ?_⟩
    · intro e frame he
      exact (ih.evalRule he frame).locating he.pos
    · intro s frame hs hframe
      exact (ih.execRule hs hframe).locating hs.pos

end Runner

/-! ## Whole runs -/

namespace Machine

variable {names : List String}

/-- The diagnostic of a statement at a good position lies at a good position. -/
theorem okPos_of_verdict {s : Stmt} (hs : okPos s.pos = true)
    {result : Except Failure (Option Signal)}
    (hresult : ∀ f, result = .error f → f.IsPlaced okPos) {d : Diagnostic}
    (h : s.verdict result = .ok (some d)) : okPos d.pos = true := by
  cases result with
  | ok signal =>
    cases signal with
    | none => cases h
    | some g =>
      cases h
      exact hs
  | error f =>
    have hf := hresult f rfl
    cases f with
    | error e =>
      cases h
      exact hf
    | tooDeep =>
      cases h
      exact hs
    | abort a => cases h

theorem runStmts_inOrder {r : Runner} (hr : r.Places okPos names) {frame : Nat}
    (hframe : frame ≠ globalFrame) {ss : List Stmt} (hss : ∀ s ∈ ss, s.Placed okPos)
    {seen : List Diagnostic} (hseen : ∀ d ∈ seen, okPos d.pos = true) {m : Machine}
    (hm : m.InOrder okPos names) :
    (runStmts r frame ss seen m).2.InOrder okPos names ∧
      ∀ ds, (runStmts r frame ss seen m).1 = .ok ds → ∀ d ∈ ds, okPos d.pos = true := by
  induction ss generalizing seen m with
  | nil =>
    refine ⟨hm, ?_⟩
    rintro ds ⟨rfl⟩ d hd
    exact hseen d (List.mem_reverse.mp hd)
  | cons s rest ih =>
    rcases hx : r.exec s frame m with ⟨result, m₁⟩
    have hs := hss s List.mem_cons_self
    have hrest : ∀ t ∈ rest, t.Placed okPos := fun t ht => hss t (List.mem_cons_of_mem s ht)
    have hlead := leads_iff.mp (hr.exec s frame hs hframe m hm)
    have hm₁ : m₁.InOrder okPos names := by
      cases result with
      | ok signal => exact (hlead.1 signal m₁ hx).2
      | error f => exact (hlead.2 f m₁ hx).2
    have hplaced : ∀ f, result = .error f → f.IsPlaced okPos := by
      rintro f rfl
      exact (hlead.2 f m₁ hx).1
    cases hv : s.verdict result with
    | error a =>
      rw [runStmts_cons_error hx hv]
      refine ⟨hm₁, ?_⟩
      intro ds hds
      cases hds
    | ok d? =>
      rw [runStmts_cons hx hv]
      refine ih hrest ?_ hm₁
      intro d hd
      rcases List.mem_append.mp hd with hd | hd
      · exact okPos_of_verdict hs.pos hplaced (hv.trans (congrArg _ (Option.mem_toList.mp hd)))
      · exact hseen d hd

/-- A run of a program at good positions reports errors at good positions, and leaves the outermost
frame with the names it had. -/
theorem run_inOrder {p : Program} (hp : ∀ s ∈ p.statements, s.Placed okPos) (limits : Limits)
    {m : Machine} (hm : m.InOrder okPos names) :
    (m.run limits p).2.InOrder okPos names ∧
      ∀ ds, (m.run limits p).1 = .ok ds → ∀ d ∈ ds, okPos d.pos = true := by
  obtain ⟨hframe, hstart⟩ := hm.newFrame globalFrame
  exact runStmts_inOrder (Runner.places_ofDepth okPos names limits.turns limits.depth) hframe hp
    (by simp) hstart

end Machine

end Dee
