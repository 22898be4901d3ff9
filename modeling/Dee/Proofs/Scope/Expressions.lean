import Dee.Proofs.Scope.Steps

/-!
# Expressions of a checked program

A runner that keeps scopes one level down keeps them for every form of expression and for calls.
-/

namespace Dee.Runner

open Eval

variable {b : Epoch} {r : Runner} {m₀ m : Machine} {frame : Nat} {s : Scope}

/-! ## Checked names and lists -/

/-- A name that is referred to without a fault is bound. -/
theorem binds_of_check {pos : Pos} {name : String} (h : (Expr.reference pos name).check s = []) :
    s.binds name = true := by
  rw [Expr.check] at h
  split at h
  next hbinds => exact hbinds
  next => cases h

theorem check_of_mem {es : List Expr} (h : Expr.checkAll s es = []) {e : Expr} (he : e ∈ es) :
    e.check s = [] := by
  induction es with
  | nil => cases he
  | cons e' rest ih =>
    rw [Expr.checkAll, List.append_eq_nil_iff] at h
    rcases List.mem_cons.mp he with rfl | he
    · exact h.1
    · exact ih h.2 he

section

variable (hr : r.KeepsScopes b) (hp : m₀.store.frames.Provides b.frames frame s.frames)
include hr hp

theorem leads_evalAll_checked {es : List Expr} (hk : Machine.Keeps b m₀ m)
    (hc : Expr.checkAll s es = [])
    (hw : Expr.everywhereAll Expr.isWellFormed Stmt.isWellFormed es = true) :
    Leads (r.evalAll es frame) m
      (fun vs m' => (∀ v ∈ vs, v.Since b) ∧ Machine.Keeps b m₀ m')
      (Machine.FailsOtherwise b m₀) := by
  refine Leads.mono (leads_evalAll (Machine.Keeps b m₀) (Value.Since b) ?_ hk)
    (fun vs m' h => h.2) fun _ _ h => h
  intro e he m hk
  exact hr.eval e s frame m₀ m hk hp (check_of_mem hc he) (Expr.everywhereAll_iff.mp hw e he)

theorem leads_evalEntries_checked {entries : List TupleEntry} {slots : Slots}
    (hk : Machine.Keeps b m₀ m) (hc : TupleEntry.checkAll s entries = [])
    (hw : TupleEntry.everywhereAll Expr.isWellFormed Stmt.isWellFormed entries = true)
    (hslots : ∀ v ∈ slots.values, v.Since b) :
    Leads (r.evalEntries frame entries slots) m
      (fun slots' m' => (∀ v ∈ slots'.values, v.Since b) ∧ Machine.Keeps b m₀ m')
      (Machine.FailsOtherwise b m₀) := by
  induction entries generalizing slots m with
  | nil => exact leads_pure.mpr ⟨hslots, hk⟩
  | cons entry rest ih =>
    obtain ⟨name, e⟩ := entry
    rw [TupleEntry.checkAll, List.append_eq_nil_iff] at hc
    obtain ⟨hwe, hwrest⟩ := TupleEntry.everywhereAll_cons.mp hw
    refine (hr.eval e s frame m₀ m hk hp hc.1 hwe).bind ?_
    rintro v m₁ ⟨hv, hk₁⟩
    refine leads_bind.mpr (leads_ofExcept.mpr ⟨fun slots' happ => ?_, fun error herr => ?_⟩)
    · refine ih hk₁ hc.2 hwrest ?_
      rw [Slots.append_values happ]
      intro w hw
      rcases List.mem_append.mp hw with hw | hw
      · exact hslots w hw
      · rw [List.mem_singleton.mp hw]
        exact hv
    · exact hk₁.failsOtherwise ⟨rfl, Slots.append_error herr⟩

end

/-! ## Statements in sequence -/

/-- Statements in sequence, in a frame that hosts the scope they were checked in. -/
theorem leads_runAll_checked (hr : r.KeepsScopes b) {ss : List Stmt} (hs : m.store.Sound b)
    (hh : m.store.frames.Hosts b.frames frame s) (hc : Stmt.checkAll s ss = [])
    (hw : Stmt.everywhereAll Expr.isWellFormed Stmt.isWellFormed ss = true) :
    Leads (runAll (r.exec · frame) ss) m
      (fun signal m' => Signal.Since b signal ∧ ∃ names, Machine.Gains b frame names m m')
      (fun f m' => f.concernsName = false ∧ ∃ names, Machine.Gains b frame names m m') := by
  -- What is still to run was checked behind the names that the frame has gained so far.
  refine leads_runAll (fun rest m' => ∃ names, Machine.Gains b frame names m m' ∧
      Stmt.checkAll (s.declareAll names) rest = [] ∧
      Stmt.everywhereAll Expr.isWellFormed Stmt.isWellFormed rest = true) ?_ ?_ ss
    ⟨[], Machine.gains_nil_iff.mp (Machine.Keeps.refl hs), hc, hw⟩
  · rintro st rest m₁ ⟨names, hg, hc, hw⟩
    rw [Stmt.checkAll, List.append_eq_nil_iff] at hc
    obtain ⟨hwst, hwrest⟩ := Stmt.everywhereAll_cons.mp hw
    refine (hr.exec st _ frame m₁ hg.sound (hh.gain hg.frames) hc.1 hwst).mono ?_ ?_
    · rintro signal m₂ ⟨hsignal, hg₂⟩
      refine ⟨fun _ => ⟨names ++ st.declaredNames, hg.trans hg₂, ?_, hwrest⟩, ?_⟩
      · rw [Scope.declareAll, List.foldl_append]
        exact hc.2
      · rintro g rfl
        exact ⟨hsignal, _, hg.trans hg₂⟩
    · rintro f m₂ ⟨hf, names', hg₂, -⟩
      exact ⟨hf, _, hg.trans hg₂⟩
  · rintro m₁ ⟨names, hg, -, -⟩
    exact ⟨Signal.since_none, names, hg⟩

/-! ## Calls -/

/-- The parameters of a function are new in the frame of a call. -/
theorem leads_bindParams_new {err : Failure → Machine → Prop} {params : List String}
    {args : List Value} (hs : m.store.Sound b) (hh : m.store.frames.Hosts b.frames frame s)
    (hlen : args.length = params.length) (hnew : s.repeated params = [])
    (hargs : ∀ v ∈ args, v.Since b) :
    Leads (bindParams frame params args) m (fun _ m' => Machine.Gains b frame params m m') err := by
  induction params generalizing args m s with
  | nil =>
    exact leads_pure.mpr (Machine.gains_nil_iff.mp (Machine.Keeps.refl hs))
  | cons name params ih =>
    cases args with
    | nil => cases hlen
    | cons v args =>
      obtain ⟨hname, hrest⟩ := Scope.repeated_cons_eq_nil.mp hnew
      refine (leads_define_new hs hh hname (hargs v (by simp))).bind fun _ m₁ hg => ?_
      have hh₁ : m₁.store.frames.Hosts b.frames frame (s.declare name) := hh.gain hg.frames
      refine (ih hg.sound hh₁ (by simpa using hlen) hrest
        fun w hw => hargs w (by simp [hw])).mono ?_ fun _ _ h => h
      rintro _ m₂ hg₂
      exact hg.trans hg₂

/-- The body of a function, in the frame of a call. -/
theorem leads_runBody_checked (hr : r.KeepsScopes b) {c : Closure} (hs : m.store.Sound b)
    (hh : m.store.frames.Hosts b.frames frame s)
    (he : Expr.checkOption s c.expression = []) (hst : Stmt.checkAll s c.statements = [])
    (hwe : Expr.everywhereOption Expr.isWellFormed Stmt.isWellFormed c.expression = true)
    (hws : Stmt.everywhereAll Expr.isWellFormed Stmt.isWellFormed c.statements = true) :
    Leads (r.runBody c frame) m
      (fun v m' => v.Since b ∧ ∃ names, Machine.Gains b frame names m m')
      (fun f m' => f.concernsName = false ∧ ∃ names, Machine.Gains b frame names m m') := by
  have hk : Machine.Keeps b m m := Machine.Keeps.refl hs
  unfold Runner.runBody
  split
  next e hexpr =>
    rw [hexpr] at he hwe
    refine (hr.eval e s frame m m hk hh.provides he hwe).mono ?_ ?_
    · rintro v m' ⟨hv, hk'⟩
      exact ⟨hv, [], Machine.gains_nil_iff.mp hk'⟩
    · rintro f m' ⟨hf, hk'⟩
      exact ⟨hf, [], Machine.gains_nil_iff.mp hk'⟩
  next =>
    refine (leads_runAll_checked hr hs hh hst hws).bind ?_
    rintro signal m' ⟨hsignal, hg⟩
    cases signal with
    | none => exact leads_pure.mpr ⟨trivial, hg⟩
    | some g =>
      cases g with
      | leave v => exact leads_pure.mpr ⟨hsignal v rfl, hg⟩
      | exitLoop => exact leads_fail.mpr ⟨rfl, hg⟩
      | nextTurn => exact leads_fail.mpr ⟨rfl, hg⟩

/-- A call of a value of the run with arguments of the run. -/
theorem leads_invoke_checked (hr : r.KeepsScopes b) {func : Value} {args : List Value}
    (hk : Machine.Keeps b m₀ m) (hfunc : func.Since b) (hargs : ∀ v ∈ args, v.Since b) :
    Leads (r.invoke func args) m (fun v m' => v.Since b ∧ Machine.Keeps b m₀ m')
      (Machine.FailsOtherwise b m₀) := by
  refine leads_invoke ?_ fun e he => hk.failsOtherwise ⟨rfl, he⟩
  rintro ref rfl hlen
  obtain ⟨s, pos, hprov, hcheck, hruns⟩ := hk.sound.closures ref hfunc
  rw [Expr.check, List.append_eq_nil_iff, List.append_eq_nil_iff, List.map_eq_nil_iff] at hcheck
  obtain ⟨⟨hparams, hexpr⟩, hstmts⟩ := hcheck
  obtain ⟨-, hwstatements, hwexpression⟩ := Expr.everywhere_function.mp hruns
  refine leads_bind.mpr (leads_make.mpr ?_)
  have hsound := hk.sound.newFrame (m.store.closure ref).frame
  have hhosts : (m.store.newFrame (m.store.closure ref).frame).2.frames.Hosts b.frames
      m.store.frames.frames.size s.enterFunction :=
    Frames.hosts_push (s := { s with inFunction := true }) hprov hk.sound.frames_le
  refine (leads_bindParams_new hsound hhosts hlen hparams hargs).bind fun _ m₁ hg => ?_
  refine (leads_runBody_checked hr hg.sound (hhosts.gain hg.frames) hexpr hstmts
    hwexpression hwstatements).mono ?_ ?_
  · rintro v m' ⟨hv, names, hg'⟩
    exact ⟨hv, hk.trans (hg.trans hg').keeps_of_newFrame⟩
  · rintro f m' ⟨hf, names, hg'⟩
    exact ⟨hf, hk.trans (hg.trans hg').keeps_of_newFrame⟩

/-! ## All expressions -/

theorem leads_evalRule_checked (hr : r.KeepsScopes b)
    (hp : m₀.store.frames.Provides b.frames frame s.frames) (hk : Machine.Keeps b m₀ m)
    {e : Expr} (hc : e.check s = []) (hw : e.WellFormed) :
    Leads (r.evalRule frame e) m (fun v m' => v.Since b ∧ Machine.Keeps b m₀ m')
      (Machine.FailsOtherwise b m₀) := by
  cases e with
  | literal pos value kind => exact leads_pure.mpr ⟨trivial, hk⟩
  | reference pos name => exact leads_lookup_bound hk hp (binds_of_check hc) r.depth
  | binary pos op left right =>
    rw [Expr.check, List.append_eq_nil_iff] at hc
    obtain ⟨-, hwleft, hwright⟩ := Expr.everywhere_binary.mp hw
    refine (hr.eval left s frame m₀ m hk hp hc.1 hwleft).bind ?_
    rintro x m₁ ⟨hx, hk₁⟩
    refine (hr.eval right s frame m₀ m₁ hk₁ hp hc.2 hwright).bind ?_
    rintro y m₂ ⟨hy, hk₂⟩
    exact (leads_binary r.depth op x y).mono (fun _ _ hj => hk₂.joins hx hy hj)
      fun _ _ hf => hk₂.failsOtherwise hf
  | unary pos op operand =>
    rw [Expr.check] at hc
    obtain ⟨-, hwoperand⟩ := Expr.everywhere_unary.mp hw
    refine (hr.eval operand s frame m₀ m hk hp hc hwoperand).bind ?_
    rintro x m₁ ⟨hx, hk₁⟩
    refine (leads_unary op x).mono ?_ fun _ _ hf => hk₁.failsOtherwise hf
    rintro v m' ⟨rfl, sc, rfl⟩
    exact ⟨trivial, hk₁⟩
  | call pos func args =>
    rw [Expr.check, List.append_eq_nil_iff] at hc
    obtain ⟨-, hwfunc, hwargs⟩ := Expr.everywhere_call.mp hw
    refine (hr.eval func s frame m₀ m hk hp hc.1 hwfunc).bind ?_
    rintro f m₁ ⟨hf, hk₁⟩
    refine (leads_evalAll_checked hr hp hk₁ hc.2 hwargs).bind ?_
    rintro vs m₂ ⟨hvs, hk₂⟩
    exact leads_invoke_checked hr hk₂ hf hvs
  | index pos value index =>
    rw [Expr.check, List.append_eq_nil_iff] at hc
    obtain ⟨-, hwvalue, hwindex⟩ := Expr.everywhere_index.mp hw
    refine (hr.eval value s frame m₀ m hk hp hc.1 hwvalue).bind ?_
    rintro x m₁ ⟨hx, hk₁⟩
    refine (hr.eval index s frame m₀ m₁ hk₁ hp hc.2 hwindex).bind ?_
    rintro y m₂ ⟨_, hk₂⟩
    refine Leads.bind ((leads_requireInt .index y).mono (fun _ _ h => h)
      fun _ _ hf => hk₂.failsOtherwise hf) ?_
    rintro n m₃ ⟨rfl, -⟩
    refine (leads_elementAt x n).mono ?_ fun _ _ hf => hk₂.failsOtherwise hf
    rintro v m' ⟨rfl, rfl | hv⟩
    · exact ⟨trivial, hk₂⟩
    · exact ⟨hk₂.sound.since_of_holds hx hv, hk₂⟩
  | array pos elements =>
    rw [Expr.check] at hc
    obtain ⟨-, hwelements⟩ := Expr.everywhere_array.mp hw
    refine (leads_evalAll_checked hr hp hk hc hwelements).bind ?_
    rintro vs m₁ ⟨hvs, hk₁⟩
    obtain ⟨hv, hs⟩ := hk₁.sound.newArray (c := ⟨vs.toArray⟩) (by simpa using hvs)
    exact leads_make.mpr ⟨hv, hk₁.trans ⟨hs, Frames.Keeps.refl _⟩⟩
  | tuple pos entries =>
    rw [Expr.check] at hc
    obtain ⟨-, hwentries⟩ := Expr.everywhere_tuple.mp hw
    refine (leads_evalEntries_checked hr hp hk hc hwentries (by simp [Slots.values])).bind ?_
    rintro slots m₁ ⟨hslots, hk₁⟩
    obtain ⟨hv, hs⟩ := hk₁.sound.newTuple hslots
    exact leads_make.mpr ⟨hv, hk₁.trans ⟨hs, Frames.Keeps.refl _⟩⟩
  | function pos params statements expression =>
    obtain ⟨hv, hs⟩ := hk.sound.newClosure (c := ⟨params, statements, expression, frame⟩)
      ⟨s, pos, hp.mono hk.frames, hc, hw⟩
    show Leads (Eval.make (·.newClosure ⟨params, statements, expression, frame⟩)) m _ _
    exact leads_make.mpr ⟨hv, hk.trans ⟨hs, Frames.Keeps.refl _⟩⟩
  | typeCheck pos value indicator =>
    rw [Expr.check] at hc
    obtain ⟨-, hwvalue⟩ := Expr.everywhere_typeCheck.mp hw
    refine (hr.eval value s frame m₀ m hk hp hc hwvalue).bind ?_
    rintro x m₁ ⟨hx, hk₁⟩
    cases Kind.ofIndicator? indicator with
    | some kind => exact leads_pure.mpr ⟨trivial, hk₁⟩
    | none =>
      refine leads_fail.mpr ?_
      exact hk₁.failsOtherwise ⟨rfl, rfl⟩
  | member pos value member =>
    rw [Expr.check] at hc
    obtain ⟨-, hwvalue⟩ := Expr.everywhere_member.mp hw
    refine (hr.eval value s frame m₀ m hk hp hc hwvalue).bind ?_
    rintro x m₁ ⟨hx, hk₁⟩
    refine (leads_memberOf x member).mono ?_ fun _ _ hf => hk₁.failsOtherwise hf
    rintro v m' ⟨rfl, rfl | hv⟩
    · exact ⟨trivial, hk₁⟩
    · exact ⟨hk₁.sound.since_of_holds hx hv, hk₁⟩

end Dee.Runner
