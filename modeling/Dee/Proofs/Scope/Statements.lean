import Dee.Proofs.Scope.Expressions

/-!
# Statements of a checked program

A runner that keeps scopes one level down keeps them for every form of statement. So the runner of
every depth keeps them, by induction on the depth.
-/

namespace Dee.Runner

open Eval

variable {b : Epoch} {r : Runner} {m₀ m : Machine} {frame : Nat} {s : Scope}

/-! ## Declarations -/

/-- The names of a declaration are new in the frame it stands in. -/
theorem leads_declareAll_new {err : Failure → Machine → Prop} {vars : List VarDef}
    (hs : m.store.Sound b) (hh : m.store.frames.Hosts b.frames frame s)
    (hnew : s.repeated (vars.map VarDef.name) = []) :
    Leads (declareAll frame vars) m
      (fun _ m' => Machine.Gains b frame (vars.map VarDef.name) m m') err := by
  induction vars generalizing m s with
  | nil => exact leads_pure.mpr (Machine.gains_nil_iff.mp (Machine.Keeps.refl hs))
  | cons v vars ih =>
    obtain ⟨hname, hrest⟩ := Scope.repeated_cons_eq_nil.mp hnew
    refine (leads_define_new (v := Value.none) hs hh hname trivial).bind fun _ m₁ hg => ?_
    have hh₁ : m₁.store.frames.Hosts b.frames frame (s.declare v.name) := hh.gain hg.frames
    refine (ih hg.sound hh₁ hrest).mono ?_ fun _ _ h => h
    intro _ m₂ hg₂
    exact hg.trans hg₂

theorem leads_storeInitial_checked (hr : r.KeepsScopes b)
    (hp : m₀.store.frames.Provides b.frames frame s.frames) {vars : List VarDef}
    (hk : Machine.Keeps b m₀ m) (hnames : ∀ v ∈ vars, s.binds v.name = true)
    (hc : VarDef.checkAll s vars = [])
    (hw : VarDef.everywhereAll Expr.isWellFormed Stmt.isWellFormed vars = true) :
    Leads (r.storeInitial frame vars) m (fun _ m' => Machine.Keeps b m₀ m')
      (Machine.FailsOtherwise b m₀) := by
  induction vars generalizing m with
  | nil => exact leads_pure.mpr hk
  | cons v vars ih =>
    obtain ⟨name, initializer⟩ := v
    rw [VarDef.checkAll, List.append_eq_nil_iff] at hc
    obtain ⟨hwinitializer, hwrest⟩ := VarDef.everywhereAll_cons.mp hw
    have hrest : ∀ v ∈ vars, s.binds v.name = true := fun v hv => hnames v (by simp [hv])
    cases initializer with
    | none => exact ih hk hrest hc.2 hwrest
    | some e =>
      refine (hr.eval e s frame m₀ m hk hp hc.1 hwinitializer).bind ?_
      rintro v m₁ ⟨hv, hk₁⟩
      have hname : s.binds name = true := hnames ⟨name, some e⟩ (by simp)
      refine (leads_assign_bound hk₁ hp hname hv r.depth).bind fun _ m₂ hk₂ => ?_
      exact ih hk₂ hrest hc.2 hwrest

/-- A declaration declares its names and then evaluates the initial values. -/
theorem leads_declaration_checked (hr : r.KeepsScopes b) {pos : Pos} {vars : List VarDef}
    (hs : m.store.Sound b) (hh : m.store.frames.Hosts b.frames frame s)
    (hc : (Stmt.declaration pos vars).check s = []) (hw : (Stmt.declaration pos vars).WellFormed) :
    Leads (r.execRule frame (.declaration pos vars)) m
      (fun signal m' => Signal.Since b signal ∧
        Machine.Gains b frame (vars.map VarDef.name) m m')
      (fun f m' => f.concernsName = false ∧
        Machine.Gains b frame (vars.map VarDef.name) m m') := by
  rw [Stmt.check, List.append_eq_nil_iff, List.map_eq_nil_iff] at hc
  obtain ⟨-, hwvars⟩ := Stmt.everywhere_declaration.mp hw
  refine (leads_declareAll_new hs hh hc.1).bind fun _ m₁ hg => ?_
  have hh₁ := hh.gain hg.frames
  have hnames : ∀ v ∈ vars, (s.declareAll (vars.map VarDef.name)).binds v.name = true := by
    intro v hv
    obtain ⟨scope, rest, hscopes⟩ := List.exists_cons_of_ne_nil hh.nonempty
    rw [Scope.binds, Scope.frames_declareAll hscopes, List.any_cons, Bool.or_eq_true]
    refine Or.inl (List.contains_iff_mem.mpr (List.mem_append.mpr (Or.inl ?_)))
    exact List.mem_reverse.mpr (List.mem_map_of_mem hv)
  have hback : ∀ {m' : Machine}, Machine.Keeps b m₁ m' →
      Machine.Gains b frame (vars.map VarDef.name) m m' := by
    intro m' hk
    have htrans := hg.trans (Machine.gains_nil_iff.mp hk)
    rwa [List.append_nil] at htrans
  refine Leads.bind ((leads_storeInitial_checked hr hh₁.provides (Machine.Keeps.refl hg.sound)
    hnames hc.2 hwvars).mono (fun _ _ h => h) fun _ _ hf => ⟨hf.1, hback hf.2⟩) ?_
  intro _ m₂ hk₂
  exact leads_pure.mpr ⟨Signal.since_none, hback hk₂⟩

/-! ## Assignments -/

theorem leads_assignTo_checked (hr : r.KeepsScopes b)
    (hp : m₀.store.frames.Provides b.frames frame s.frames) (hk : Machine.Keeps b m₀ m)
    {v : Value} (hv : v.Since b) {target : Expr} (hc : target.check s = [])
    (hw : target.WellFormed) :
    Leads (r.assignTo frame v target) m (fun _ m' => Machine.Keeps b m₀ m')
      (Machine.FailsOtherwise b m₀) := by
  unfold assignTo
  split
  next pos name =>
    exact leads_assign_bound hk hp (binds_of_check hc) hv r.depth
  next pos value index =>
    rw [Expr.check, List.append_eq_nil_iff] at hc
    obtain ⟨-, hwvalue, hwindex⟩ := Expr.everywhere_index.mp hw
    refine (hr.eval value s frame m₀ m hk hp hc.1 hwvalue).bind ?_
    rintro x m₁ ⟨hx, hk₁⟩
    refine (hr.eval index s frame m₀ m₁ hk₁ hp hc.2 hwindex).bind ?_
    rintro y m₂ ⟨_, hk₂⟩
    refine Leads.bind ((leads_requireInt .index y).mono (fun _ _ h => h)
      fun _ _ hf => hk₂.failsOtherwise hf) ?_
    rintro n m₃ ⟨rfl, -⟩
    exact (leads_setElementAt x n v).mono (fun _ _ hwrites => hk₂.writesElement hv hwrites)
      fun _ _ hf => hk₂.failsOtherwise hf
  next pos value member =>
    rw [Expr.check] at hc
    obtain ⟨-, hwvalue⟩ := Expr.everywhere_member.mp hw
    refine (hr.eval value s frame m₀ m hk hp hc hwvalue).bind ?_
    rintro x m₁ ⟨hx, hk₁⟩
    exact (leads_setMemberOf x member v).mono (fun _ _ hwrites => hk₁.writesElement hv hwrites)
      fun _ _ hf => hk₁.failsOtherwise hf
  next => exact leads_fail.mpr (hk.failsOtherwise ⟨rfl, rfl⟩)

/-! ## Blocks -/

/-- Statements in a new frame under one that hosts their scope. -/
theorem leads_block_checked (hr : r.KeepsScopes b) {body : Block}
    (hk : Machine.Keeps b m₀ m) (hp : m₀.store.frames.Provides b.frames frame s.frames)
    (hc : Stmt.checkAll s.enter body.statements = [])
    (hw : Stmt.everywhereAll Expr.isWellFormed Stmt.isWellFormed body.statements = true) :
    Leads (r.execRule frame (.block body)) m
      (fun signal m' => Signal.Since b signal ∧ Machine.Keeps b m₀ m')
      (Machine.FailsOtherwise b m₀) := by
  refine leads_bind.mpr (leads_make.mpr ?_)
  have hhosts : (m.store.newFrame frame).2.frames.Hosts b.frames
      m.store.frames.frames.size s.enter :=
    Frames.hosts_push (hp.mono hk.frames) hk.sound.frames_le
  refine (leads_runAll_checked hr (hk.sound.newFrame frame) hhosts hc hw).mono ?_ ?_
  · rintro signal m' ⟨hsignal, names, hg⟩
    exact ⟨hsignal, hk.trans hg.keeps_of_newFrame⟩
  · rintro f m' ⟨hf, names, hg⟩
    exact ⟨hf, hk.trans hg.keeps_of_newFrame⟩

/-- A block as a part: it declares nothing where it stands. -/
theorem leads_exec_block (hr : r.KeepsScopes b) (body : Block)
    (hk : Machine.Keeps b m₀ m) (hh : m₀.store.frames.Hosts b.frames frame s)
    (hc : Stmt.checkAll s.enter body.statements = [])
    (hw : Stmt.everywhereAll Expr.isWellFormed Stmt.isWellFormed body.statements = true) :
    Leads (r.exec (.block body) frame) m
      (fun signal m' => Signal.Since b signal ∧ Machine.Keeps b m₀ m')
      (Machine.FailsOtherwise b m₀) := by
  obtain ⟨pos, statements⟩ := body
  have hcheck : (Stmt.block ⟨pos, statements⟩).check s = [] := by
    rw [Stmt.check]
    exact hc
  have hruns : (Stmt.block ⟨pos, statements⟩).WellFormed := Stmt.everywhere_block.mpr ⟨rfl, hw⟩
  refine (hr.exec (.block ⟨pos, statements⟩) s frame m hk.sound (hh.mono hk.frames) hcheck
    hruns).mono ?_ ?_
  · rintro signal m' ⟨hsignal, hg⟩
    exact ⟨hsignal, hk.trans (Machine.gains_nil_iff.mp hg)⟩
  · rintro f m' ⟨hf, names, hg, hnames⟩
    have hnil : names = [] := by
      rcases hnames with rfl | ⟨-, rfl⟩ <;> rfl
    subst hnil
    exact ⟨hf, hk.trans (Machine.gains_nil_iff.mp hg)⟩

/-! ## Loops -/

/-- The signal of a loop's body, as the loop takes it. -/
theorem since_ofSignal {signal signal' : Option Signal} (h : Signal.Since b signal)
    (hstop : Turn.ofSignal signal = .stop signal') : Signal.Since b signal' := by
  cases signal with
  | none => cases hstop
  | some g =>
    cases g with
    | exitLoop =>
      cases hstop
      exact Signal.since_none
    | nextTurn => cases hstop
    | leave v =>
      cases hstop
      exact h

theorem leads_holds_checked (hr : r.KeepsScopes b)
    (hp : m₀.store.frames.Provides b.frames frame s.frames) (hk : Machine.Keeps b m₀ m)
    {condition : Expr} (hc : condition.check s = []) (hw : condition.WellFormed) :
    Leads (r.holds condition frame) m (fun _ m' => Machine.Keeps b m₀ m')
      (Machine.FailsOtherwise b m₀) := by
  refine (hr.eval condition s frame m₀ m hk hp hc hw).bind ?_
  rintro v m₁ ⟨_, hk₁⟩
  exact leads_bind.mpr (leads_store.mpr hk₁)

/-- The items of a loop belong to the run. -/
theorem leads_itemsOf_checked (hr : r.KeepsScopes b)
    (hp : m₀.store.frames.Provides b.frames frame s.frames) (hk : Machine.Keeps b m₀ m)
    {iterable : Expr} {rangeEnd : Option Expr} (hc : iterable.check s = [])
    (hce : Expr.checkOption s rangeEnd = []) (hw : iterable.WellFormed)
    (hwe : Expr.everywhereOption Expr.isWellFormed Stmt.isWellFormed rangeEnd = true) :
    Leads (r.itemsOf frame iterable rangeEnd) m
      (fun items m' => (∀ k < items.count, (items.item k).Since b) ∧ Machine.Keeps b m₀ m')
      (Machine.FailsOtherwise b m₀) := by
  cases rangeEnd with
  | some last =>
    refine (hr.eval iterable s frame m₀ m hk hp hc hw).bind ?_
    rintro x m₁ ⟨_, hk₁⟩
    refine Leads.bind ((leads_requireInt .rangeStart x).mono (fun _ _ h => h)
      fun _ _ hf => hk₁.failsOtherwise hf) ?_
    rintro first m₂ ⟨rfl, -⟩
    refine (hr.eval last s frame m₀ _ hk₁ hp hce hwe).bind ?_
    rintro y m₃ ⟨_, hk₃⟩
    refine Leads.bind ((leads_requireInt .rangeEnd y).mono (fun _ _ h => h)
      fun _ _ hf => hk₃.failsOtherwise hf) ?_
    rintro last m₄ ⟨rfl, -⟩
    refine leads_pure.mpr ⟨fun k _ => ?_, hk₃⟩
    unfold Items.ofRange
    dsimp only
    split <;> trivial
  | none =>
    refine (hr.eval iterable s frame m₀ m hk hp hc hw).bind ?_
    rintro x m₁ ⟨hx, hk₁⟩
    refine leads_bind.mpr (leads_store.mpr ?_)
    cases x with
    | array ref =>
      refine leads_pure.mpr ⟨fun k hlt => ?_, hk₁⟩
      have hlt : k < (m₁.store.cells ref).items.size := hlt
      refine hk₁.sound.cells ref hx _ ?_
      simp [Items.ofArray, Array.getD, hlt]
    | tuple ref =>
      refine leads_pure.mpr ⟨fun k hlt => ?_, hk₁⟩
      have hlt : k < (m₁.store.slots ref).values.toArray.size := hlt
      refine hk₁.sound.slots ref hx _ ?_
      simp only [Items.ofArray, Array.getD, hlt, dif_pos]
      exact List.getElem_mem _
    | scalar sc =>
      refine leads_fail.mpr ?_
      exact hk₁.failsOtherwise ⟨rfl, rfl⟩
    | func ref =>
      refine leads_fail.mpr ?_
      exact hk₁.failsOtherwise ⟨rfl, rfl⟩

/-- The scope that the body of a loop is checked in. -/
def bodyScope (s : Scope) : Option String → Scope
  | none => s.enterLoop.enter
  | some name => (s.enterLoop.enter.declare name).enter

theorem leads_itemTurn_checked (hr : r.KeepsScopes b) (hk : Machine.Keeps b m₀ m)
    (hh : m₀.store.frames.Hosts b.frames frame s) {loopVar : Option String} {body : Block}
    (hc : Stmt.checkAll (bodyScope s loopVar) body.statements = [])
    (hw : Stmt.everywhereAll Expr.isWellFormed Stmt.isWellFormed body.statements = true)
    {item : Value} (hitem : item.Since b) :
    Leads (r.itemTurn frame loopVar body item) m
      (fun t m' => (∀ signal, t = .stop signal → Signal.Since b signal) ∧
        Machine.Keeps b m₀ m')
      (Machine.FailsOtherwise b m₀) := by
  cases loopVar with
  | none =>
    have hh' : m₀.store.frames.Hosts b.frames frame s.enterLoop :=
      ⟨hh.provides, hh.nonempty, hh.fits⟩
    refine (leads_exec_block hr body hk hh' hc hw).bind ?_
    rintro signal m₁ ⟨hsignal, hk₁⟩
    exact leads_pure.mpr ⟨fun _ hstop => since_ofSignal hsignal hstop, hk₁⟩
  | some name =>
    refine leads_bind.mpr (leads_make.mpr ?_)
    have hhosts : (m.store.newFrame frame).2.frames.Hosts b.frames m.store.frames.frames.size
        s.enterLoop.enter :=
      Frames.hosts_push (s := s.enterLoop) (hh.provides.mono hk.frames) hk.sound.frames_le
    refine (leads_define_new (hk.sound.newFrame frame) hhosts rfl hitem).bind fun _ m₁ hg => ?_
    have hback : ∀ {m' : Machine}, Machine.Keeps b m₁ m' → Machine.Keeps b m₀ m' := by
      intro m' hk'
      exact hk.trans (hg.trans (Machine.gains_nil_iff.mp hk')).keeps_of_newFrame
    refine Leads.bind ((leads_exec_block hr body (Machine.Keeps.refl hg.sound)
      (hhosts.gain hg.frames) hc hw).mono (fun _ _ h => h) fun _ _ hf => ⟨hf.1, hback hf.2⟩) ?_
    rintro signal m₂ ⟨hsignal, hk₂⟩
    exact leads_pure.mpr ⟨fun _ hstop => since_ofSignal hsignal hstop, hback hk₂⟩

/-- A loop that repeats a turn, which tells when to stop. -/
theorem leads_takeTurns_checked {turn : Eval Turn} (hk : Machine.Keeps b m₀ m)
    (hturn : ∀ m, Machine.Keeps b m₀ m → Leads turn m
      (fun t m' => (∀ signal, t = .stop signal → Signal.Since b signal) ∧ Machine.Keeps b m₀ m')
      (Machine.FailsOtherwise b m₀)) (turns : Nat) :
    Leads (takeTurns turn turns) m
      (fun signal m' => Signal.Since b signal ∧ Machine.Keeps b m₀ m')
      (Machine.FailsOtherwise b m₀) := by
  refine leads_takeTurns (Machine.Keeps b m₀) (fun m hk => ?_) (fun m hk => ⟨rfl, hk⟩)
    turns hk
  exact (hturn m hk).mono
    (fun t m' ht => ⟨fun _ => ht.2, fun signal hstop => ⟨ht.1 signal hstop, ht.2⟩⟩) fun _ _ h => h

theorem leads_whileLoop_checked (hr : r.KeepsScopes b) (hs : m.store.Sound b)
    (hh : m.store.frames.Hosts b.frames frame s) {pos : Pos} {condition : Expr} {body : Block}
    (hcc : condition.check s = []) (hwc : condition.WellFormed)
    (hc : Stmt.checkAll s.enterLoop.enter body.statements = [])
    (hw : Stmt.everywhereAll Expr.isWellFormed Stmt.isWellFormed body.statements = true) :
    Leads (r.execRule frame (.whileLoop pos condition body)) m
      (fun signal m' => Signal.Since b signal ∧ Machine.Keeps b m m')
      (Machine.FailsOtherwise b m) := by
  refine leads_takeTurns_checked (Machine.Keeps.refl hs) (fun m₁ hk₁ => ?_) r.turns
  have hh' : m.store.frames.Hosts b.frames frame s.enterLoop := ⟨hh.provides, hh.nonempty, hh.fits⟩
  refine (leads_holds_checked hr hh.provides hk₁ hcc hwc).bind fun holds m₂ hk₂ => ?_
  cases holds with
  | false =>
    refine leads_pure.mpr ⟨fun signal hstop => ?_, hk₂⟩
    cases hstop
    exact Signal.since_none
  | true =>
    refine (leads_exec_block hr body hk₂ hh' hc hw).bind ?_
    rintro signal m₃ ⟨hsignal, hk₃⟩
    exact leads_pure.mpr ⟨fun _ hstop => since_ofSignal hsignal hstop, hk₃⟩

theorem leads_forLoop_checked (hr : r.KeepsScopes b) (hs : m.store.Sound b)
    (hh : m.store.frames.Hosts b.frames frame s) {pos : Pos} {loopVar : Option String}
    {body : Block} {iterable rangeEnd : Option Expr}
    (hc : (Stmt.forLoop pos loopVar body iterable rangeEnd).check s = [])
    (hw : (Stmt.forLoop pos loopVar body iterable rangeEnd).WellFormed) :
    Leads (r.execRule frame (.forLoop pos loopVar body iterable rangeEnd)) m
      (fun signal m' => Signal.Since b signal ∧ Machine.Keeps b m m')
      (Machine.FailsOtherwise b m) := by
  obtain ⟨bodyPos, statements⟩ := body
  obtain ⟨⟨hci, hce⟩, hcb⟩ : (Expr.checkOption s iterable = [] ∧ Expr.checkOption s rangeEnd = []) ∧
      Stmt.checkAll (bodyScope s loopVar) statements = [] := by
    cases loopVar <;> rw [Stmt.check, List.append_eq_nil_iff, List.append_eq_nil_iff] at hc <;>
      exact hc
  obtain ⟨hshape, hwi, hwe, hwb⟩ := Stmt.everywhere_forLoop.mp hw
  have hk : Machine.Keeps b m m := Machine.Keeps.refl hs
  cases iterable with
  | none =>
    -- A loop without items has no variable, so its body is checked as it runs.
    cases loopVar with
    | some name => simp [Stmt.isWellFormed] at hshape
    | none =>
      refine leads_takeTurns_checked hk (fun m₁ hk₁ => ?_) r.turns
      have hh' : m.store.frames.Hosts b.frames frame s.enterLoop :=
        ⟨hh.provides, hh.nonempty, hh.fits⟩
      refine (leads_exec_block hr ⟨bodyPos, statements⟩ hk₁ hh' hcb hwb).bind ?_
      rintro signal m₂ ⟨hsignal, hk₂⟩
      exact leads_pure.mpr ⟨fun _ hstop => since_ofSignal hsignal hstop, hk₂⟩
  | some source =>
    refine (leads_itemsOf_checked hr hh.provides hk hci hce hwi hwe).bind ?_
    rintro items m₁ ⟨hitems, hk₁⟩
    refine leads_forEach (Machine.Keeps b m) (fun k m₂ hlt hk₂ => ?_)
      (fun m₂ hk₂ => ⟨Signal.since_none, hk₂⟩) hk₁
    exact (leads_itemTurn_checked hr hk₂ hh hcb hwb (hitems k hlt)).mono
      (fun t m' ht => ⟨fun _ => ht.2, fun signal hstop => ⟨ht.1 signal hstop, ht.2⟩⟩)
      fun _ _ h => h

/-! ## All statements -/

/-- Every statement but a declaration leaves the names of all frames as they are. -/
theorem leads_execRule_other (hr : r.KeepsScopes b) (hs : m.store.Sound b)
    (hh : m.store.frames.Hosts b.frames frame s) {st : Stmt} (hc : st.check s = [])
    (hw : st.WellFormed) (hother : ∀ pos vars, st ≠ .declaration pos vars) :
    Leads (r.execRule frame st) m
      (fun signal m' => Signal.Since b signal ∧ Machine.Keeps b m m')
      (Machine.FailsOtherwise b m) := by
  have hk : Machine.Keeps b m m := Machine.Keeps.refl hs
  have hp := hh.provides
  cases st with
  | declaration pos vars => exact absurd rfl (hother pos vars)
  | assign pos target value =>
    rw [Stmt.check, List.append_eq_nil_iff] at hc
    obtain ⟨-, hwtarget, hwvalue⟩ := Stmt.everywhere_assign.mp hw
    refine (hr.eval value s frame m m hk hp hc.1 hwvalue).bind ?_
    rintro v m₁ ⟨hv, hk₁⟩
    refine (leads_assignTo_checked hr hp hk₁ hv hc.2 hwtarget).bind fun _ m₂ hk₂ => ?_
    exact leads_pure.mpr ⟨Signal.since_none, hk₂⟩
  | block body =>
    obtain ⟨pos, statements⟩ := body
    rw [Stmt.check] at hc
    obtain ⟨-, hwbody⟩ := Stmt.everywhere_block.mp hw
    exact leads_block_checked hr hk hp hc hwbody
  | conditional pos condition thenBlock elseBlock =>
    obtain ⟨thenPos, body⟩ := thenBlock
    cases elseBlock with
    | none =>
      rw [Stmt.check, List.append_eq_nil_iff] at hc
      obtain ⟨-, hwcondition, hwbody⟩ := Stmt.everywhere_conditional_none.mp hw
      refine (leads_holds_checked hr hp hk hc.1 hwcondition).bind fun holds m₁ hk₁ => ?_
      cases holds with
      | true => exact leads_exec_block hr _ hk₁ hh hc.2 hwbody
      | false => exact leads_pure.mpr ⟨Signal.since_none, hk₁⟩
    | some other =>
      obtain ⟨elsePos, other⟩ := other
      rw [Stmt.check, List.append_eq_nil_iff, List.append_eq_nil_iff] at hc
      obtain ⟨-, hwcondition, hwbody, hwother⟩ := Stmt.everywhere_conditional_some.mp hw
      refine (leads_holds_checked hr hp hk hc.1.1 hwcondition).bind fun holds m₁ hk₁ => ?_
      cases holds with
      | true => exact leads_exec_block hr _ hk₁ hh hc.1.2 hwbody
      | false => exact leads_exec_block hr _ hk₁ hh hc.2 hwother
  | whileLoop pos condition body =>
    obtain ⟨bodyPos, statements⟩ := body
    rw [Stmt.check, List.append_eq_nil_iff] at hc
    obtain ⟨-, hwcondition, hwbody⟩ := Stmt.everywhere_whileLoop.mp hw
    exact leads_whileLoop_checked hr hs hh hc.1 hwcondition hc.2 hwbody
  | forLoop pos loopVar body iterable rangeEnd => exact leads_forLoop_checked hr hs hh hc hw
  | returnStmt pos value =>
    rw [Stmt.check, List.append_eq_nil_iff] at hc
    obtain ⟨-, hwvalue⟩ := Stmt.everywhere_returnStmt.mp hw
    cases value with
    | none =>
      refine leads_pure.mpr ⟨fun v hv => ?_, hk⟩
      cases hv
      trivial
    | some e =>
      refine (hr.eval e s frame m m hk hp hc.2 hwvalue).bind ?_
      rintro v m₁ ⟨hv, hk₁⟩
      refine leads_pure.mpr ⟨fun w hw => ?_, hk₁⟩
      cases hw
      exact hv
  | exitStmt pos => exact leads_pure.mpr ⟨by rintro v ⟨⟩, hk⟩
  | continueStmt pos => exact leads_pure.mpr ⟨by rintro v ⟨⟩, hk⟩
  | print pos values =>
    rw [Stmt.check] at hc
    obtain ⟨-, hwvalues⟩ := Stmt.everywhere_print.mp hw
    refine (leads_evalAll_checked hr hp hk hc hwvalues).bind ?_
    rintro vs m₁ ⟨_, hk₁⟩
    refine Leads.bind ((leads_print r.depth vs).mono (fun _ _ h => h)
      fun _ _ hf => hk₁.failsOtherwise hf) ?_
    intro _ m₂ hstore
    refine leads_pure.mpr ⟨Signal.since_none, ?_⟩
    exact ⟨by rw [hstore]; exact hk₁.sound, by rw [hstore]; exact hk₁.frames⟩
  | expr pos value =>
    rw [Stmt.check] at hc
    obtain ⟨-, hwvalue⟩ := Stmt.everywhere_expr.mp hw
    refine (hr.eval value s frame m m hk hp hc hwvalue).bind ?_
    rintro v m₁ ⟨_, hk₁⟩
    exact leads_pure.mpr ⟨Signal.since_none, hk₁⟩

theorem leads_execRule_checked (hr : r.KeepsScopes b) (hs : m.store.Sound b)
    (hh : m.store.frames.Hosts b.frames frame s) {st : Stmt} (hc : st.check s = [])
    (hw : st.WellFormed) :
    Leads (r.execRule frame st) m
      (fun signal m' => Signal.Since b signal ∧ Machine.Gains b frame st.declaredNames m m')
      (fun f m' => f.concernsName = false ∧ Machine.Gains b frame st.declaredNames m m') := by
  by_cases hdecl : ∃ pos vars, st = .declaration pos vars
  · obtain ⟨pos, vars, rfl⟩ := hdecl
    exact leads_declaration_checked hr hs hh hc hw
  · have hother : ∀ pos vars, st ≠ .declaration pos vars := fun pos vars h => hdecl ⟨pos, vars, h⟩
    have hnames : st.declaredNames = [] := by
      unfold Stmt.declaredNames
      split
      · exact absurd rfl (hother _ _)
      · rfl
    rw [hnames]
    refine (leads_execRule_other hr hs hh hc hw hother).mono ?_ ?_
    · rintro signal m' ⟨hsignal, hk⟩
      exact ⟨hsignal, Machine.gains_nil_iff.mp hk⟩
    · rintro f m' ⟨hf, hk⟩
      exact ⟨hf, Machine.gains_nil_iff.mp hk⟩

/-! ## All depths -/

/-- The runner of every depth keeps scopes. -/
theorem keepsScopes_ofDepth (b : Epoch) (turns depth : Nat) :
    (Runner.ofDepth turns depth).KeepsScopes b := by
  induction depth with
  | zero =>
    constructor
    · intro e s frame m₀ m hk _ _ _
      exact leads_throw.mpr ⟨rfl, hk⟩
    · intro st s frame m hs _ _ _
      refine leads_throw.mpr ⟨rfl, [], ?_, Or.inr ⟨rfl, rfl⟩⟩
      exact Machine.gains_nil_iff.mp (Machine.Keeps.refl hs)
  | succ depth ih =>
    constructor
    · intro e s frame m₀ m hk hp hc hw
      refine (leads_evalRule_checked ih hp hk hc hw).locating ?_
      rintro error m' ⟨hf, hk'⟩
      exact ⟨by rw [Failure.concernsName_placeAt]; exact hf, hk'⟩
    · intro st s frame m hs hh hc hw
      refine Leads.mono (Leads.locating (leads_execRule_checked ih hs hh hc hw) ?_)
        (fun _ _ h => h) fun f m' h => ⟨h.1, _, h.2, Or.inl rfl⟩
      rintro error m' ⟨hf, hg⟩
      exact ⟨by rw [Failure.concernsName_placeAt]; exact hf, hg⟩

end Dee.Runner
