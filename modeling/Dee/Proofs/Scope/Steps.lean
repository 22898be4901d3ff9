import Dee.Proofs.Eval.Call
import Dee.Proofs.Eval.Sequence
import Dee.Proofs.Scope.Sound

/-!
# Steps of a checked program

What a runner must keep while it evaluates checked code: the store stays sound, the frame that a
statement runs in gains exactly the names that the statement declares, and no failure concerns a
name. The lemmas on single steps say so of binding, assigning, looking up, writing and joining.
-/

namespace Dee

open Eval

/-- Whether an error says that a name is not bound, or bound already. -/
def EvalError.concernsName : EvalError → Bool
  | .alreadyDeclared _ => true
  | .undeclared _ => true
  | .undefined _ => true
  | _ => false

/-- Whether a failure says that a name is not bound, or bound already. -/
def Failure.concernsName : Failure → Bool
  | .error e => e.cause.concernsName
  | .tooDeep => false
  | .abort _ => false

theorem Failure.concernsName_of_isPlain {f : Failure} (h : f.isPlain = true) :
    f.concernsName = false := by
  cases f with
  | error e =>
    cases hc : e.cause <;> simp [Failure.isPlain, EvalError.isPlain, hc] at h <;>
      simp [Failure.concernsName, EvalError.concernsName, hc]
  | tooDeep => rfl
  | abort a => rfl

theorem Failure.concernsName_placeAt (e : Located EvalError) (pos : Pos) :
    (Failure.error (e.placeAt pos)).concernsName = (Failure.error e).concernsName := by
  unfold Located.placeAt Located.moveTo
  split <;> rfl

variable {b : Epoch} {m₀ m : Machine} {frame : Nat} {s : Scope}

/-! ## Machines on the way -/

/-- From `m₀` on the store stayed sound, and the frame gained the names. -/
structure Machine.Gains (b : Epoch) (frame : Nat) (names : List String) (m₀ m : Machine) :
    Prop where
  sound : m.store.Sound b
  frames : Frames.Gains frame names m₀.store.frames m.store.frames

/-- From `m₀` on the store stayed sound, and all frames kept their names. -/
abbrev Machine.Keeps (b : Epoch) (m₀ m : Machine) : Prop := Machine.Gains b 0 [] m₀ m

theorem Machine.gains_nil_iff {f g : Nat} :
    Machine.Gains b f [] m₀ m ↔ Machine.Gains b g [] m₀ m :=
  ⟨fun h => ⟨h.sound, Frames.gains_nil_iff.mp h.frames⟩,
    fun h => ⟨h.sound, Frames.gains_nil_iff.mp h.frames⟩⟩

theorem Machine.Keeps.refl (h : m.store.Sound b) : Machine.Keeps b m m :=
  ⟨h, Frames.Keeps.refl _⟩

theorem Machine.Gains.trans {m' : Machine} {names names' : List String}
    (h : Machine.Gains b frame names m₀ m) (h' : Machine.Gains b frame names' m m') :
    Machine.Gains b frame (names ++ names') m₀ m' :=
  ⟨h'.sound, h.frames.trans h'.frames⟩

theorem Machine.Keeps.trans {m' : Machine} (h : Machine.Keeps b m₀ m)
    (h' : Machine.Keeps b m m') : Machine.Keeps b m₀ m' :=
  Machine.Gains.trans h h'

/-- Whatever a new frame gains, no older frame does. -/
theorem Machine.Gains.keeps_of_newFrame {m' : Machine} {parent : Nat} {names : List String}
    (h : Machine.Gains b m.store.frames.frames.size names
      { m with store := (m.store.newFrame parent).2 } m') : Machine.Keeps b m m' := by
  have hg : Frames.Gains m.store.frames.frames.size ([] ++ names) m.store.frames m'.store.frames :=
    Frames.Gains.trans (Frames.gains_nil_iff.mp (Frames.keeps_push parent)) h.frames
  exact ⟨h.sound, hg.keeps_of_size (Nat.le_refl _)⟩

/-- A step failed over something else than a name. -/
def Machine.FailsOtherwise (b : Epoch) (m₀ : Machine) (f : Failure) (m : Machine) : Prop :=
  f.concernsName = false ∧ Machine.Keeps b m₀ m

theorem Machine.Keeps.failsOtherwise {f : Failure} {m' : Machine} (h : Machine.Keeps b m₀ m)
    (hf : FailsPlainly m f m') : Machine.FailsOtherwise b m₀ f m' := by
  obtain ⟨rfl, hplain⟩ := hf
  exact ⟨Failure.concernsName_of_isPlain hplain, h⟩

/-- A signal that leaves with a value leaves with one of the run. -/
def Signal.Since (b : Epoch) (signal : Option Signal) : Prop :=
  ∀ v, signal = some (.leave v) → v.Since b

theorem Signal.since_none : Signal.Since b none := by
  intro v hv
  cases hv

/-- What runs checked code: no failure concerns a name. A statement that fails has declared its
names before, unless it could not even start. -/
structure Runner.KeepsScopes (r : Runner) (b : Epoch) : Prop where
  eval : ∀ (e : Expr) (s : Scope) (frame : Nat) (m₀ m : Machine), Machine.Keeps b m₀ m →
    m₀.store.frames.Provides b.frames frame s.frames → e.check s = [] → e.WellFormed →
    Leads (r.eval e frame) m (fun v m' => v.Since b ∧ Machine.Keeps b m₀ m')
      (Machine.FailsOtherwise b m₀)
  exec : ∀ (st : Stmt) (s : Scope) (frame : Nat) (m : Machine), m.store.Sound b →
    m.store.frames.Hosts b.frames frame s → st.check s = [] → st.WellFormed →
    Leads (r.exec st frame) m
      (fun signal m' => Signal.Since b signal ∧ Machine.Gains b frame st.declaredNames m m')
      (fun f m' => f.concernsName = false ∧ ∃ names, Machine.Gains b frame names m m' ∧
        (names = st.declaredNames ∨ (r.depth = 0 ∧ names = [])))

/-! ## Names -/

/-- A new name can be bound in a frame that hosts the scope. -/
theorem leads_define_new {name : String} {v : Value} {err : Failure → Machine → Prop}
    (hs : m.store.Sound b) (hh : m.store.frames.Hosts b.frames frame s)
    (hname : s.bindsHere name = false) (hv : v.Since b) :
    Leads (define frame name v) m (fun _ m' => Machine.Gains b frame [name] m m') err := by
  obtain ⟨fr, hfr, hb⟩ := hh.not_binds hname
  refine (leads_define frame name v).mono ?_ ?_
  · rintro _ m' ⟨-, rfl⟩
    exact ⟨hs.bindAt hv frame name, Frames.gains_bindAt frame name v⟩
  · rintro f m' ⟨-, ⟨hnone, -⟩ | ⟨fr', hfr', hb', -⟩⟩
    · rw [hfr] at hnone
      cases hnone
    · cases hfr.symm.trans hfr'
      rw [hb] at hb'
      cases hb'

theorem leads_lookup_bound {name : String} (hk : Machine.Keeps b m₀ m)
    (hp : m₀.store.frames.Provides b.frames frame s.frames) (hname : s.binds name = true)
    (reach : Nat) :
    Leads (lookup reach frame name) m (fun v m' => v.Since b ∧ Machine.Keeps b m₀ m')
      (Machine.FailsOtherwise b m₀) := by
  have hsearch := (hp.mono hk.frames).search hname reach
  refine (leads_lookup reach frame name).mono ?_ ?_
  · rintro v m' ⟨rfl, owner, fr, ho, hfr, hv⟩
    rcases hsearch with ⟨owner', ho', hle⟩ | htoo
    · cases ho.symm.trans ho'
      exact ⟨hk.sound.bindings owner fr hle hfr _ (Frame.mem_bindings_of_value? hv), hk⟩
    · cases ho.symm.trans htoo
  · rintro f m' ⟨rfl, ⟨habsent, -⟩ | ⟨-, rfl⟩⟩
    · rcases hsearch with ⟨owner', ho', -⟩ | htoo
      · cases habsent.symm.trans ho'
      · cases habsent.symm.trans htoo
    · exact ⟨rfl, hk⟩

theorem leads_assign_bound {name : String} {v : Value} (hk : Machine.Keeps b m₀ m)
    (hp : m₀.store.frames.Provides b.frames frame s.frames) (hname : s.binds name = true)
    (hv : v.Since b) (reach : Nat) :
    Leads (assign reach frame name v) m (fun _ m' => Machine.Keeps b m₀ m')
      (Machine.FailsOtherwise b m₀) := by
  have hsearch := (hp.mono hk.frames).search hname reach
  refine (leads_assign reach frame name v).mono ?_ ?_
  · rintro _ m' ⟨owner, -, rfl⟩
    exact hk.trans ⟨hk.sound.rebindAt hv owner name, Frames.keeps_rebindAt owner name v⟩
  · rintro f m' ⟨rfl, ⟨habsent, -⟩ | ⟨-, rfl⟩⟩
    · rcases hsearch with ⟨owner', ho', -⟩ | htoo
      · cases habsent.symm.trans ho'
      · cases habsent.symm.trans htoo
    · exact ⟨rfl, hk⟩

/-! ## Containers and operators -/

theorem Machine.Keeps.writesElement {container v : Value} {m' : Machine}
    (hk : Machine.Keeps b m₀ m) (hv : v.Since b) (hw : WritesElement container v m m') :
    Machine.Keeps b m₀ m' := by
  rcases hw with ⟨ref, index, -, rfl⟩ | ⟨ref, place, -, rfl⟩
  · exact hk.trans ⟨hk.sound.modifyCells hv ref index, Frames.Keeps.refl _⟩
  · exact hk.trans ⟨hk.sound.modifySlots hv ref place, Frames.Keeps.refl _⟩

/-- Joining containers of the run gives one of the run. -/
theorem Machine.Keeps.joins {x y v : Value} {m' : Machine} (hk : Machine.Keeps b m₀ m)
    (hx : x.Since b) (hy : y.Since b) (hj : Joins x y v m m') :
    v.Since b ∧ Machine.Keeps b m₀ m' := by
  rcases hj with ⟨rfl, sc, rfl⟩ | ⟨i, j, cells, rfl, rfl, hc, hnew, -⟩ |
    ⟨i, j, slots, rfl, rfl, hc, hnew, -⟩
  · exact ⟨trivial, hk⟩
  · have hboth := hk.sound.newArray (c := cells) (by
      obtain ⟨-, rfl⟩ := Cells.concat_eq_ok.mp hc
      intro w hw
      rcases Array.mem_append.mp hw with hw | hw
      · exact hk.sound.cells i hx w hw
      · exact hk.sound.cells j hy w hw)
    rw [← hnew] at hboth
    have hstore : m'.store.frames = m.store.frames := congrArg (fun p => p.2.frames) hnew
    refine ⟨hboth.1, hk.trans ⟨hboth.2, ?_⟩⟩
    rw [hstore]
    exact Frames.Keeps.refl _
  · have hboth := hk.sound.newTuple (s := slots) (by
      intro w hw
      rw [Slots.concat_values hc, List.mem_append] at hw
      rcases hw with hw | hw
      · exact hk.sound.slots i hx w hw
      · exact hk.sound.slots j hy w hw)
    rw [← hnew] at hboth
    have hstore : m'.store.frames = m.store.frames := congrArg (fun p => p.2.frames) hnew
    refine ⟨hboth.1, hk.trans ⟨hboth.2, ?_⟩⟩
    rw [hstore]
    exact Frames.Keeps.refl _

end Dee
