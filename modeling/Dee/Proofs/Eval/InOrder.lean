import Dee.Proofs.Eval.Sequence
import Dee.Proofs.Program.Placed
import Dee.Proofs.Store.Frames
import Dee.Proofs.Store.Text

/-!
# Machines in order

`Machine.InOrder` says two things of a machine: the code of all functions in the store stands at
good positions, and the outermost frame binds certain names. `Eval.Stays` says that a step keeps a
machine in order, and what its result or its failure is like. There is one lemma for each primitive
step: it fails with an error whose position is still open, and binds names in no frame but the given
one.
-/

namespace Dee

open Eval

variable {okPos : Pos → Bool}

/-! ## Machines in order -/

/-- Every position in the body of a function is good. -/
structure Closure.Placed (okPos : Pos → Bool) (c : Closure) : Prop where
  statements : ∀ s ∈ c.statements, s.Placed okPos
  expression : ∀ e, c.expression = some e → e.Placed okPos

/-- The names that the outermost frame of a machine binds. -/
def Machine.globalNames (m : Machine) : List String :=
  match m.store.frames.frames[Machine.globalFrame]? with
  | some f => f.names
  | none => []

/-- The code of all functions stands at good positions, and the outermost frame binds `names`. -/
structure Machine.InOrder (okPos : Pos → Bool) (names : List String) (m : Machine) : Prop where
  code : ∀ c ∈ m.store.closures, c.Placed okPos
  outermost : ∃ f, m.store.frames.frames[Machine.globalFrame]? = some f ∧ f.names = names

/-- A new machine has no functions and binds no names. -/
theorem Machine.inOrder_initial (okPos : Pos → Bool) : Machine.initial.InOrder okPos [] where
  code := by
    intro c hc
    cases hc with
    | mk hc => cases hc
  outermost := ⟨⟨none, []⟩, rfl, rfl⟩

namespace Machine.InOrder

variable {names : List String} {m : Machine}

theorem globalNames_eq (h : m.InOrder okPos names) : m.globalNames = names := by
  obtain ⟨f, hf, hnames⟩ := h.outermost
  unfold Machine.globalNames
  rw [hf]
  exact hnames

/-- Arrays, tuples and what is printed do not matter. -/
theorem of_eq {m' : Machine} (h : m.InOrder okPos names)
    (hclosures : m'.store.closures = m.store.closures)
    (hframes : m'.store.frames = m.store.frames) :
    m'.InOrder okPos names :=
  ⟨by rw [hclosures]; exact h.code, by rw [hframes]; exact h.outermost⟩

theorem closure (h : m.InOrder okPos names) (ref : Nat) :
    (m.store.closure ref).Placed okPos := by
  unfold Store.closure
  rw [Array.getD_eq_getD_getElem?]
  cases hc : m.store.closures[ref]? with
  | none => exact ⟨by simp, by simp⟩
  | some c => exact h.code c (Array.mem_of_getElem? hc)

theorem newClosure (h : m.InOrder okPos names) {c : Closure} (hc : c.Placed okPos) :
    InOrder okPos names { m with store := (m.store.newClosure c).2 } := by
  refine ⟨?_, h.outermost⟩
  intro c' hc'
  rcases Array.mem_push.mp hc' with hold | rfl
  · exact h.code c' hold
  · exact hc

theorem lt_size (h : m.InOrder okPos names) : globalFrame < m.store.frames.frames.size := by
  obtain ⟨f, hf, -⟩ := h.outermost
  exact (Array.getElem?_eq_some_iff.mp hf).1

/-- A new frame is not the outermost one. -/
theorem newFrame (h : m.InOrder okPos names) (parent : Nat) :
    (m.store.newFrame parent).1 ≠ globalFrame ∧
      InOrder okPos names { m with store := (m.store.newFrame parent).2 } := by
  refine ⟨Nat.ne_of_gt h.lt_size, h.code, ?_⟩
  obtain ⟨f, hf, hnames⟩ := h.outermost
  exact ⟨f, (Frames.getElem?_push_lt parent h.lt_size).trans hf, hnames⟩

theorem bindAt (h : m.InOrder okPos names) {frame : Nat} (hframe : frame ≠ globalFrame)
    (name : String) (v : Value) :
    InOrder okPos names { m with store := m.store.modifyFrames (·.bindAt frame name v) } := by
  refine ⟨h.code, ?_⟩
  obtain ⟨f, hf, hnames⟩ := h.outermost
  refine ⟨f, ?_, hnames⟩
  show (m.store.frames.bindAt frame name v).frames[globalFrame]? = some f
  rw [Frames.getElem?_bindAt, if_neg hframe, hf]

/-- A new value for a name is no new name. -/
theorem rebindAt (h : m.InOrder okPos names) (frame : Nat) (name : String) (v : Value) :
    InOrder okPos names { m with store := m.store.modifyFrames (·.rebindAt frame name v) } := by
  refine ⟨h.code, ?_⟩
  obtain ⟨f, hf, hnames⟩ := h.outermost
  show ∃ g, (m.store.frames.rebindAt frame name v).frames[globalFrame]? = some g ∧ g.names = names
  rw [Frames.getElem?_rebindAt, hf]
  by_cases hframe : frame = globalFrame
  · rw [if_pos hframe]
    exact ⟨f.rebind name v, rfl, (Frame.names_rebind f name v).trans hnames⟩
  · rw [if_neg hframe]
    exact ⟨f, rfl, hnames⟩

end Machine.InOrder

/-! ## Steps in order -/

/-- The position of an error is good. -/
def Failure.IsPlaced (okPos : Pos → Bool) : Failure → Prop
  | .error e => okPos e.pos = true
  | _ => True

/-- The position of an error is still open, or good. -/
def Failure.IsPlaceable (okPos : Pos → Bool) : Failure → Prop
  | .error e => e.pos = .nowhere ∨ okPos e.pos = true
  | _ => True

theorem Failure.IsPlaced.isPlaceable {f : Failure} (h : f.IsPlaced okPos) :
    f.IsPlaceable okPos := by
  cases f with
  | error e => exact Or.inr h
  | tooDeep => trivial
  | abort a => trivial

theorem Failure.IsPlaceable.placeAt {e : Located EvalError} {pos : Pos}
    (h : (Failure.error e).IsPlaceable okPos) (hpos : okPos pos = true) :
    (Failure.error (e.placeAt pos)).IsPlaced okPos := by
  show okPos (e.placeAt pos).pos = true
  unfold Located.placeAt
  by_cases hplaced : e.isPlaced = true
  · rw [if_pos hplaced]
    rcases h with hopen | hok
    · rw [Located.isPlaced, hopen] at hplaced
      cases hplaced
    · exact hok
  · rw [if_neg hplaced]
    exact hpos

namespace Eval

variable {α β : Type}

/-- Machines in order stay in order, and the step gives a result that is `good` or a failure that is
`bad`. -/
def Stays (okPos : Pos → Bool) (names : List String) (bad : Failure → Prop) (x : Eval α)
    (good : α → Prop) : Prop :=
  ∀ m, m.InOrder okPos names →
    Leads x m (fun a m' => good a ∧ m'.InOrder okPos names)
      (fun f m' => bad f ∧ m'.InOrder okPos names)

variable {names : List String} {bad : Failure → Prop} {x : Eval α} {good : α → Prop}

theorem Stays.mono {bad' : Failure → Prop} {good' : α → Prop} (h : Stays okPos names bad x good)
    (hgood : ∀ a, good a → good' a) (hbad : ∀ f, bad f → bad' f) :
    Stays okPos names bad' x good' :=
  fun m hm => (h m hm).mono (fun a _ ha => ⟨hgood a ha.1, ha.2⟩) fun f _ hf => ⟨hbad f hf.1, hf.2⟩

theorem Stays.bind {f : α → Eval β} {good' : β → Prop} (hx : Stays okPos names bad x good)
    (hf : ∀ a, good a → Stays okPos names bad (f a) good') :
    Stays okPos names bad (x >>= f) good' :=
  fun m hm => (hx m hm).bind fun a m' ha => hf a ha.1 m' ha.2

theorem stays_pure {a : α} (h : good a) : Stays okPos names bad (pure a) good :=
  fun _ hm => leads_pure.mpr ⟨h, hm⟩

theorem stays_fail (e : EvalError) : Stays okPos names (·.IsPlaceable okPos) (fail e) good :=
  fun _ hm => leads_fail.mpr ⟨Or.inl rfl, hm⟩

/-- The part that is evaluated gives its position to an error that has none. -/
theorem Stays.locating {pos : Pos} (h : Stays okPos names (·.IsPlaceable okPos) x good)
    (hpos : okPos pos = true) :
    Stays okPos names (·.IsPlaced okPos) (Eval.locating pos x) good := by
  intro m hm
  rcases hx : x m with ⟨result, m'⟩
  have hlead := h m hm
  cases result with
  | ok a =>
    rw [leads_ok_iff hx] at hlead
    exact (leads_ok_iff (locating_apply_ok hx)).mpr hlead
  | error f =>
    rw [leads_error_iff hx] at hlead
    cases f with
    | error e =>
      exact (leads_error_iff (locating_apply_error hx)).mpr ⟨hlead.1.placeAt hpos, hlead.2⟩
    | tooDeep =>
      exact (leads_error_iff (locating_apply_other (by simp) hx)).mpr ⟨trivial, hlead.2⟩
    | abort a =>
      exact (leads_error_iff (locating_apply_other (by simp) hx)).mpr ⟨trivial, hlead.2⟩

theorem stays_ofExcept (r : Except EvalError α) :
    Stays okPos names (·.IsPlaceable okPos) (ofExcept r) fun _ => True := by
  cases r with
  | ok a => exact stays_pure trivial
  | error e => exact stays_fail e

theorem stays_ofBounded (r : Option α) :
    Stays okPos names (·.IsPlaceable okPos) (ofBounded r) fun _ => True := by
  cases r with
  | some a => exact stays_pure trivial
  | none => exact fun _ hm => leads_throw.mpr ⟨trivial, hm⟩

theorem stays_ofOutcome {r : Except Failure α}
    (h : ∀ f, r = .error f → f.IsPlaceable okPos) :
    Stays okPos names (·.IsPlaceable okPos) (ofOutcome r) fun _ => True := by
  cases r with
  | ok a => exact stays_pure trivial
  | error f => exact fun _ hm => leads_throw.mpr ⟨h f rfl, hm⟩

theorem stays_store : Stays okPos names bad store fun _ => True :=
  fun _ hm => leads_store.mpr ⟨trivial, hm⟩

theorem stays_modifyStore {f : Store → Store}
    (h : ∀ m : Machine, m.InOrder okPos names →
      Machine.InOrder okPos names { m with store := f m.store }) :
    Stays okPos names bad (modifyStore f) fun _ => True :=
  fun m hm => leads_modifyStore.mpr ⟨trivial, h m hm⟩

theorem stays_newFrame (parent : Nat) :
    Stays okPos names bad (make (·.newFrame parent)) (· ≠ Machine.globalFrame) :=
  fun _ hm => leads_make.mpr (hm.newFrame parent)

theorem stays_newClosure {c : Closure} (hc : c.Placed okPos) :
    Stays okPos names bad (make (·.newClosure c)) fun _ => True :=
  fun _ hm => leads_make.mpr ⟨trivial, hm.newClosure hc⟩

theorem stays_newArray (c : Cells) :
    Stays okPos names bad (make (·.newArray c)) fun _ => True :=
  fun _ hm => leads_make.mpr ⟨trivial, hm.of_eq rfl rfl⟩

theorem stays_newTuple (s : Slots) :
    Stays okPos names bad (make (·.newTuple s)) fun _ => True :=
  fun _ hm => leads_make.mpr ⟨trivial, hm.of_eq rfl rfl⟩

/-! ## Names -/

theorem stays_define {frame : Nat} (hframe : frame ≠ Machine.globalFrame) (name : String)
    (v : Value) :
    Stays okPos names (·.IsPlaceable okPos) (define frame name v) fun _ => True := by
  refine stays_store.bind fun st _ => (stays_ofExcept _).bind fun _ _ => ?_
  exact stays_modifyStore fun m hm => hm.bindAt hframe name v

theorem isPlaceable_of_owner {fs : Frames Value} {reach frame : Nat} {name : String} {f : Failure}
    (h : fs.owner reach frame name = .error f) : f.IsPlaceable okPos := by
  unfold Frames.owner at h
  split at h
  · cases h
  · cases h
    exact Or.inl rfl
  · cases h
    trivial

theorem stays_assign (reach frame : Nat) (name : String) (v : Value) :
    Stays okPos names (·.IsPlaceable okPos) (assign reach frame name v) fun _ => True := by
  refine stays_store.bind fun st _ => (stays_ofOutcome fun f => isPlaceable_of_owner).bind ?_
  intro owner _
  exact stays_modifyStore fun m hm => hm.rebindAt owner name v

theorem isPlaceable_of_get {fs : Frames Value} {reach frame : Nat} {name : String} {f : Failure}
    (h : fs.get reach frame name = .error f) : f.IsPlaceable okPos := by
  unfold Frames.get at h
  split at h
  · split at h
    · cases h
    · cases h
      exact Or.inl rfl
  · cases h
    exact Or.inl rfl
  · cases h
    trivial

theorem stays_lookup (reach frame : Nat) (name : String) :
    Stays okPos names (·.IsPlaceable okPos) (lookup reach frame name) fun _ => True :=
  stays_store.bind fun _ _ => stays_ofOutcome fun _ => isPlaceable_of_get

/-! ## Values -/

theorem isPlaceable_of_short {f : Failure} (h : Memory.IsShort f) : f.IsPlaceable okPos := by
  rcases h with rfl | rfl <;> trivial

theorem stays_print (depth : Nat) (vs : List Value) :
    Stays okPos names (·.IsPlaceable okPos) (print depth vs) fun _ => True := by
  refine stays_store.bind fun st _ => (stays_ofOutcome fun f h => ?_).bind fun line _ => ?_
  · rcases Store.short_of_spellLine h with rfl | hshort
    · trivial
    · exact isPlaceable_of_short hshort
  · intro m hm
    exact ⟨trivial, hm.of_eq rfl rfl⟩

theorem stays_requireInt (role : IntRole) (v : Value) :
    Stays okPos names (·.IsPlaceable okPos) (requireInt role v) fun _ => True := by
  unfold requireInt
  split
  · exact stays_pure trivial
  · exact stays_fail _

theorem stays_elementAt (container : Value) (index : Int) :
    Stays okPos names (·.IsPlaceable okPos) (elementAt container index) fun _ => True := by
  refine stays_store.bind fun st _ => ?_
  split
  · exact stays_ofExcept _
  · exact stays_ofExcept _
  · exact stays_fail _

theorem stays_memberOf (container : Value) (member : Member) :
    Stays okPos names (·.IsPlaceable okPos) (memberOf container member) fun _ => True := by
  refine stays_store.bind fun st _ => ?_
  split
  · exact stays_ofExcept _
  · exact stays_fail _

theorem isPlaceable_of_accepts {c : Cells} {index : Int} {f : Failure}
    (h : c.accepts index = .error f) : f.IsPlaceable okPos := by
  rcases Cells.accepts_eq_error.mp h with ⟨-, rfl⟩ | ⟨-, -, rfl⟩
  · exact Or.inl rfl
  · trivial

theorem stays_modifyCells (ref : Nat) (f : Cells → Cells) :
    Stays okPos names bad (modifyStore (·.modifyCells ref f)) fun _ => True :=
  stays_modifyStore fun _ hm => hm.of_eq rfl rfl

theorem stays_modifySlots (ref : Nat) (f : Slots → Slots) :
    Stays okPos names bad (modifyStore (·.modifySlots ref f)) fun _ => True :=
  stays_modifyStore fun _ hm => hm.of_eq rfl rfl

theorem stays_setElementAt (container : Value) (index : Int) (v : Value) :
    Stays okPos names (·.IsPlaceable okPos) (setElementAt container index v) fun _ => True := by
  unfold setElementAt
  split
  · refine stays_store.bind fun st _ => (stays_ofOutcome fun f => isPlaceable_of_accepts).bind ?_
    exact fun _ _ => stays_modifyCells _ _
  · refine stays_store.bind fun st _ => (stays_ofExcept _).bind ?_
    exact fun _ _ => stays_modifySlots _ _
  · exact stays_fail _

theorem stays_setMemberOf (container : Value) (member : Member) (v : Value) :
    Stays okPos names (·.IsPlaceable okPos) (setMemberOf container member v) fun _ => True := by
  unfold setMemberOf
  split
  · refine stays_store.bind fun st _ => (stays_ofExcept _).bind ?_
    exact fun _ _ => stays_modifySlots _ _
  · exact stays_fail _

theorem stays_combine (depth : Nat) (op : String) (a b : Value) :
    Stays okPos names (·.IsPlaceable okPos) (combine depth op a b) fun _ => True := by
  unfold combine
  split
  · exact stays_fail _
  · split
    · exact stays_fail _
    · exact stays_fail _
  · split
    · refine stays_store.bind fun st _ => (stays_ofBounded _).bind fun same _ => ?_
      exact stays_pure trivial
    · exact stays_fail _
  · refine stays_store.bind fun st _ => ?_
    split
    · refine (stays_ofOutcome fun f h => ?_).bind fun cells _ => stays_newArray cells
      exact isPlaceable_of_short (Or.inr (Cells.concat_eq_error.mp h).2)
    · refine (stays_ofOutcome fun f h => ?_).bind fun _ _ =>
        (stays_ofExcept _).bind fun slots _ => stays_newTuple slots
      exact isPlaceable_of_short (Or.inr (Memory.room_eq_error.mp h).2)
    · exact stays_fail _
  · exact stays_fail _

theorem stays_binary (depth : Nat) (op : String) (a b : Value) :
    Stays okPos names (·.IsPlaceable okPos) (binary depth op a b) fun _ => True := by
  unfold binary
  split
  · refine (stays_ofOutcome fun f h => ?_).bind fun s _ => stays_pure trivial
    rcases Scalar.binary_eq_error.mp h with ⟨e, -, rfl⟩ | ⟨s, -, -, rfl⟩
    · exact Or.inl rfl
    · trivial
  · exact stays_combine depth op a b

theorem stays_unary (op : String) (v : Value) :
    Stays okPos names (·.IsPlaceable okPos) (unary op v) fun _ => True := by
  unfold unary
  split
  · exact (stays_ofExcept _).bind fun s _ => stays_pure trivial
  · split
    · exact stays_fail _
    · exact stays_fail _
    · exact stays_fail _

/-! ## Sequences -/

theorem stays_runAll {exec : Stmt → Eval (Option Signal)} {ss : List Stmt}
    (h : ∀ s ∈ ss, Stays okPos names bad (exec s) fun _ => True) :
    Stays okPos names bad (runAll exec ss) fun _ => True := by
  induction ss with
  | nil => exact stays_pure trivial
  | cons s rest ih =>
    refine (h s List.mem_cons_self).bind fun signal _ => ?_
    cases signal with
    | some g => exact stays_pure trivial
    | none => exact ih fun t ht => h t (List.mem_cons_of_mem s ht)

theorem stays_takeTurns {turn : Eval Turn}
    (h : Stays okPos names (·.IsPlaceable okPos) turn fun _ => True) (turns : Nat) :
    Stays okPos names (·.IsPlaceable okPos) (takeTurns turn turns) fun _ => True := by
  induction turns with
  | zero => exact fun _ hm => leads_throw.mpr ⟨trivial, hm⟩
  | succ turns ih =>
    refine h.bind fun t _ => ?_
    cases t with
    | again => exact ih
    | stop signal => exact stays_pure trivial

theorem stays_takeFrom {items : Items} {turn : Value → Eval Turn}
    (h : ∀ v, Stays okPos names bad (turn v) fun _ => True) (remaining next : Nat) :
    Stays okPos names bad (items.takeFrom turn remaining next) fun _ => True := by
  induction remaining generalizing next with
  | zero => exact stays_pure trivial
  | succ remaining ih =>
    refine (h _).bind fun t _ => ?_
    cases t with
    | again => exact ih (next + 1)
    | stop signal => exact stays_pure trivial

end Eval

end Dee
