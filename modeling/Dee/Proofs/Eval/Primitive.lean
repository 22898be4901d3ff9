import Dee.Proofs.Eval.Outcome
import Dee.Proofs.Store.Entries
import Dee.Proofs.Store.Frames
import Dee.Proofs.Store.Text

/-!
# What the primitive steps do

One lemma for each step that touches names, containers or operators: what it gives, how it changes
the machine, and which failures it can raise. Failures of the steps on containers and operators are
*plain*: they concern neither a name nor a jump. A step that fails leaves the machine as it was.
-/

namespace Dee

/-! ## Plain failures -/

/-- Whether an error concerns neither a name nor a jump. -/
def EvalError.isPlain : EvalError → Bool
  | .alreadyDeclared _ => false
  | .undeclared _ => false
  | .undefined _ => false
  | .stray _ => false
  | _ => true

/-- Whether a failure concerns neither a name nor a jump. -/
def Failure.isPlain : Failure → Bool
  | .error e => e.cause.isPlain
  | .tooDeep => true
  | .abort _ => true

theorem Memory.IsShort.isPlain {f : Failure} (h : IsShort f) : f.isPlain = true := by
  rcases h with rfl | rfl <;> rfl

namespace Scalar

theorem isPlain_of_requireBool {text : String} {s : Scalar} {e : EvalError}
    (h : s.requireBool text = .error e) : e.isPlain = true := by
  unfold requireBool at h
  split at h
  · cases h
  · cases h; rfl

theorem isPlain_of_apply {op : Arithmetic} {text : String} {a b : Number} {e : EvalError}
    (h : op.apply text a b = .error e) : e.isPlain = true := by
  unfold Arithmetic.apply at h
  split at h
  · cases h; rfl
  · split at h
    · cases h
    · split at h
      · cases h
      · cases h; rfl

/-- A logical operator fails only on an operand that is no boolean. -/
theorem isPlain_of_connective {op : Connective} {text : String} {a b : Scalar} {e : EvalError}
    (h : (do
      let x ← a.requireBool text
      let y ← b.requireBool text
      return Scalar.bool (op.apply x y) : Except EvalError Scalar) = .error e) :
    e.isPlain = true := by
  cases ha : a.requireBool text with
  | error e' =>
    rw [ha] at h
    cases h
    exact isPlain_of_requireBool ha
  | ok x =>
    cases hb : b.requireBool text with
    | error e' =>
      rw [ha, hb] at h
      cases h
      exact isPlain_of_requireBool hb
    | ok y =>
      rw [ha, hb] at h
      cases h

theorem isPlain_of_combine {text : String} {a b : Scalar} {e : EvalError}
    (h : Scalar.combine text a b = .error e) : e.isPlain = true := by
  unfold Scalar.combine at h
  split at h
  · cases h; rfl
  · exact isPlain_of_connective h
  · split at h
    · cases h
    · cases h; rfl
  · split at h
    · cases h
    · cases h; rfl
  · split at h
    next x y _ _ =>
      cases hr : Arithmetic.apply _ text x y with
      | error e' =>
        rw [hr] at h
        cases h
        exact isPlain_of_apply hr
      | ok n =>
        rw [hr] at h
        cases h
    next =>
      split at h
      · cases h
      · cases h; rfl

theorem isPlain_of_binary {text : String} {a b : Scalar} {f : Failure}
    (h : Scalar.binary text a b = .error f) : f.isPlain = true := by
  rcases binary_eq_error.mp h with ⟨e, he, rfl⟩ | ⟨s, -, -, rfl⟩
  · exact isPlain_of_combine he
  · rfl

theorem isPlain_of_unary {text : String} {a : Scalar} {e : EvalError}
    (h : Scalar.unary text a = .error e) : e.isPlain = true := by
  unfold Scalar.unary at h
  split at h
  · cases h; rfl
  · cases ha : a.requireBool text with
    | error e' =>
      rw [ha] at h
      cases h
      exact isPlain_of_requireBool ha
    | ok x =>
      rw [ha] at h
      cases h
  · split at h
    · cases h
    · cases h; rfl

end Scalar

/-! ## Containers -/

/-- Whether an array or a tuple holds a value. -/
def Store.Holds (st : Store) (container v : Value) : Prop :=
  match container with
  | .array ref => v ∈ (st.cells ref).items
  | .tuple ref => v ∈ (st.slots ref).values
  | _ => False

theorem Cells.get_ok {c : Cells} {index : Int} {v : Value} (h : c.get index = .ok v) :
    v = Value.none ∨ v ∈ c.items := by
  unfold Cells.get at h
  split at h
  · cases h
  · cases h
    by_cases hi : index.toNat - 1 < c.items.size
    · right
      simp [Array.getD, hi]
    · left
      simp [Array.getD, hi]

theorem Cells.get_error {c : Cells} {index : Int} {e : EvalError} (h : c.get index = .error e) :
    e.isPlain = true := by
  unfold Cells.get at h
  split at h
  · cases h; rfl
  · cases h

theorem Cells.accepts_error {c : Cells} {index : Int} {f : Failure}
    (h : c.accepts index = .error f) : f.isPlain = true := by
  rcases Cells.accepts_eq_error.mp h with ⟨-, rfl⟩ | ⟨-, -, rfl⟩ <;> rfl

/-- Writing brings in no value but the new one and none. -/
theorem Cells.mem_write {c : Cells} {index : Int} {v w : Value}
    (h : w ∈ (c.write index v).items) : w = v ∨ w = Value.none ∨ w ∈ c.items := by
  unfold Cells.write at h
  split at h
  · rcases Array.mem_or_eq_of_mem_setIfInBounds h with h | h
    · exact Or.inr (Or.inr h)
    · exact Or.inl h
  · simp only [Array.mem_push, Array.mem_append, Array.mem_replicate] at h
    rcases h with (h | ⟨-, h⟩) | h
    · exact Or.inr (Or.inr h)
    · exact Or.inr (Or.inl h)
    · exact Or.inl h

theorem Slots.mem_values_write {s : Slots} {ref : Nat} {v w : Value}
    (h : w ∈ (s.write ref v).values) : w = v ∨ w ∈ s.values := by
  simp only [Slots.values, Slots.entries, List.mem_map] at h ⊢
  obtain ⟨_, ⟨other, hin, rfl⟩, rfl⟩ := h
  rw [Slots.slot_write s ref v hin]
  split
  · exact Or.inl rfl
  · exact Or.inr ⟨_, ⟨other, hin, rfl⟩, rfl⟩

theorem Slots.locate_error {s : Slots} {m : Member} {e : EvalError} (h : s.locate m = .error e) :
    e.isPlain = true := by
  rw [Slots.eq_of_locate_error h]
  cases m <;> rfl

theorem Slots.get_ok {s : Slots} {m : Member} {v : Value} (h : s.get m = .ok v) :
    v ∈ s.values := by
  unfold Slots.get at h
  cases hl : s.locate m with
  | error e => rw [hl] at h; cases h
  | ok ref =>
    rw [hl] at h
    cases h
    obtain ⟨place, hplace⟩ := Slots.exists_place_of_locate hl
    exact List.mem_map_of_mem (List.mem_map_of_mem (List.mem_of_getElem? hplace))

theorem Slots.get_error {s : Slots} {m : Member} {e : EvalError} (h : s.get m = .error e) :
    e.isPlain = true := by
  unfold Slots.get at h
  cases hl : s.locate m with
  | error e' =>
    rw [hl] at h
    cases h
    exact Slots.locate_error hl
  | ok i => rw [hl] at h; cases h

theorem Slots.append_error {s : Slots} {name : Option String} {v : Value} {e : EvalError}
    (h : s.append name v = .error e) : e.isPlain = true := by
  obtain ⟨_, rfl⟩ := Slots.duplicate_of_append h
  rfl

theorem Slots.append_values {s t : Slots} {name : Option String} {v : Value}
    (h : s.append name v = .ok t) : t.values = s.values ++ [v] := by
  simp [Slots.values, Slots.entries_append h]

theorem Slots.concat_error {s t : Slots} {e : EvalError} (h : s.concat t = .error e) :
    e.isPlain = true := by
  obtain ⟨_, rfl⟩ := Slots.duplicate_of_concat h
  rfl

theorem Slots.concat_values {s t u : Slots} (h : s.concat t = .ok u) :
    u.values = s.values ++ t.values := by
  simp [Slots.values, Slots.entries_concat h]

namespace Eval

variable {m : Machine}

/-- A step failed plainly and left the machine as it was. -/
def FailsPlainly (m : Machine) (f : Failure) (m' : Machine) : Prop :=
  m' = m ∧ f.isPlain = true

theorem leads_requireInt (role : IntRole) (v : Value) :
    Leads (requireInt role v) m (fun n m' => m' = m ∧ v = .int n) (FailsPlainly m) := by
  unfold requireInt
  split
  · exact leads_pure.mpr ⟨rfl, rfl⟩
  · exact leads_fail.mpr ⟨rfl, rfl⟩

theorem leads_elementAt (container : Value) (index : Int) :
    Leads (elementAt container index) m
      (fun v m' => m' = m ∧ (v = Value.none ∨ m.store.Holds container v)) (FailsPlainly m) := by
  refine leads_bind.mpr (leads_store.mpr ?_)
  cases container with
  | array ref =>
    exact leads_ofExcept.mpr ⟨fun v h => ⟨rfl, Cells.get_ok h⟩, fun e h => ⟨rfl, Cells.get_error h⟩⟩
  | tuple ref =>
    exact leads_ofExcept.mpr ⟨fun v h => ⟨rfl, Or.inr (Slots.get_ok h)⟩,
      fun e h => ⟨rfl, Slots.get_error h⟩⟩
  | scalar s => exact leads_fail.mpr ⟨rfl, rfl⟩
  | func ref => exact leads_fail.mpr ⟨rfl, rfl⟩

theorem leads_memberOf (container : Value) (mem : Member) :
    Leads (memberOf container mem) m
      (fun v m' => m' = m ∧ (v = Value.none ∨ m.store.Holds container v)) (FailsPlainly m) := by
  refine leads_bind.mpr (leads_store.mpr ?_)
  cases container with
  | tuple ref =>
    exact leads_ofExcept.mpr ⟨fun v h => ⟨rfl, Or.inr (Slots.get_ok h)⟩,
      fun e h => ⟨rfl, Slots.get_error h⟩⟩
  | array ref => exact leads_fail.mpr ⟨rfl, rfl⟩
  | scalar s => exact leads_fail.mpr ⟨rfl, rfl⟩
  | func ref => exact leads_fail.mpr ⟨rfl, rfl⟩

/-- One element of an array or of a tuple was written, and nothing else was changed. -/
def WritesElement (container v : Value) (m m' : Machine) : Prop :=
  (∃ ref index, container = .array ref ∧
    m' = { m with store := m.store.modifyCells ref (·.write index v) }) ∨
  (∃ ref entry, container = .tuple ref ∧
    m' = { m with store := m.store.modifySlots ref (·.write entry v) })

theorem leads_setElementAt (container : Value) (index : Int) (v : Value) :
    Leads (setElementAt container index v) m (fun _ m' => WritesElement container v m m')
      (FailsPlainly m) := by
  unfold setElementAt
  cases container with
  | array ref =>
    refine leads_bind.mpr (leads_store.mpr ?_)
    refine leads_bind.mpr (leads_ofOutcome.mpr ⟨?_, fun f h => ⟨rfl, Cells.accepts_error h⟩⟩)
    intro _ _
    exact leads_modifyStore.mpr (Or.inl ⟨ref, index, rfl, rfl⟩)
  | tuple ref =>
    refine leads_bind.mpr (leads_store.mpr ?_)
    refine leads_bind.mpr (leads_ofExcept.mpr ⟨?_, fun e h => ⟨rfl, Slots.locate_error h⟩⟩)
    intro entry _
    exact leads_modifyStore.mpr (Or.inr ⟨ref, entry, rfl, rfl⟩)
  | scalar s => exact leads_fail.mpr ⟨rfl, rfl⟩
  | func ref => exact leads_fail.mpr ⟨rfl, rfl⟩

theorem leads_setMemberOf (container : Value) (mem : Member) (v : Value) :
    Leads (setMemberOf container mem v) m (fun _ m' => WritesElement container v m m')
      (FailsPlainly m) := by
  unfold setMemberOf
  cases container with
  | tuple ref =>
    refine leads_bind.mpr (leads_store.mpr ?_)
    refine leads_bind.mpr (leads_ofExcept.mpr ⟨?_, fun e h => ⟨rfl, Slots.locate_error h⟩⟩)
    intro entry _
    exact leads_modifyStore.mpr (Or.inr ⟨ref, entry, rfl, rfl⟩)
  | array ref => exact leads_fail.mpr ⟨rfl, rfl⟩
  | scalar s => exact leads_fail.mpr ⟨rfl, rfl⟩
  | func ref => exact leads_fail.mpr ⟨rfl, rfl⟩

/-! ## Operators -/

/-- An operator gave a scalar without touching the machine, or joined two containers into a new
one. -/
def Joins (a b v : Value) (m m' : Machine) : Prop :=
  (m' = m ∧ ∃ s, v = .scalar s) ∨
  (∃ i j cells, a = .array i ∧ b = .array j ∧
    (m.store.cells i).concat (m.store.cells j) = .ok cells ∧
    (v, m'.store) = m.store.newArray cells ∧ m'.output = m.output) ∨
  (∃ i j slots, a = .tuple i ∧ b = .tuple j ∧
    (m.store.slots i).concat (m.store.slots j) = .ok slots ∧
    (v, m'.store) = m.store.newTuple slots ∧ m'.output = m.output)

theorem leads_combine (depth : Nat) (op : String) (a b : Value) :
    Leads (combine depth op a b) m (fun v m' => Joins a b v m m') (FailsPlainly m) := by
  unfold combine
  split
  · exact leads_fail.mpr ⟨rfl, rfl⟩
  · split
    · exact leads_fail.mpr ⟨rfl, rfl⟩
    · exact leads_fail.mpr ⟨rfl, rfl⟩
  · split
    · refine leads_bind.mpr (leads_store.mpr ?_)
      refine leads_bind.mpr (leads_ofBounded.mpr ⟨fun same _ => ?_, fun _ => ⟨rfl, rfl⟩⟩)
      exact leads_pure.mpr (Or.inl ⟨rfl, _, rfl⟩)
    · exact leads_fail.mpr ⟨rfl, rfl⟩
  · refine leads_bind.mpr (leads_store.mpr ?_)
    split
    · next i j =>
      refine leads_bind.mpr (leads_ofOutcome.mpr ⟨fun cells h => ?_, fun f h => ?_⟩)
      · exact leads_make.mpr (Or.inr (Or.inl ⟨i, j, cells, rfl, rfl, h, rfl, rfl⟩))
      · rw [(Cells.concat_eq_error.mp h).2]
        exact ⟨rfl, rfl⟩
    · next i j =>
      refine leads_bind.mpr (leads_ofOutcome.mpr ⟨fun _ _ => ?_, fun f h => ?_⟩)
      · refine leads_bind.mpr (leads_ofExcept.mpr ⟨fun slots h => ?_, fun e h => ?_⟩)
        · exact leads_make.mpr (Or.inr (Or.inr ⟨i, j, slots, rfl, rfl, h, rfl, rfl⟩))
        · exact ⟨rfl, Slots.concat_error h⟩
      · rw [(Memory.room_eq_error.mp h).2]
        exact ⟨rfl, rfl⟩
    · exact leads_fail.mpr ⟨rfl, rfl⟩
  · exact leads_fail.mpr ⟨rfl, rfl⟩

theorem leads_binary (depth : Nat) (op : String) (a b : Value) :
    Leads (binary depth op a b) m (fun v m' => Joins a b v m m') (FailsPlainly m) := by
  unfold binary
  split
  · refine leads_bind.mpr (leads_ofOutcome.mpr ⟨fun s _ => ?_, fun e h => ?_⟩)
    · exact leads_pure.mpr (Or.inl ⟨rfl, s, rfl⟩)
    · exact ⟨rfl, Scalar.isPlain_of_binary h⟩
  · exact leads_combine depth op a b

theorem leads_unary (op : String) (v : Value) :
    Leads (unary op v) m (fun w m' => m' = m ∧ ∃ s, w = .scalar s) (FailsPlainly m) := by
  unfold unary
  split
  · refine leads_bind.mpr (leads_ofExcept.mpr ⟨fun s _ => ?_, fun e h => ?_⟩)
    · exact leads_pure.mpr ⟨rfl, s, rfl⟩
    · exact ⟨rfl, Scalar.isPlain_of_unary h⟩
  · split
    · exact leads_fail.mpr ⟨rfl, rfl⟩
    · exact leads_fail.mpr ⟨rfl, rfl⟩
    · exact leads_fail.mpr ⟨rfl, rfl⟩

theorem leads_print (depth : Nat) (vs : List Value) :
    Leads (print depth vs) m (fun _ m' => m'.store = m.store) (FailsPlainly m) := by
  unfold print
  refine leads_bind.mpr (leads_store.mpr ?_)
  refine leads_bind.mpr (leads_ofOutcome.mpr ⟨fun line _ => rfl, fun f h => ⟨rfl, ?_⟩⟩)
  rcases Store.short_of_spellLine h with rfl | hshort
  · rfl
  · exact hshort.isPlain

/-! ## Names -/

/-- Binding a name succeeds exactly if the frame exists and does not bind the name yet. -/
theorem leads_define (frame : Nat) (name : String) (v : Value) :
    Leads (define frame name v) m
      (fun _ m' => (∃ f, m.store.frames.frames[frame]? = some f ∧ f.binds name = false) ∧
        m' = { m with store := m.store.modifyFrames (·.bindAt frame name v) })
      (fun f m' => m' = m ∧
        ((m.store.frames.frames[frame]? = none ∧ f = .ofError (.undefined name)) ∨
          (∃ fr, m.store.frames.frames[frame]? = some fr ∧ fr.binds name = true ∧
            f = .ofError (.alreadyDeclared name)))) := by
  unfold define
  refine leads_bind.mpr (leads_store.mpr ?_)
  unfold Frames.accepts
  cases hf : m.store.frames.frames[frame]? with
  | none => exact leads_bind.mpr ⟨rfl, Or.inl ⟨rfl, rfl⟩⟩
  | some fr =>
    by_cases hb : fr.binds name = true
    · simp only [hb, if_true]
      exact leads_bind.mpr ⟨rfl, Or.inr ⟨fr, rfl, hb, rfl⟩⟩
    · simp only [hb]
      exact leads_bind.mpr ⟨⟨fr, rfl, by simpa using hb⟩, rfl⟩

/-- Assigning to a name changes the binding that a search for it finds. -/
theorem leads_assign (reach frame : Nat) (name : String) (v : Value) :
    Leads (assign reach frame name v) m
      (fun _ m' => ∃ owner, m.store.frames.search name reach frame = .found owner ∧
        m' = { m with store := m.store.modifyFrames (·.rebindAt owner name v) })
      (fun f m' => m' = m ∧
        ((m.store.frames.search name reach frame = .absent ∧ f = .ofError (.undeclared name)) ∨
          (m.store.frames.search name reach frame = .tooFar ∧ f = .tooDeep))) := by
  unfold assign
  refine leads_bind.mpr (leads_store.mpr ?_)
  unfold Frames.owner
  cases hs : m.store.frames.search name reach frame with
  | found owner => exact leads_bind.mpr ⟨owner, rfl, rfl⟩
  | absent => exact leads_bind.mpr ⟨rfl, Or.inl ⟨rfl, rfl⟩⟩
  | tooFar => exact leads_bind.mpr ⟨rfl, Or.inr ⟨rfl, rfl⟩⟩

/-- Looking a name up gives the value of the binding that a search for it finds. -/
theorem leads_lookup (reach frame : Nat) (name : String) :
    Leads (lookup reach frame name) m
      (fun v m' => m' = m ∧ ∃ owner fr, m.store.frames.search name reach frame = .found owner ∧
        m.store.frames.frames[owner]? = some fr ∧ fr.value? name = some v)
      (fun f m' => m' = m ∧
        ((m.store.frames.search name reach frame = .absent ∧ f = .ofError (.undefined name)) ∨
          (m.store.frames.search name reach frame = .tooFar ∧ f = .tooDeep))) := by
  unfold lookup
  refine leads_bind.mpr (leads_store.mpr ?_)
  unfold Frames.get
  cases hs : m.store.frames.search name reach frame with
  | found owner =>
    obtain ⟨fr, hfr, hb⟩ := Frames.binds_of_search hs
    obtain ⟨v, hv⟩ := Frame.exists_value?_of_binds hb
    simp only [hfr, Option.bind_some, hv]
    exact ⟨rfl, owner, fr, rfl, hfr, hv⟩
  | absent => exact ⟨rfl, Or.inl ⟨rfl, rfl⟩⟩
  | tooFar => exact ⟨rfl, Or.inr ⟨rfl, rfl⟩⟩

end Eval

end Dee
