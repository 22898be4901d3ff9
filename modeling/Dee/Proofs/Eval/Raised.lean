import Dee.Proofs.Eval.Call
import Dee.Proofs.Program.WellFormed

/-!
# Failures that a step raises itself

Three errors concern the form of the code: an operator that nothing is known of, binary or unary,
and a target that cannot be assigned to. One concerns its jumps: a call that a jump leaves. All
others concern values. `Failure.IsRaised wellFormed` says of a failure that it is no abort and no
stray jump, and that it concerns the form of the code only if the code is not well-formed. There is
one lemma for each primitive step. Three steps can also abort, for want of room: writing to an
element of an array, joining two values, and printing.
-/

namespace Dee

open Eval

/-! ## What errors concern -/

/-- Whether an error concerns the form of the code. -/
def EvalError.concernsForm : EvalError → Bool
  | .unknownOperator _ => true
  | .unknownUnary _ => true
  | .invalidTarget => true
  | _ => false

/-- Whether an error concerns values: neither the form of the code nor its jumps. -/
def EvalError.concernsValues : EvalError → Bool
  | .stray _ => false
  | e => !e.concernsForm

theorem EvalError.concernsForm_of_concernsValues {e : EvalError} (h : e.concernsValues = true) :
    e.concernsForm = false := by
  cases e <;> first | rfl | cases h

/-- An error about values, or about the form of code that is not well-formed; or nesting beyond the
limit. -/
def Failure.IsRaised (wellFormed : Bool) : Failure → Prop
  | .error e => e.cause.concernsValues = true ∨ e.cause.concernsForm = true ∧ wellFormed = false
  | .tooDeep => True
  | .abort _ => False

/-! ## Scalars and containers -/

namespace Scalar

theorem concernsValues_of_requireBool {text : String} {s : Scalar} {e : EvalError}
    (h : s.requireBool text = .error e) : e.concernsValues = true := by
  unfold requireBool at h
  split at h
  · cases h
  · cases h; rfl

theorem concernsValues_of_apply {op : Arithmetic} {text : String} {a b : Number} {e : EvalError}
    (h : op.apply text a b = .error e) : e.concernsValues = true := by
  unfold Arithmetic.apply at h
  split at h
  · cases h; rfl
  · split at h
    · cases h
    · split at h
      · cases h
      · cases h; rfl

/-- A binary operator raises an error about its form only if nothing is known of it. -/
theorem isRaised_of_combine {text : String} {a b : Scalar} {e : EvalError}
    (h : Scalar.combine text a b = .error e) :
    (Failure.ofError e).IsRaised (BinaryOp.ofText? text).isSome := by
  unfold Scalar.combine at h
  split at h
  next hnone =>
    cases h
    exact Or.inr ⟨rfl, by rw [hnone]; rfl⟩
  next op _ =>
    cases ha : a.requireBool text with
    | error e' =>
      rw [ha] at h
      cases h
      exact Or.inl (concernsValues_of_requireBool ha)
    | ok x =>
      cases hb : b.requireBool text with
      | error e' =>
        rw [ha, hb] at h
        cases h
        exact Or.inl (concernsValues_of_requireBool hb)
      | ok y =>
        rw [ha, hb] at h
        cases h
  · split at h
    · cases h
    · cases h; exact Or.inl rfl
  · split at h
    · cases h
    · cases h; exact Or.inl rfl
  · split at h
    next x y _ _ =>
      cases hr : Arithmetic.apply _ text x y with
      | error e' =>
        rw [hr] at h
        cases h
        exact Or.inl (concernsValues_of_apply hr)
      | ok n =>
        rw [hr] at h
        cases h
    next =>
      split at h
      · cases h
      · cases h; exact Or.inl rfl

/-- A unary operator raises an error about its form only if nothing is known of it. -/
theorem isRaised_of_unary {text : String} {a : Scalar} {e : EvalError}
    (h : Scalar.unary text a = .error e) :
    (Failure.ofError e).IsRaised (UnaryOp.ofText? text).isSome := by
  unfold Scalar.unary at h
  split at h
  next hnone =>
    cases h
    exact Or.inr ⟨rfl, by rw [hnone]; rfl⟩
  · cases ha : a.requireBool text with
    | error e' =>
      rw [ha] at h
      cases h
      exact Or.inl (concernsValues_of_requireBool ha)
    | ok x =>
      rw [ha] at h
      cases h
  · split at h
    · cases h
    · cases h; exact Or.inl rfl

end Scalar

theorem Cells.concernsValues_of_get {c : Cells} {index : Int} {e : EvalError}
    (h : c.get index = .error e) : e.concernsValues = true := by
  unfold Cells.get at h
  split at h
  · cases h; rfl
  · cases h

theorem Slots.concernsValues_of_locate {s : Slots} {m : Member} {e : EvalError}
    (h : s.locate m = .error e) : e.concernsValues = true := by
  rw [Slots.eq_of_locate_error h]
  cases m <;> rfl

theorem Slots.concernsValues_of_get {s : Slots} {m : Member} {e : EvalError}
    (h : s.get m = .error e) : e.concernsValues = true := by
  unfold Slots.get at h
  cases hl : s.locate m with
  | error e' =>
    rw [hl] at h
    cases h
    exact Slots.concernsValues_of_locate hl
  | ok i =>
    rw [hl] at h
    cases h

theorem Slots.concernsValues_of_append {s : Slots} {name : Option String} {v : Value}
    {e : EvalError}
    (h : s.append name v = .error e) : e.concernsValues = true := by
  obtain ⟨_, rfl⟩ := Slots.duplicate_of_append h
  rfl

theorem Slots.concernsValues_of_concat {s t : Slots} {e : EvalError} (h : s.concat t = .error e) :
    e.concernsValues = true := by
  obtain ⟨_, rfl⟩ := Slots.duplicate_of_concat h
  rfl

theorem Frames.concernsValues_of_accepts {fs : Frames Value} {frame : Nat} {name : String}
    {e : EvalError}
    (h : fs.accepts frame name = .error e) : e.concernsValues = true := by
  unfold Frames.accepts at h
  split at h
  · cases h; rfl
  · split at h
    · cases h; rfl
    · cases h

/-! ## Steps -/

namespace Eval

variable {α β : Type} {x : Eval α} {wellFormed : Bool}

/-- Every failure of the step is raised by code that is well-formed or not. -/
def Raises (wellFormed : Bool) (x : Eval α) : Prop :=
  ∀ m f m', x m = (.error f, m') → f.IsRaised wellFormed

theorem raises_pure (a : α) : Raises wellFormed (pure a : Eval α) := by
  intro m f m' h
  cases h

theorem raises_fail {e : EvalError} (h : (Failure.ofError e).IsRaised wellFormed) :
    Raises wellFormed (fail e : Eval α) := by
  intro m f m' hf
  cases hf
  exact h

theorem Raises.bind {g : α → Eval β} (hx : Raises wellFormed x)
    (hg : ∀ a, Raises wellFormed (g a)) :
    Raises wellFormed (x >>= g) := by
  intro m f m' h
  rcases hm : x m with ⟨result, m₁⟩
  cases result with
  | ok a =>
    rw [bind_apply_ok hm] at h
    exact hg a m₁ f m' h
  | error e =>
    rw [bind_apply_error hm] at h
    cases h
    exact hx m f m' hm

theorem raises_ofExcept {result : Except EvalError α}
    (h : ∀ e, result = .error e → (Failure.ofError e).IsRaised wellFormed) :
    Raises wellFormed (ofExcept result) := by
  cases result with
  | ok a => exact raises_pure a
  | error e => exact raises_fail (h e rfl)

theorem raises_ofBounded (result : Option α) : Raises wellFormed (ofBounded result) := by
  cases result with
  | some a => exact raises_pure a
  | none =>
    intro m f m' h
    cases h
    trivial

theorem raises_ofOutcome {result : Except Failure α}
    (h : ∀ f, result = .error f → f.IsRaised wellFormed) :
    Raises wellFormed (ofOutcome result) := by
  cases result with
  | ok a => exact raises_pure a
  | error e =>
    intro m f m' hf
    cases hf
    exact h e rfl

theorem raises_store : Raises wellFormed store := by
  intro m f m' h
  cases h

theorem raises_modifyStore (g : Store → Store) : Raises wellFormed (modifyStore g) := by
  intro m f m' h
  cases h

theorem raises_make (g : Store → α × Store) : Raises wellFormed (make g) := by
  intro m f m' h
  cases h

/-! ## Names -/

theorem raises_define (frame : Nat) (name : String) (v : Value) :
    Raises wellFormed (define frame name v) := by
  exact raises_store.bind fun st =>
    (raises_ofExcept fun _ he => Or.inl (Frames.concernsValues_of_accepts he)).bind fun _ =>
      raises_modifyStore _

theorem raises_assign (reach frame : Nat) (name : String) (v : Value) :
    Raises wellFormed (assign reach frame name v) := by
  refine raises_store.bind fun st => (raises_ofOutcome fun f hf => ?_).bind fun _ =>
    raises_modifyStore _
  unfold Frames.owner at hf
  split at hf
  · cases hf
  · cases hf
    exact Or.inl rfl
  · cases hf
    trivial

theorem raises_lookup (reach frame : Nat) (name : String) :
    Raises wellFormed (lookup reach frame name) := by
  refine raises_store.bind fun st => raises_ofOutcome fun f hf => ?_
  unfold Frames.get at hf
  split at hf
  · split at hf
    · cases hf
    · cases hf
      exact Or.inl rfl
  · cases hf
    exact Or.inl rfl
  · cases hf
    trivial

/-! ## Values -/

theorem raises_error (e : EvalError) (h : e.concernsValues = true) :
    Raises wellFormed (fail e : Eval α) :=
  raises_fail (Or.inl h)

theorem raises_result {result : Except EvalError α}
    (h : ∀ e, result = .error e → e.concernsValues = true) : Raises wellFormed (ofExcept result) :=
  raises_ofExcept fun e he => Or.inl (h e he)

theorem raises_requireInt (role : IntRole) (v : Value) : Raises wellFormed (requireInt role v) := by
  unfold requireInt
  split
  · exact raises_pure _
  · exact raises_error _ rfl

theorem raises_elementAt (container : Value) (index : Int) :
    Raises wellFormed (elementAt container index) := by
  refine raises_store.bind fun st => ?_
  split
  · exact raises_result fun _ => Cells.concernsValues_of_get
  · exact raises_result fun _ => Slots.concernsValues_of_get
  · exact raises_error _ rfl

theorem raises_memberOf (container : Value) (member : Member) :
    Raises wellFormed (memberOf container member) := by
  refine raises_store.bind fun st => ?_
  split
  · exact raises_result fun _ => Slots.concernsValues_of_get
  · exact raises_error _ rfl

theorem raises_setMemberOf (container : Value) (member : Member) (v : Value) :
    Raises wellFormed (setMemberOf container member v) := by
  unfold setMemberOf
  split
  · refine raises_store.bind fun st => (raises_result fun _ => ?_).bind fun _ =>
      raises_modifyStore _
    exact Slots.concernsValues_of_locate
  · exact raises_error _ rfl

/-- A unary operator raises an error about its form only if nothing is known of it. -/
theorem raises_unary (op : String) (v : Value) :
    Raises (UnaryOp.ofText? op).isSome (unary op v) := by
  unfold unary
  split
  · exact (raises_ofExcept fun e he => Scalar.isRaised_of_unary he).bind fun s => raises_pure _
  · split
    next hnone => exact raises_fail (Or.inr ⟨rfl, by rw [hnone]; rfl⟩)
    · exact raises_error _ rfl
    · exact raises_error _ rfl

end Eval

/-! ## Steps that there may be no room for -/

/-- There is no room for what joining two values makes: the characters of two strings, the elements
of two arrays or the entries of two tuples. -/
inductive Store.ShortOfJoin (st : Store) : Value → Value → Abort → Prop
  | strings {s t : String} (h : Memory.capacity ≤ s.length + t.length) :
      ShortOfJoin st (.scalar (.str s)) (.scalar (.str t)) (Memory.shortage (s.length + t.length))
  | arrays {i j : Nat} (h : Memory.capacity ≤ (st.cells i).length + (st.cells j).length) :
      ShortOfJoin st (.array i) (.array j) .outOfMemory
  | tuples {i j : Nat} (h : Memory.capacity ≤ (st.slots i).length + (st.slots j).length) :
      ShortOfJoin st (.tuple i) (.tuple j) .outOfMemory

namespace Eval

variable {depth : Nat} {op : String} {a b container v : Value} {vs : List Value} {index : Int}
  {m m' : Machine} {f : Failure}

theorem ofOutcome_eq_error {α : Type} {result : Except Failure α} :
    ofOutcome result m = (.error f, m') ↔ result = .error f ∧ m' = m := by
  cases result with
  | ok x => exact iff_of_false nofun nofun
  | error g => exact ⟨by rintro ⟨⟩; exact ⟨rfl, rfl⟩, by rintro ⟨⟨⟩, rfl⟩; rfl⟩

/-- Printing fails if the values have no line. -/
theorem print_eq_error :
    print depth vs m = (.error f, m') ↔ m.store.spellLine depth vs = .error f ∧ m' = m := by
  change (ofOutcome (m.store.spellLine depth vs) >>= _) m = _ ↔ _
  rw [bind_eq_error, ofOutcome_eq_error, or_iff_left]
  rintro ⟨line, m₁, -, ⟨⟩⟩

/-- Apart from joining, an operator on values that are not both scalars makes nothing. -/
theorem raises_combine (hop : op ≠ "+") (depth : Nat) (a b : Value) :
    Raises (BinaryOp.ofText? op).isSome (combine depth op a b) := by
  unfold combine
  split
  next hnone => exact raises_fail (Or.inr ⟨rfl, by rw [hnone]; rfl⟩)
  · split
    · exact raises_error _ rfl
    · exact raises_error _ rfl
  · split
    · refine raises_store.bind fun st => (raises_ofBounded _).bind fun same => ?_
      exact raises_pure _
    · exact raises_error _ rfl
  next hadd => exact absurd (BinaryOp.ofText?_eq_add.mp hadd) hop
  · exact raises_error _ rfl

/-- Values that are not both scalars are joined if they are both arrays or both tuples. -/
theorem combine_add_eq_error (h : combine depth "+" a b m = (.error f, m')) :
    f.IsRaised true ∨ ∃ abort, m.store.ShortOfJoin a b abort ∧ f = .abort abort := by
  have herror : ∀ {e : EvalError}, e.concernsValues = true →
      (fail e : Eval Value) m = (.error f, m') → f.IsRaised true := fun he hf =>
    raises_error _ he m f m' hf
  cases a with
  | array i =>
    cases b with
    | array j =>
      change (ofOutcome ((m.store.cells i).concat (m.store.cells j)) >>= _) m = _ at h
      rcases bind_eq_error.mp h with h | ⟨cells, m₁, -, ⟨⟩⟩
      obtain ⟨hfull, rfl⟩ := Cells.concat_eq_error.mp (ofOutcome_eq_error.mp h).1
      exact Or.inr ⟨_, .arrays hfull, rfl⟩
    | scalar s => exact Or.inl (herror rfl h)
    | tuple j => exact Or.inl (herror rfl h)
    | func j => exact Or.inl (herror rfl h)
  | tuple i =>
    cases b with
    | tuple j =>
      change (ofOutcome (Memory.room ((m.store.slots i).length + (m.store.slots j).length)) >>= _)
        m = _ at h
      rcases bind_eq_error.mp h with h | ⟨_, m₁, -, h⟩
      · obtain ⟨hfull, rfl⟩ := Memory.room_eq_error.mp (ofOutcome_eq_error.mp h).1
        exact Or.inr ⟨_, .tuples hfull, rfl⟩
      · have hraises : Raises true (do
            let slots ← ofExcept ((m.store.slots i).concat (m.store.slots j))
            make (·.newTuple slots)) :=
          (raises_result fun _ => Slots.concernsValues_of_concat).bind fun slots => raises_make _
        exact Or.inl (hraises m₁ f m' h)
    | scalar s => exact Or.inl (herror rfl h)
    | array j => exact Or.inl (herror rfl h)
    | func j => exact Or.inl (herror rfl h)
  | scalar s => cases b <;> exact Or.inl (herror rfl h)
  | func i => cases b <;> exact Or.inl (herror rfl h)

/-- A binary operator raises an error about its form only if nothing is known of it. It aborts only
where it joins two values and there is no room for the result. -/
theorem binary_eq_error (h : binary depth op a b m = (.error f, m')) :
    f.IsRaised (BinaryOp.ofText? op).isSome ∨
      op = "+" ∧ ∃ abort, m.store.ShortOfJoin a b abort ∧ f = .abort abort := by
  have hcombine : combine depth op a b m = (.error f, m') →
      f.IsRaised (BinaryOp.ofText? op).isSome ∨
        op = "+" ∧ ∃ abort, m.store.ShortOfJoin a b abort ∧ f = .abort abort := by
    intro h
    by_cases hadd : op = "+"
    · subst hadd
      exact (combine_add_eq_error h).imp_right fun hshort => ⟨rfl, hshort⟩
    · exact Or.inl (raises_combine hadd depth a b m f m' h)
  unfold binary at h
  split at h
  next x y =>
    rcases bind_eq_error.mp h with h | ⟨c, m₁, -, ⟨⟩⟩
    rcases Scalar.binary_eq_error.mp (ofOutcome_eq_error.mp h).1 with ⟨e, he, rfl⟩ |
      ⟨s, hs, hfull, rfl⟩
    · exact Or.inl (Scalar.isRaised_of_combine he)
    · obtain ⟨rfl, t, u, rfl, rfl, rfl⟩ := Scalar.combine_eq_str.mp hs
      rw [String.length_append] at hfull ⊢
      exact Or.inr ⟨rfl, _, .strings hfull, rfl⟩
  next => exact hcombine h

/-- A write to an element raises an error, or there is no room for an array that reaches so far. -/
theorem setElementAt_eq_error (h : setElementAt container index v m = (.error f, m')) :
    f.IsRaised true ∨ ∃ ref, container = .array ref ∧ 0 < (m.store.cells ref).growth index ∧
      Memory.capacity ≤ index.toNat ∧
      f = .abort (Memory.shortage ((m.store.cells ref).growth index)) := by
  cases container with
  | array ref =>
    change (ofOutcome ((m.store.cells ref).accepts index) >>= _) m = _ at h
    rcases bind_eq_error.mp h with h | ⟨_, m₁, -, ⟨⟩⟩
    rcases Cells.accepts_eq_error.mp (ofOutcome_eq_error.mp h).1 with ⟨-, rfl⟩ | hshort
    · exact Or.inl (Or.inl rfl)
    · exact Or.inr ⟨ref, rfl, hshort⟩
  | tuple ref =>
    have hraises : Raises true (setElementAt (.tuple ref) index v) :=
      raises_store.bind fun st => (raises_result fun _ => Slots.concernsValues_of_locate).bind
        fun _ => raises_modifyStore _
    exact Or.inl (hraises m f m' h)
  | scalar s => exact Or.inl (raises_error (α := Unit) _ rfl m f m' h)
  | func ref => exact Or.inl (raises_error (α := Unit) _ rfl m f m' h)

end Eval

/-! ## Calls -/

namespace Runner

variable {wellFormed : Bool}

theorem raises_bindParams (frame : Nat) (params : List String) (args : List Value) :
    Raises wellFormed (bindParams frame params args) := by
  fun_induction bindParams frame params args with
  | case1 p ps v vs ih => exact (raises_define frame p v).bind fun _ => ih
  | case2 => exact raises_pure ()

theorem raises_declareAll (frame : Nat) (vars : List VarDef) :
    Raises wellFormed (declareAll frame vars) := by
  induction vars with
  | nil => exact raises_pure ()
  | cons v rest ih => exact (raises_define frame v.name _).bind fun _ => ih

/-- What a body ends with is an error for the caller exactly if it is a jump other than a return. -/
theorem resultOf_eq_error {signal : Option Signal} {m m' : Machine} {f : Failure} :
    resultOf signal m = (.error f, m') ↔
      ∃ g, signal = some g ∧ g.jump ≠ .leaveFunction ∧ f = .ofError (.stray g.jump) ∧ m' = m := by
  cases signal with
  | none => exact ⟨by rintro ⟨⟩, by rintro ⟨g, ⟨⟩, -⟩⟩
  | some g =>
    cases g with
    | leave v => exact ⟨by rintro ⟨⟩, by rintro ⟨g, ⟨⟩, h, -⟩; exact absurd rfl h⟩
    | exitLoop => exact ⟨by rintro ⟨⟩; exact ⟨_, rfl, by simp [Signal.jump], rfl, rfl⟩,
        by rintro ⟨g, ⟨⟩, -, rfl, rfl⟩; rfl⟩
    | nextTurn => exact ⟨by rintro ⟨⟩; exact ⟨_, rfl, by simp [Signal.jump], rfl, rfl⟩,
        by rintro ⟨g, ⟨⟩, -, rfl, rfl⟩; rfl⟩

end Runner

end Dee
