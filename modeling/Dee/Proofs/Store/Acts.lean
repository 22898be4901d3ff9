import Dee.Proofs.Eval.Primitive

/-!
# What is done to arrays and tuples

A history of containers is a list of acts: elements and members are read and written, containers are
joined, and tuples are made and get new entries. An act that fails is passed over, and the next one
finds the machine as it was. `ContainerAct.Effect` lists all that an act can do to a machine. What
holds of arrays behind every history follows from it; tuples carry what holds of them.
-/

namespace Dee

/-! ## Steps on containers -/

/-- A loop over a list runs over its elements. -/
theorem Items.toList_ofArray (vs : Array Value) : (Items.ofArray vs).toList = vs.toList := by
  refine List.ext_getElem (by simp [toList, ofArray]) fun k hk hk' => ?_
  have hlt : k < vs.size := by simpa using hk'
  simp [toList, ofArray, Array.getD, hlt]

namespace Eval

/-- What a loop over a container runs over: its elements or values as they are now. -/
def itemsIn (container : Value) : Eval Items := do
  let st ← store
  match container with
  | .array ref => return .ofArray (st.cells ref).items
  | .tuple ref => return .ofArray (st.slots ref).values.toArray
  | v => fail (.notIterable v.kind)

/-- A loop without a range takes its items from what it is given to run over. -/
theorem itemsOf_none (r : Runner) (frame : Nat) (iterable : Expr) :
    r.itemsOf frame iterable none = r.eval iterable frame >>= itemsIn := rfl

/-- Adds an entry to a tuple. -/
def appendTo (ref : Nat) (name : Option String) (v : Value) : Eval Unit := do
  let slots ← ofExcept (((← store).slots ref).append name v)
  modifyStore (·.modifySlots ref fun _ => slots)

theorem ofExcept_same {α : Type} (result : Except EvalError α) (m : Machine) :
    (ofExcept result m).2 = m := by
  cases result <;> rfl

variable (m : Machine) (depth ref : Nat)

theorem elementAt_array (index : Int) :
    elementAt (.array ref) index m = ofExcept ((m.store.cells ref).get index) m := rfl

theorem memberOf_tuple (member : Member) :
    memberOf (.tuple ref) member m = ofExcept ((m.store.slots ref).get member) m := rfl

/-- Elements of a tuple are its members by position. -/
theorem elementAt_tuple (index : Int) :
    elementAt (.tuple ref) index = memberOf (.tuple ref) (.position index) := rfl

theorem setElementAt_tuple (index : Int) (v : Value) :
    setElementAt (.tuple ref) index v = setMemberOf (.tuple ref) (.position index) v := rfl

theorem setElementAt_array (index : Int) (v : Value) :
    setElementAt (.array ref) index v m =
      match (m.store.cells ref).accepts index with
      | .ok _ => (.ok (), { m with store := m.store.modifyCells ref (·.write index v) })
      | .error f => (.error f, m) := by
  show (ofOutcome ((m.store.cells ref).accepts index) >>= _ : Eval Unit) m = _
  cases (m.store.cells ref).accepts index <;> rfl

theorem setMemberOf_tuple (member : Member) (v : Value) :
    setMemberOf (.tuple ref) member v m =
      match (m.store.slots ref).locate member with
      | .ok place => (.ok (), { m with store := m.store.modifySlots ref (·.write place v) })
      | .error e => (.error (.ofError e), m) := by
  show (ofExcept ((m.store.slots ref).locate member) >>= _ : Eval Unit) m = _
  cases (m.store.slots ref).locate member <;> rfl

theorem appendTo_eq (name : Option String) (v : Value) :
    appendTo ref name v m =
      match (m.store.slots ref).append name v with
      | .ok slots => (.ok (), { m with store := m.store.modifySlots ref fun _ => slots })
      | .error e => (.error (.ofError e), m) := by
  show (ofExcept ((m.store.slots ref).append name v) >>= _ : Eval Unit) m = _
  cases (m.store.slots ref).append name v <;> rfl

theorem join_arrays (i j : Nat) :
    binary depth "+" (.array i) (.array j) m =
      match (m.store.cells i).concat (m.store.cells j) with
      | .ok cells =>
        (.ok (.array m.store.arrays.size), { m with store := (m.store.newArray cells).2 })
      | .error f => (.error f, m) := by
  show (ofOutcome ((m.store.cells i).concat (m.store.cells j)) >>= _ : Eval Value) m = _
  cases (m.store.cells i).concat (m.store.cells j) <;> rfl

variable {m} {i j : Nat}

theorem join_tuples
    (h : (m.store.slots i).length + (m.store.slots j).length < Memory.capacity) :
    binary depth "+" (.tuple i) (.tuple j) m =
      match (m.store.slots i).concat (m.store.slots j) with
      | .ok slots =>
        (.ok (.tuple m.store.tuples.size), { m with store := (m.store.newTuple slots).2 })
      | .error e => (.error (.ofError e), m) := by
  show (ofOutcome (Memory.room _) >>= fun _ => ofExcept _ >>= _ : Eval Value) m = _
  rw [Memory.room_eq_ok.mpr h]
  cases (m.store.slots i).concat (m.store.slots j) <;> rfl

theorem join_tuples_full
    (h : Memory.capacity ≤ (m.store.slots i).length + (m.store.slots j).length) :
    binary depth "+" (.tuple i) (.tuple j) m = (.error (.abort .outOfMemory), m) := by
  show (ofOutcome (Memory.room _) >>= _ : Eval Value) m = _
  rw [Memory.room_eq_error.mpr ⟨h, rfl⟩]
  rfl

end Eval

/-! ## Acts -/

/-- Something done to containers. -/
inductive ContainerAct where
  /-- Reads the element of an array or a tuple at an index. -/
  | get (container : Value) (index : Int)
  /-- Writes the element of an array or a tuple at an index. -/
  | set (container : Value) (index : Int) (v : Value)
  /-- Reads a member of a tuple, by name or by position. -/
  | getMember (container : Value) (member : Member)
  /-- Writes a member of a tuple, by name or by position. -/
  | setMember (container : Value) (member : Member) (v : Value)
  /-- Takes the items for a loop. -/
  | snapshot (container : Value)
  /-- Joins two values by `+`. -/
  | concat (left right : Value)
  /-- Makes a tuple without entries. -/
  | newTuple
  /-- Adds an entry to a tuple. -/
  | append (ref : Nat) (name : Option String) (v : Value)

namespace ContainerAct

/-- Does what the act says; only whether it goes through is kept of the result. -/
def step (depth : Nat) : ContainerAct → Eval Unit
  | .get c index => do let _ ← Eval.elementAt c index
  | .set c index v => Eval.setElementAt c index v
  | .getMember c member => do let _ ← Eval.memberOf c member
  | .setMember c member v => Eval.setMemberOf c member v
  | .snapshot c => do let _ ← Eval.itemsIn c
  | .concat a b => do let _ ← Eval.binary depth "+" a b
  | .newTuple => do let _ ← Eval.make (·.newTuple .empty)
  | .append ref name v => Eval.appendTo ref name v

/-- All that an act can do to the machine `m`. -/
inductive Effect (m : Machine) : ContainerAct → Except Failure Unit → Machine → Prop
  | fails {act : ContainerAct} {f : Failure} : Effect m act (.error f) m
  | get {c : Value} {index : Int} : Effect m (.get c index) (.ok ()) m
  | getMember {c : Value} {member : Member} : Effect m (.getMember c member) (.ok ()) m
  | snapshot {c : Value} : Effect m (.snapshot c) (.ok ()) m
  | setArray {ref : Nat} {index : Int} {v : Value}
      (h : (m.store.cells ref).accepts index = .ok ()) :
      Effect m (.set (.array ref) index v) (.ok ())
        { m with store := m.store.modifyCells ref (·.write index v) }
  | setTuple {ref place : Nat} {index : Int} {v : Value}
      (h : (m.store.slots ref).locate (.position index) = .ok place) :
      Effect m (.set (.tuple ref) index v) (.ok ())
        { m with store := m.store.modifySlots ref (·.write place v) }
  | setMember {ref place : Nat} {member : Member} {v : Value}
      (h : (m.store.slots ref).locate member = .ok place) :
      Effect m (.setMember (.tuple ref) member v) (.ok ())
        { m with store := m.store.modifySlots ref (·.write place v) }
  | concatScalars {s t : Scalar} : Effect m (.concat (.scalar s) (.scalar t)) (.ok ()) m
  | concatArrays {i j : Nat} {cells : Cells}
      (h : (m.store.cells i).concat (m.store.cells j) = .ok cells) :
      Effect m (.concat (.array i) (.array j)) (.ok ())
        { m with store := (m.store.newArray cells).2 }
  | concatTuples {i j : Nat} {slots : Slots}
      (h : (m.store.slots i).concat (m.store.slots j) = .ok slots) :
      Effect m (.concat (.tuple i) (.tuple j)) (.ok ())
        { m with store := (m.store.newTuple slots).2 }
  | newTuple : Effect m .newTuple (.ok ()) { m with store := (m.store.newTuple .empty).2 }
  | append {ref : Nat} {name : Option String} {v : Value} {slots : Slots}
      (h : (m.store.slots ref).append name v = .ok slots) :
      Effect m (.append ref name v) (.ok ())
        { m with store := m.store.modifySlots ref fun _ => slots }

variable {m : Machine}

theorem Effect.of_read {α : Type} {act : ContainerAct} {x : Eval α}
    (hok : Effect m act (.ok ()) m) (hsame : (x m).2 = m) :
    Effect m act ((do let _ ← x : Eval Unit) m).1 ((do let _ ← x : Eval Unit) m).2 := by
  rcases hx : x m with ⟨result, m'⟩
  rw [hx] at hsame
  cases hsame
  cases result with
  | ok a =>
    rw [Eval.bind_apply_ok hx]
    exact hok
  | error f =>
    rw [Eval.bind_apply_error hx]
    exact .fails

/-- An act does to the machine what its effect says, and nothing else. -/
theorem effect_step (depth : Nat) (act : ContainerAct) (m : Machine) :
    act.Effect m (act.step depth m).1 (act.step depth m).2 := by
  cases act with
  | get c index =>
    refine .of_read .get ?_
    cases c with
    | array ref => rw [Eval.elementAt_array, Eval.ofExcept_same]
    | tuple ref => rw [Eval.elementAt_tuple, Eval.memberOf_tuple, Eval.ofExcept_same]
    | scalar s => rfl
    | func ref => rfl
  | getMember c member =>
    refine .of_read .getMember ?_
    cases c with
    | tuple ref => rw [Eval.memberOf_tuple, Eval.ofExcept_same]
    | array ref => rfl
    | scalar s => rfl
    | func ref => rfl
  | snapshot c =>
    refine .of_read .snapshot ?_
    cases c <;> rfl
  | set c index v =>
    cases c with
    | array ref =>
      rw [step, Eval.setElementAt_array]
      cases h : (m.store.cells ref).accepts index with
      | ok u => exact .setArray h
      | error f => exact .fails
    | tuple ref =>
      rw [step, Eval.setElementAt_tuple, Eval.setMemberOf_tuple]
      cases h : (m.store.slots ref).locate (.position index) with
      | ok place => exact .setTuple h
      | error e => exact .fails
    | scalar s => exact .fails
    | func ref => exact .fails
  | setMember c member v =>
    cases c with
    | tuple ref =>
      rw [step, Eval.setMemberOf_tuple]
      cases h : (m.store.slots ref).locate member with
      | ok place => exact .setMember h
      | error e => exact .fails
    | array ref => exact .fails
    | scalar s => exact .fails
    | func ref => exact .fails
  | concat a b =>
    cases a <;> cases b <;> try exact .fails
    case scalar.scalar s t =>
      refine .of_read .concatScalars ?_
      show ((Eval.ofOutcome (Scalar.binary "+" s t) >>= _ : Eval Value) m).2 = m
      cases Scalar.binary "+" s t <;> rfl
    case array.array i j =>
      have hjoin := Eval.join_arrays m depth i j
      cases h : (m.store.cells i).concat (m.store.cells j) with
      | ok cells =>
        rw [h] at hjoin
        rw [step, Eval.bind_apply_ok hjoin]
        exact .concatArrays h
      | error f =>
        rw [h] at hjoin
        rw [step, Eval.bind_apply_error hjoin]
        exact .fails
    case tuple.tuple i j =>
      rcases Nat.lt_or_ge ((m.store.slots i).length + (m.store.slots j).length) Memory.capacity with
        hroom | hfull
      · have hjoin := Eval.join_tuples depth hroom
        cases h : (m.store.slots i).concat (m.store.slots j) with
        | ok slots =>
          rw [h] at hjoin
          rw [step, Eval.bind_apply_ok hjoin]
          exact .concatTuples h
        | error e =>
          rw [h] at hjoin
          rw [step, Eval.bind_apply_error hjoin]
          exact .fails
      · rw [step, Eval.bind_apply_error (Eval.join_tuples_full depth hfull)]
        exact .fails
  | newTuple => exact .newTuple
  | append ref name v =>
    rw [step, Eval.appendTo_eq]
    cases h : (m.store.slots ref).append name v with
    | ok slots => exact .append h
    | error e => exact .fails

/-- An act that fails leaves the machine as it was. -/
theorem eq_of_step_error {depth : Nat} {act : ContainerAct} {f : Failure} {m' : Machine}
    (h : act.step depth m = (.error f, m')) : m' = m := by
  have heffect := act.effect_step depth m
  rw [h] at heffect
  cases heffect
  rfl

end ContainerAct

/-! ## Histories -/

namespace Machine

/-- The machine behind a history of acts. -/
def through (depth : Nat) : List ContainerAct → Machine → Machine
  | [], m => m
  | act :: rest, m => through depth rest (act.step depth m).2

end Machine

end Dee
