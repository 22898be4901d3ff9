import Dee.Operator
import Dee.Store.Equality
import Dee.Store.Render

/-!
# Evaluation steps

A machine holds the store and what was printed so far. A step of evaluation changes the machine and
gives a result or a failure; what it changed before a failure stays changed.
-/

namespace Dee

/-- The state of a run. -/
structure Machine where
  store : Store
  output : String

def Machine.globalFrame : Nat := 0

def Machine.initial : Machine := ⟨.initial, ""⟩

/-- A step of evaluation. -/
abbrev Eval := ExceptT Failure (StateM Machine)

namespace Eval

variable {α : Type}

/-! ## Failing -/

/-- Fails with an error whose position is still open. -/
def fail (e : EvalError) : Eval α := throw (.ofError e)

/-- A result that may be an error. -/
def ofExcept : Except EvalError α → Eval α
  | .ok a => pure a
  | .error e => fail e

/-- A result that may be a failure. -/
def ofOutcome : Except Failure α → Eval α
  | .ok a => pure a
  | .error e => throw e

/-- A result that is missing if something is nested too deeply. -/
def ofBounded : Option α → Eval α
  | some a => pure a
  | none => throw .tooDeep

/-- Gives an error without a position the position of the part that was evaluated. -/
def locating (pos : Pos) (x : Eval α) : Eval α := fun m =>
  match x m with
  | (.error (.error e), m') => (.error (.error (e.placeAt pos)), m')
  | r => r

/-! ## The store -/

def store : Eval Store := return (← get).store

def modifyStore (f : Store → Store) : Eval Unit :=
  modify fun m => { m with store := f m.store }

/-- Makes something new in the store. -/
def make (f : Store → α × Store) : Eval α :=
  modifyGet fun m =>
    let (a, store) := f m.store
    (a, { m with store })

def define (frame : Nat) (name : String) (v : Value) : Eval Unit := do
  ofExcept ((← store).frames.accepts frame name)
  modifyStore (·.modifyFrames (·.bindAt frame name v))

def assign (reach frame : Nat) (name : String) (v : Value) : Eval Unit := do
  let owner ← ofOutcome ((← store).frames.owner reach frame name)
  modifyStore (·.modifyFrames (·.rebindAt owner name v))

def lookup (reach frame : Nat) (name : String) : Eval Value := do
  let st ← store
  ofOutcome (st.frames.get reach frame name)

/-- Prints values on a line; nothing is printed if one of them has no text. -/
def print (depth : Nat) (vs : List Value) : Eval Unit := do
  let st ← store
  let line ← ofOutcome (st.spellLine depth vs)
  modify fun m => { m with output := m.output ++ line }

/-! ## Containers -/

def requireInt (role : IntRole) : Value → Eval Int
  | .scalar (.int n) => pure n
  | v => fail (.notInteger role v.kind)

def elementAt (container : Value) (index : Int) : Eval Value := do
  let st ← store
  match container with
  | .array ref => ofExcept ((st.cells ref).get index)
  | .tuple ref => ofExcept ((st.slots ref).get (.position index))
  | v => fail (.notIndexable v.kind)

def setElementAt (container : Value) (index : Int) (v : Value) : Eval Unit := do
  match container with
  | .array ref =>
    ofOutcome (((← store).cells ref).accepts index)
    modifyStore (·.modifyCells ref (·.write index v))
  | .tuple ref =>
    let entry ← ofExcept (((← store).slots ref).locate (.position index))
    modifyStore (·.modifySlots ref (·.write entry v))
  | c => fail (.notIndexable c.kind)

def memberOf (container : Value) (m : Member) : Eval Value := do
  let st ← store
  match container with
  | .tuple ref => ofExcept ((st.slots ref).get m)
  | v => fail (.noMembers m v.kind)

def setMemberOf (container : Value) (m : Member) (v : Value) : Eval Unit := do
  match container with
  | .tuple ref =>
    let entry ← ofExcept (((← store).slots ref).locate m)
    modifyStore (·.modifySlots ref (·.write entry v))
  | c => fail (.noMembers m c.kind)

/-! ## Operators -/

/-- Applies a binary operator to values that are not both scalars: containers and functions can only
be compared for equality, and joined with their like. -/
def combine (depth : Nat) (op : String) (a b : Value) : Eval Value := do
  match BinaryOp.ofText? op with
  | none => fail (.unknownOperator op)
  | some (.logical _) =>
    if a.kind = .bool then fail (.notBoolean op b.kind) else fail (.notBoolean op a.kind)
  | some (.equality negated) =>
    if a.kind = b.kind then
      let st ← store
      let same ← ofBounded (st.equal depth a b)
      return .bool (same != negated)
    else fail (.incomparable a.kind b.kind)
  | some (.arithmetic .add) =>
    let st ← store
    match a, b with
    | .array i, .array j =>
      let cells ← ofOutcome ((st.cells i).concat (st.cells j))
      make (·.newArray cells)
    | .tuple i, .tuple j =>
      ofOutcome (Memory.room ((st.slots i).length + (st.slots j).length))
      let slots ← ofExcept ((st.slots i).concat (st.slots j))
      make (·.newTuple slots)
    | _, _ => fail (.operands op a.kind b.kind)
  | some _ => fail (.operands op a.kind b.kind)

def binary (depth : Nat) (op : String) (a b : Value) : Eval Value := do
  match a, b with
  | .scalar x, .scalar y => return .scalar (← ofOutcome (Scalar.binary op x y))
  | _, _ => combine depth op a b

def unary (op : String) : Value → Eval Value
  | .scalar x => return .scalar (← ofExcept (Scalar.unary op x))
  | v =>
    match UnaryOp.ofText? op with
    | none => fail (.unknownUnary op)
    | some .not => fail (.notBoolean op v.kind)
    | some _ => fail (.operand op v.kind)

end Eval

end Dee
