import Dee.Eval.Loop

/-!
# Evaluation of programs

Each rule is written over a `Runner`, which evaluates the parts of an expression or statement. The
runner of one depth evaluates parts by the runner of the depth below, and at depth zero a program
is nested too deeply, by its text or by its calls. So evaluation recurses on the depth alone.

Operands are evaluated from left to right, and both operands of a logical operator always.
-/

namespace Dee

/-- Evaluates the parts of expressions and statements in a frame. -/
structure Runner where
  /-- How many levels are left below; the walks over frames and containers keep to it too. -/
  depth : Nat
  /-- How many turns a loop without items may take. -/
  turns : Nat
  eval : Expr → (frame : Nat) → Eval Value
  exec : Stmt → (frame : Nat) → Eval (Option Signal)

namespace Runner

def evalAll (r : Runner) (es : List Expr) (frame : Nat) : Eval (List Value) :=
  es.mapM fun e => r.eval e frame

/-! ## Functions -/

def bindParams (frame : Nat) : List String → List Value → Eval Unit
  | p :: ps, v :: vs => do
    Eval.define frame p v
    bindParams frame ps vs
  | _, _ => return ()

/-- What a body of statements gives to the caller. -/
def resultOf : Option Signal → Eval Value
  | none => return Value.none
  | some (.leave v) => return v
  | some signal => Eval.fail (.stray signal.jump)

/-- Calls a value: binds the parameters in a new frame under the frame of the function, and runs its
body there. -/
def invoke (r : Runner) (func : Value) (args : List Value) : Eval Value := do
  match func with
  | .func ref =>
    let closure := (← Eval.store).closure ref
    if args.length = closure.params.length then
      let frame ← Eval.make (·.newFrame closure.frame)
      bindParams frame closure.params args
      match closure.expression with
      | some e => r.eval e frame
      | none => resultOf (← runAll (r.exec · frame) closure.statements)
    else Eval.fail (.argumentCount closure.params.length args.length)
  | v => Eval.fail (.notCallable v.kind)

/-! ## Expressions -/

def evalEntries (r : Runner) (frame : Nat) : List TupleEntry → Slots → Eval Slots
  | [], slots => return slots
  | ⟨name, e⟩ :: rest, slots => do
    let v ← r.eval e frame
    let slots ← Eval.ofExcept (slots.append name v)
    evalEntries r frame rest slots

/-- Evaluates an expression, all but the position of its errors. -/
def evalRule (r : Runner) (frame : Nat) : Expr → Eval Value
  | .literal _ value _ => return .scalar value
  | .reference _ name => Eval.lookup r.depth frame name
  | .binary _ op left right => do
    let a ← r.eval left frame
    let b ← r.eval right frame
    Eval.binary r.depth op a b
  | .unary _ op operand => do
    let a ← r.eval operand frame
    Eval.unary op a
  | .call _ func args => do
    let f ← r.eval func frame
    let vs ← r.evalAll args frame
    r.invoke f vs
  | .index _ value index => do
    let container ← r.eval value frame
    let i ← Eval.requireInt .index (← r.eval index frame)
    Eval.elementAt container i
  | .array _ elements => do
    let vs ← r.evalAll elements frame
    Eval.make (·.newArray ⟨vs.toArray⟩)
  | .tuple _ entries => do
    let slots ← r.evalEntries frame entries .empty
    Eval.make (·.newTuple slots)
  | .function _ params statements expression =>
    Eval.make (·.newClosure ⟨params, statements, expression, frame⟩)
  | .typeCheck _ value indicator => do
    let v ← r.eval value frame
    match Kind.ofIndicator? indicator with
    | some kind => return .bool (v.kind = kind)
    | none => Eval.fail (.unknownIndicator indicator)
  | .member _ value member => do
    let container ← r.eval value frame
    Eval.memberOf container member

/-! ## Statements -/

def declareAll (frame : Nat) : List VarDef → Eval Unit
  | [] => return ()
  | v :: rest => do
    Eval.define frame v.name Value.none
    declareAll frame rest

def storeInitial (r : Runner) (frame : Nat) : List VarDef → Eval Unit
  | [] => return ()
  | ⟨_, none⟩ :: rest => r.storeInitial frame rest
  | ⟨name, some e⟩ :: rest => do
    let v ← r.eval e frame
    Eval.assign r.depth frame name v
    r.storeInitial frame rest

def assignTo (r : Runner) (frame : Nat) (v : Value) : Expr → Eval Unit
  | .reference _ name => Eval.assign r.depth frame name v
  | .index _ value index => do
    let container ← r.eval value frame
    let i ← Eval.requireInt .index (← r.eval index frame)
    Eval.setElementAt container i v
  | .member _ value member => do
    let container ← r.eval value frame
    Eval.setMemberOf container member v
  | _ => Eval.fail .invalidTarget

/-- What a loop over a range or a value runs over. -/
def itemsOf (r : Runner) (frame : Nat) (iterable : Expr) : Option Expr → Eval Items
  | some last => do
    let first ← Eval.requireInt .rangeStart (← r.eval iterable frame)
    let last ← Eval.requireInt .rangeEnd (← r.eval last frame)
    return .ofRange first last
  | none => do
    let container ← r.eval iterable frame
    let st ← Eval.store
    match container with
    | .array ref => return .ofArray (st.cells ref).items
    | .tuple ref => return .ofArray (st.slots ref).values.toArray
    | v => Eval.fail (.notIterable v.kind)

/-- A turn of a loop over items: the loop variable, if there is one, is bound in a new frame. -/
def itemTurn (r : Runner) (frame : Nat) (loopVar : Option String) (body : Block) (item : Value) :
    Eval Turn := do
  match loopVar with
  | some name =>
    let inner ← Eval.make (·.newFrame frame)
    Eval.define inner name item
    return .ofSignal (← r.exec (.block body) inner)
  | none => return .ofSignal (← r.exec (.block body) frame)

def holds (r : Runner) (condition : Expr) (frame : Nat) : Eval Bool := do
  let v ← r.eval condition frame
  return (← Eval.store).truthy v

/-- Runs a statement, all but the position of its errors. -/
def execRule (r : Runner) (frame : Nat) : Stmt → Eval (Option Signal)
  | .declaration _ vars => do
    declareAll frame vars
    r.storeInitial frame vars
    return none
  | .assign _ target value => do
    let v ← r.eval value frame
    r.assignTo frame v target
    return none
  | .block body => do
    let inner ← Eval.make (·.newFrame frame)
    runAll (r.exec · inner) body.statements
  | .conditional _ condition thenBlock elseBlock => do
    if ← r.holds condition frame then r.exec (.block thenBlock) frame
    else
      match elseBlock with
      | some other => r.exec (.block other) frame
      | none => return none
  | .whileLoop _ condition body =>
    takeTurns (do
      if ← r.holds condition frame then return .ofSignal (← r.exec (.block body) frame)
      else return .stop none) r.turns
  | .forLoop _ _ body none _ =>
    takeTurns (do return .ofSignal (← r.exec (.block body) frame)) r.turns
  | .forLoop _ loopVar body (some iterable) rangeEnd => do
    let items ← r.itemsOf frame iterable rangeEnd
    items.forEach (r.itemTurn frame loopVar body)
  | .returnStmt _ none => return some (.leave Value.none)
  | .returnStmt _ (some e) => do
    let v ← r.eval e frame
    return some (.leave v)
  | .exitStmt _ => return some .exitLoop
  | .continueStmt _ => return some .nextTurn
  | .print _ values => do
    let vs ← r.evalAll values frame
    Eval.print r.depth vs
    return none
  | .expr _ value => do
    let _ ← r.eval value frame
    return none

/-! ## Depth -/

/-- The runner that accepts `depth` levels of nesting. -/
def ofDepth (turns : Nat) : (depth : Nat) → Runner
  | 0 =>
    { depth := 0
      turns
      eval := fun _ _ => throw .tooDeep
      exec := fun _ _ => throw .tooDeep }
  | depth + 1 =>
    let below := ofDepth turns depth
    { depth := depth + 1
      turns
      eval := fun e frame => Eval.locating e.pos (below.evalRule frame e)
      exec := fun s frame => Eval.locating s.pos (below.execRule frame s) }

end Runner

end Dee
