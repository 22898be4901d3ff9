import Dee.Operator
import Dee.Program.References

/-!
# Simplification

One walk over a program applies four rules and notes each application:

* an operator applied to literals is replaced by its result, unless applying it fails;
* a conditional with a boolean literal as its condition is replaced by the branch that runs;
* statements behind a return are dropped;
* variables that the program never refers to are dropped, their initial values with them, unless
  their names start with an underscore.

What the program refers to is settled before the walk, on the whole program.
-/

namespace Dee

/-! ## Notes -/

/-- A rule that was applied. -/
inductive Note where
  | foldedBinary (op left right result : String)
  | foldedUnary (op operand result : String)
  | alwaysTrue
  | alwaysFalse
  | neverRuns
  | unreachableAtTop
  | unreachableInBlock
  | unused (name : String)
deriving Repr, DecidableEq

def Note.message : Note → String
  | .foldedBinary op left right result =>
    "Constant folding: " ++ left ++ " " ++ op ++ " " ++ right ++ " -> " ++ result
  | .foldedUnary op operand result =>
    "Constant folding: " ++ op ++ " " ++ operand ++ " -> " ++ result
  | .alwaysTrue =>
    "Dead branch elimination: if condition is always true, removing else branch"
  | .alwaysFalse =>
    "Dead branch elimination: if condition is always false, removing then branch"
  | .neverRuns =>
    "Dead branch elimination: if condition is always false, removing entire if statement"
  | .unreachableAtTop => "Unreachable code detected after return"
  | .unreachableInBlock => "Unreachable code in block after return"
  | .unused name => "Unused variable removal: '" ++ name ++ "'"

instance : Explain Note := ⟨Note.message⟩

/-- A result with the notes on how it came about. -/
structure Noted (α : Type) where
  result : α
  notes : List (Located Note)

namespace Noted

variable {α β : Type}

instance : Monad Noted where
  pure a := ⟨a, []⟩
  bind x f :=
    let y := f x.result
    ⟨y.result, x.notes ++ y.notes⟩

def note (n : Note) (pos : Pos) : Noted Unit := ⟨(), [⟨n, pos⟩]⟩

@[simp] theorem result_pure (a : α) : (pure a : Noted α).result = a := rfl

@[simp] theorem notes_pure (a : α) : (pure a : Noted α).notes = [] := rfl

@[simp] theorem result_bind (x : Noted α) (f : α → Noted β) :
    (x >>= f).result = (f x.result).result := rfl

@[simp] theorem notes_bind (x : Noted α) (f : α → Noted β) :
    (x >>= f).notes = x.notes ++ (f x.result).notes := rfl

@[simp] theorem result_note (n : Note) (pos : Pos) : (note n pos).result = () := rfl

@[simp] theorem notes_note (n : Note) (pos : Pos) : (note n pos).notes = [⟨n, pos⟩] := rfl

end Noted

/-! ## Literals in notes -/

/-- How a scalar is shown between the quotes of a string literal: a string as it is, none and the
booleans with a capital. -/
def Scalar.quotedText : Scalar → String
  | .none => "None"
  | .bool b => if b then "True" else "False"
  | s => s.text

/-- How a note shows a literal. -/
def literalText (value : Scalar) (kind : Kind) : String :=
  if kind = .string then "\"" ++ value.quotedText ++ "\"" else value.text

/-! ## Rules -/

/-- Replaces an operator on two literals by its result; what would be an error stays. -/
def foldBinary (pos : Pos) (op : String) (left right : Expr) : Noted Expr :=
  match left, right with
  | .literal _ a ka, .literal _ b kb =>
    match Scalar.binary op a b with
    | .ok v => do
      Noted.note (.foldedBinary op (literalText a ka) (literalText b kb)
        (literalText v v.kind)) pos
      return .ofScalar pos v
    -- want of room is no case of its own: the strings of a text that fits have room when joined
    | .error _ => return .binary pos op left right
  | _, _ => return .binary pos op left right

def foldUnary (pos : Pos) (op : String) (operand : Expr) : Noted Expr :=
  match operand with
  | .literal _ a ka =>
    match Scalar.unary op a with
    | .ok v => do
      Noted.note (.foldedUnary op (literalText a ka) (literalText v v.kind)) pos
      return .ofScalar pos v
    | .error _ => return .unary pos op operand
  | _ => return .unary pos op operand

/-- The truth of a condition that is a boolean literal. -/
def constantCondition? : Expr → Option Bool
  | .literal _ value .bool => some value.truthy
  | _ => none

/-- Whether a variable is dropped: nothing refers to it and it is not marked by an underscore. -/
def isUnused (used : List String) (name : String) : Bool :=
  !used.contains name && name.toList.head? ≠ some '_'

/-! ## The walk -/

mutual

def Expr.simplify (used : List String) : Expr → Noted Expr
  | .literal pos value kind => return .literal pos value kind
  | .reference pos name => return .reference pos name
  | .binary pos op left right => do
    let left ← left.simplify used
    let right ← right.simplify used
    foldBinary pos op left right
  | .unary pos op operand => do
    let operand ← operand.simplify used
    foldUnary pos op operand
  | .call pos func args => do
    let func ← func.simplify used
    let args ← Expr.simplifyAll used args
    return .call pos func args
  | .index pos value index => do
    let value ← value.simplify used
    let index ← index.simplify used
    return .index pos value index
  | .array pos elements => do
    let elements ← Expr.simplifyAll used elements
    return .array pos elements
  | .tuple pos entries => do
    let entries ← TupleEntry.simplifyAll used entries
    return .tuple pos entries
  | .function pos params statements (some e) => do
    let e ← e.simplify used
    return .function pos params statements (some e)
  | .function pos params statements none => do
    let statements ← Stmt.simplifyAll used .unreachableInBlock statements
    return .function pos params statements none
  | .typeCheck pos value indicator => do
    let value ← value.simplify used
    return .typeCheck pos value indicator
  | .member pos value member => do
    let value ← value.simplify used
    return .member pos value member

def Expr.simplifyAll (used : List String) : List Expr → Noted (List Expr)
  | [] => return []
  | e :: rest => do
    let e ← e.simplify used
    let rest ← Expr.simplifyAll used rest
    return e :: rest

def Expr.simplifyOption (used : List String) : Option Expr → Noted (Option Expr)
  | none => return none
  | some e => do
    let e ← e.simplify used
    return some e

def TupleEntry.simplifyAll (used : List String) : List TupleEntry → Noted (List TupleEntry)
  | [] => return []
  | ⟨name, e⟩ :: rest => do
    let e ← e.simplify used
    let rest ← TupleEntry.simplifyAll used rest
    return ⟨name, e⟩ :: rest

/-- Simplifies a statement; a declaration that loses all its variables is dropped. -/
def Stmt.simplify (used : List String) : Stmt → Noted (Option Stmt)
  | .declaration pos vars => do
    let kept ← VarDef.simplifyAll used pos vars
    return if kept.isEmpty then none else some (.declaration pos kept)
  | .assign pos target value => do
    let target ← target.simplify used
    let value ← value.simplify used
    return some (.assign pos target value)
  | .block ⟨pos, body⟩ => do
    let body ← Stmt.simplifyAll used .unreachableInBlock body
    return some (.block ⟨pos, body⟩)
  | .conditional pos condition ⟨thenPos, body⟩ none => do
    let condition ← condition.simplify used
    match constantCondition? condition with
    | some true =>
      Noted.note .alwaysTrue pos
      let body ← Stmt.simplifyAll used .unreachableInBlock body
      return some (.block ⟨thenPos, body⟩)
    | some false =>
      Noted.note .neverRuns pos
      return some (.block ⟨pos, []⟩)
    | none =>
      let body ← Stmt.simplifyAll used .unreachableInBlock body
      return some (.conditional pos condition ⟨thenPos, body⟩ none)
  | .conditional pos condition ⟨thenPos, body⟩ (some ⟨elsePos, other⟩) => do
    let condition ← condition.simplify used
    match constantCondition? condition with
    | some true =>
      Noted.note .alwaysTrue pos
      let body ← Stmt.simplifyAll used .unreachableInBlock body
      return some (.block ⟨thenPos, body⟩)
    | some false =>
      Noted.note .alwaysFalse pos
      let other ← Stmt.simplifyAll used .unreachableInBlock other
      return some (.block ⟨elsePos, other⟩)
    | none =>
      let other ← Stmt.simplifyAll used .unreachableInBlock other
      let body ← Stmt.simplifyAll used .unreachableInBlock body
      return some (.conditional pos condition ⟨thenPos, body⟩ (some ⟨elsePos, other⟩))
  | .whileLoop pos condition ⟨bodyPos, body⟩ => do
    let condition ← condition.simplify used
    let body ← Stmt.simplifyAll used .unreachableInBlock body
    return some (.whileLoop pos condition ⟨bodyPos, body⟩)
  | .forLoop pos loopVar ⟨bodyPos, body⟩ iterable rangeEnd => do
    let iterable ← Expr.simplifyOption used iterable
    let rangeEnd ← Expr.simplifyOption used rangeEnd
    let body ← Stmt.simplifyAll used .unreachableInBlock body
    return some (.forLoop pos loopVar ⟨bodyPos, body⟩ iterable rangeEnd)
  | .returnStmt pos value => do
    let value ← Expr.simplifyOption used value
    return some (.returnStmt pos value)
  | .exitStmt pos => return some (.exitStmt pos)
  | .continueStmt pos => return some (.continueStmt pos)
  | .print pos values => do
    let values ← Expr.simplifyAll used values
    return some (.print pos values)
  | .expr pos value => do
    let value ← value.simplify used
    return some (.expr pos value)

/-- Simplifies some statements. Behind a return each statement is dropped with a note. -/
def Stmt.simplifyAll (used : List String) (unreachable : Note) :
    List Stmt → Noted (List Stmt)
  | [] => return []
  | s :: rest => do
    match ← s.simplify used with
    | none => Stmt.simplifyAll used unreachable rest
    | some s' =>
      if s'.isReturn then
        Noted.mk [s'] (rest.map fun dropped => ⟨unreachable, dropped.pos⟩)
      else
        let rest ← Stmt.simplifyAll used unreachable rest
        return s' :: rest

def VarDef.simplifyAll (used : List String) (pos : Pos) :
    List VarDef → Noted (List VarDef)
  | [] => return []
  | ⟨name, initializer⟩ :: rest => do
    if isUnused used name then
      Noted.note (.unused name) pos
      VarDef.simplifyAll used pos rest
    else
      let initializer ← Expr.simplifyOption used initializer
      let rest ← VarDef.simplifyAll used pos rest
      return ⟨name, initializer⟩ :: rest

end

def Program.simplify (p : Program) : Noted Program := do
  let statements ← Stmt.simplifyAll p.references .unreachableAtTop p.statements
  return { p with statements }

def Noted.diagnostics {α : Type} (n : Noted α) : List Diagnostic :=
  n.notes.map fun note => .info note.message note.pos

end Dee
