import Dee.EvalError
import Dee.Scalar

/-!
# Programs

The tree of a program. Operators and type indicators stand as their texts, so a tree can hold any;
which of them mean something is decided where they are applied. Every node but the entries of
declarations and tuples knows its position.
-/

namespace Dee

mutual

inductive Expr where
  /-- A scalar; `kind` is what the literal was written as. -/
  | literal (pos : Pos) (value : Scalar) (kind : Kind)
  | reference (pos : Pos) (name : String)
  | binary (pos : Pos) (op : String) (left right : Expr)
  | unary (pos : Pos) (op : String) (operand : Expr)
  | call (pos : Pos) (func : Expr) (args : List Expr)
  | index (pos : Pos) (value index : Expr)
  | array (pos : Pos) (elements : List Expr)
  | tuple (pos : Pos) (entries : List TupleEntry)
  /-- A function with a body of statements, or with one expression as its body. -/
  | function (pos : Pos) (params : List String) (statements : List Stmt) (expression : Option Expr)
  | typeCheck (pos : Pos) (value : Expr) (indicator : String)
  | member (pos : Pos) (value : Expr) (member : Member)

/-- An entry of a tuple, which may have a name. -/
structure TupleEntry where
  name : Option String
  value : Expr

inductive Stmt where
  | declaration (pos : Pos) (vars : List VarDef)
  | assign (pos : Pos) (target value : Expr)
  | block (body : Block)
  | conditional (pos : Pos) (condition : Expr) (thenBlock : Block) (elseBlock : Option Block)
  | whileLoop (pos : Pos) (condition : Expr) (body : Block)
  /-- A loop over the integers from `iterable` to `rangeEnd`, over the elements of `iterable`, or
  without end if there is no `iterable`. -/
  | forLoop (pos : Pos) (loopVar : Option String) (body : Block) (iterable rangeEnd : Option Expr)
  | returnStmt (pos : Pos) (value : Option Expr)
  | exitStmt (pos : Pos)
  | continueStmt (pos : Pos)
  | print (pos : Pos) (values : List Expr)
  | expr (pos : Pos) (value : Expr)

/-- A list of statements with a scope of its own. -/
structure Block where
  pos : Pos
  statements : List Stmt

/-- A declared variable with its initial value, if it has one. -/
structure VarDef where
  name : String
  initializer : Option Expr

end

structure Program where
  statements : List Stmt
  pos : Pos

namespace Expr

def pos : Expr → Pos
  | .literal pos _ _ => pos
  | .reference pos _ => pos
  | .binary pos _ _ _ => pos
  | .unary pos _ _ => pos
  | .call pos _ _ => pos
  | .index pos _ _ => pos
  | .array pos _ => pos
  | .tuple pos _ => pos
  | .function pos _ _ _ => pos
  | .typeCheck pos _ _ => pos
  | .member pos _ _ => pos

/-- A literal whose kind is that of its value. -/
def ofScalar (pos : Pos) (value : Scalar) : Expr :=
  .literal pos value value.kind

end Expr

namespace Stmt

def pos : Stmt → Pos
  | .declaration pos _ => pos
  | .assign pos _ _ => pos
  | .block body => body.pos
  | .conditional pos _ _ _ => pos
  | .whileLoop pos _ _ => pos
  | .forLoop pos _ _ _ _ => pos
  | .returnStmt pos _ => pos
  | .exitStmt pos => pos
  | .continueStmt pos => pos
  | .print pos _ => pos
  | .expr pos _ => pos

def isReturn : Stmt → Bool
  | .returnStmt _ _ => true
  | _ => false

end Stmt

def Program.empty : Program := ⟨[], .start⟩

end Dee
