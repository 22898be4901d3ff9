import Dee.Program.Basic

/-!
# Nesting depth

How many nodes lie on the longest path from the root of a tree to a leaf. The stages that walk a
tree bound the depth they accept.
-/

namespace Dee

mutual

/-- The depth of an expression. -/
def Expr.depth : Expr → Nat
  | .literal _ _ _ => 1
  | .reference _ _ => 1
  | .binary _ _ left right => max left.depth right.depth + 1
  | .unary _ _ operand => operand.depth + 1
  | .call _ func args => max func.depth (Expr.depthAll args) + 1
  | .index _ value index => max value.depth index.depth + 1
  | .array _ elements => Expr.depthAll elements + 1
  | .tuple _ entries => TupleEntry.depthAll entries + 1
  | .function _ _ statements expression =>
    max (Stmt.depthAll statements) (Expr.depthOption expression) + 1
  | .typeCheck _ value _ => value.depth + 1
  | .member _ value _ => value.depth + 1

def Expr.depthAll : List Expr → Nat
  | [] => 0
  | e :: rest => max e.depth (Expr.depthAll rest)

def Expr.depthOption : Option Expr → Nat
  | none => 0
  | some e => e.depth

def TupleEntry.depthAll : List TupleEntry → Nat
  | [] => 0
  | ⟨_, e⟩ :: rest => max e.depth (TupleEntry.depthAll rest)

/-- The depth of a statement. -/
def Stmt.depth : Stmt → Nat
  | .declaration _ vars => VarDef.depthAll vars + 1
  | .assign _ target value => max target.depth value.depth + 1
  | .block ⟨_, body⟩ => Stmt.depthAll body + 1
  | .conditional _ condition ⟨_, body⟩ none =>
    max condition.depth (Stmt.depthAll body + 1) + 1
  | .conditional _ condition ⟨_, body⟩ (some ⟨_, other⟩) =>
    max condition.depth (max (Stmt.depthAll body + 1) (Stmt.depthAll other + 1)) + 1
  | .whileLoop _ condition ⟨_, body⟩ => max condition.depth (Stmt.depthAll body + 1) + 1
  | .forLoop _ _ ⟨_, body⟩ iterable rangeEnd =>
    max (max (Expr.depthOption iterable) (Expr.depthOption rangeEnd)) (Stmt.depthAll body + 1) + 1
  | .returnStmt _ value => Expr.depthOption value + 1
  | .exitStmt _ => 1
  | .continueStmt _ => 1
  | .print _ values => Expr.depthAll values + 1
  | .expr _ value => value.depth + 1

def Stmt.depthAll : List Stmt → Nat
  | [] => 0
  | s :: rest => max s.depth (Stmt.depthAll rest)

def VarDef.depthAll : List VarDef → Nat
  | [] => 0
  | ⟨_, initializer⟩ :: rest => max (Expr.depthOption initializer) (VarDef.depthAll rest)

end

/-- The depth of a program. -/
def Program.depth (p : Program) : Nat :=
  Stmt.depthAll p.statements

end Dee
