import Dee.Program.Basic

/-!
# The size of a program

How many nodes a tree has. The entries of declarations and of tuples count as nodes, and so does
every block.
-/

namespace Dee

mutual

/-- The number of nodes of an expression. -/
def Expr.size : Expr → Nat
  | .literal _ _ _ => 1
  | .reference _ _ => 1
  | .binary _ _ left right => left.size + right.size + 1
  | .unary _ _ operand => operand.size + 1
  | .call _ func args => func.size + Expr.sizeAll args + 1
  | .index _ value index => value.size + index.size + 1
  | .array _ elements => Expr.sizeAll elements + 1
  | .tuple _ entries => TupleEntry.sizeAll entries + 1
  | .function _ _ statements expression =>
    Stmt.sizeAll statements + Expr.sizeOption expression + 1
  | .typeCheck _ value _ => value.size + 1
  | .member _ value _ => value.size + 1

/-- The number of nodes of some expressions. -/
def Expr.sizeAll : List Expr → Nat
  | [] => 0
  | e :: rest => e.size + Expr.sizeAll rest

/-- The number of nodes of an expression that may be missing. -/
def Expr.sizeOption : Option Expr → Nat
  | none => 0
  | some e => e.size

/-- The number of nodes of the entries of a tuple, with the entries. -/
def TupleEntry.sizeAll : List TupleEntry → Nat
  | [] => 0
  | ⟨_, e⟩ :: rest => e.size + 1 + TupleEntry.sizeAll rest

/-- The number of nodes of a statement. -/
def Stmt.size : Stmt → Nat
  | .declaration _ vars => VarDef.sizeAll vars + 1
  | .assign _ target value => target.size + value.size + 1
  | .block ⟨_, body⟩ => Stmt.sizeAll body + 1
  | .conditional _ condition ⟨_, body⟩ none => condition.size + (Stmt.sizeAll body + 1) + 1
  | .conditional _ condition ⟨_, body⟩ (some ⟨_, other⟩) =>
    condition.size + (Stmt.sizeAll body + 1) + (Stmt.sizeAll other + 1) + 1
  | .whileLoop _ condition ⟨_, body⟩ => condition.size + (Stmt.sizeAll body + 1) + 1
  | .forLoop _ _ ⟨_, body⟩ iterable rangeEnd =>
    Expr.sizeOption iterable + Expr.sizeOption rangeEnd + (Stmt.sizeAll body + 1) + 1
  | .returnStmt _ value => Expr.sizeOption value + 1
  | .exitStmt _ => 1
  | .continueStmt _ => 1
  | .print _ values => Expr.sizeAll values + 1
  | .expr _ value => value.size + 1

/-- The number of nodes of some statements. -/
def Stmt.sizeAll : List Stmt → Nat
  | [] => 0
  | s :: rest => s.size + Stmt.sizeAll rest

/-- The number of nodes of some declared variables, with the variables. -/
def VarDef.sizeAll : List VarDef → Nat
  | [] => 0
  | ⟨_, initializer⟩ :: rest => Expr.sizeOption initializer + 1 + VarDef.sizeAll rest

end

/-- The number of nodes of a program, with the program itself. -/
def Program.size (p : Program) : Nat :=
  Stmt.sizeAll p.statements + 1

/-- The number of nodes of a statement that may be missing. -/
def Stmt.sizeOption : Option Stmt → Nat
  | none => 0
  | some s => s.size

theorem Stmt.size_pos (s : Stmt) : 0 < s.size := by
  unfold Stmt.size
  split <;> omega

theorem Stmt.sizeAll_pos {ss : List Stmt} (h : ss ≠ []) : 0 < Stmt.sizeAll ss := by
  cases ss with
  | nil => exact absurd rfl h
  | cons s rest =>
    rw [Stmt.sizeAll]
    have := s.size_pos
    omega

end Dee
