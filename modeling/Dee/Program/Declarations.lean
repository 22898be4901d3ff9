import Dee.Program.Basic

/-!
# Declarations

How often a program declares a variable: by declarations and by loop variables, at every depth.
Parameters are not counted.
-/

namespace Dee

mutual

/-- The declarations in an expression. -/
def Expr.declarations : Expr → Nat
  | .literal _ _ _ => 0
  | .reference _ _ => 0
  | .binary _ _ left right => left.declarations + right.declarations
  | .unary _ _ operand => operand.declarations
  | .call _ func args => func.declarations + Expr.declarationsAll args
  | .index _ value index => value.declarations + index.declarations
  | .array _ elements => Expr.declarationsAll elements
  | .tuple _ entries => TupleEntry.declarationsAll entries
  | .function _ _ statements expression =>
    Stmt.declarationsAll statements + Expr.declarationsOption expression
  | .typeCheck _ value _ => value.declarations
  | .member _ value _ => value.declarations

def Expr.declarationsAll : List Expr → Nat
  | [] => 0
  | e :: rest => e.declarations + Expr.declarationsAll rest

def Expr.declarationsOption : Option Expr → Nat
  | none => 0
  | some e => e.declarations

def TupleEntry.declarationsAll : List TupleEntry → Nat
  | [] => 0
  | ⟨_, e⟩ :: rest => e.declarations + TupleEntry.declarationsAll rest

/-- The declarations in a statement. -/
def Stmt.declarations : Stmt → Nat
  | .declaration _ vars => VarDef.declarationsAll vars
  | .assign _ target value => target.declarations + value.declarations
  | .block ⟨_, body⟩ => Stmt.declarationsAll body
  | .conditional _ condition ⟨_, body⟩ none => condition.declarations + Stmt.declarationsAll body
  | .conditional _ condition ⟨_, body⟩ (some ⟨_, other⟩) =>
    condition.declarations + Stmt.declarationsAll body + Stmt.declarationsAll other
  | .whileLoop _ condition ⟨_, body⟩ => condition.declarations + Stmt.declarationsAll body
  | .forLoop _ loopVar ⟨_, body⟩ iterable rangeEnd =>
    Expr.declarationsOption iterable + Expr.declarationsOption rangeEnd +
      loopVar.toList.length + Stmt.declarationsAll body
  | .returnStmt _ value => Expr.declarationsOption value
  | .exitStmt _ => 0
  | .continueStmt _ => 0
  | .print _ values => Expr.declarationsAll values
  | .expr _ value => value.declarations

def Stmt.declarationsAll : List Stmt → Nat
  | [] => 0
  | s :: rest => s.declarations + Stmt.declarationsAll rest

/-- Some declared variables, and the declarations in their initial values. -/
def VarDef.declarationsAll : List VarDef → Nat
  | [] => 0
  | ⟨_, initializer⟩ :: rest =>
    1 + Expr.declarationsOption initializer + VarDef.declarationsAll rest

end

/-- The declarations in a program. -/
def Program.declarations (p : Program) : Nat :=
  Stmt.declarationsAll p.statements

end Dee
