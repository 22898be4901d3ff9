import Dee.Program.Basic

/-!
# References

The names that a program refers to, assignment targets and the bodies of functions included, in the
order of the text. A name that is only declared is not referred to.
-/

namespace Dee

mutual

/-- The names that an expression refers to. -/
def Expr.references : Expr → List String
  | .literal _ _ _ => []
  | .reference _ name => [name]
  | .binary _ _ left right => left.references ++ right.references
  | .unary _ _ operand => operand.references
  | .call _ func args => func.references ++ Expr.referencesAll args
  | .index _ value index => value.references ++ index.references
  | .array _ elements => Expr.referencesAll elements
  | .tuple _ entries => TupleEntry.referencesAll entries
  | .function _ _ statements expression =>
    Stmt.referencesAll statements ++ Expr.referencesOption expression
  | .typeCheck _ value _ => value.references
  | .member _ value _ => value.references

def Expr.referencesAll : List Expr → List String
  | [] => []
  | e :: rest => e.references ++ Expr.referencesAll rest

def Expr.referencesOption : Option Expr → List String
  | none => []
  | some e => e.references

def TupleEntry.referencesAll : List TupleEntry → List String
  | [] => []
  | ⟨_, e⟩ :: rest => e.references ++ TupleEntry.referencesAll rest

/-- The names that a statement refers to. -/
def Stmt.references : Stmt → List String
  | .declaration _ vars => VarDef.referencesAll vars
  | .assign _ target value => target.references ++ value.references
  | .block ⟨_, body⟩ => Stmt.referencesAll body
  | .conditional _ condition ⟨_, body⟩ none => condition.references ++ Stmt.referencesAll body
  | .conditional _ condition ⟨_, body⟩ (some ⟨_, other⟩) =>
    condition.references ++ Stmt.referencesAll body ++ Stmt.referencesAll other
  | .whileLoop _ condition ⟨_, body⟩ => condition.references ++ Stmt.referencesAll body
  | .forLoop _ _ ⟨_, body⟩ iterable rangeEnd =>
    Expr.referencesOption iterable ++ Expr.referencesOption rangeEnd ++ Stmt.referencesAll body
  | .returnStmt _ value => Expr.referencesOption value
  | .exitStmt _ => []
  | .continueStmt _ => []
  | .print _ values => Expr.referencesAll values
  | .expr _ value => value.references

def Stmt.referencesAll : List Stmt → List String
  | [] => []
  | s :: rest => s.references ++ Stmt.referencesAll rest

def VarDef.referencesAll : List VarDef → List String
  | [] => []
  | ⟨_, initializer⟩ :: rest =>
    Expr.referencesOption initializer ++ VarDef.referencesAll rest

end

/-- The names that a program refers to, as often as it does. -/
def Program.references (p : Program) : List String :=
  Stmt.referencesAll p.statements

/-- The names that a program refers to, each once, in the order of their characters. -/
def Program.referencedNames (p : Program) : List String :=
  p.references.eraseDups.mergeSort fun a b => !(b < a)

end Dee
