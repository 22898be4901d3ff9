import Dee.Grammar.Statement
import Dee.Operator
import Dee.Proofs.Program.Everywhere

/-!
# Well-formed programs

What a tree must satisfy beyond its type: operators that mean something, targets that can be
assigned to, names that are identifiers, functions with one body and loops of one of the three
shapes. Each test looks at one node; `Expr.everywhere` takes it to all of them.

A program as it is written satisfies more: its integers carry no sign, and no block stands alone.
-/

namespace Dee

/-- Whether a text is a name: it is spelled like one and is no word with a meaning of its own. -/
def isIdentifier (s : String) : Bool :=
  (match s.toList with
    | [] => false
    | c :: rest => startsName c && rest.all continuesName) &&
  Lexeme.ofWord s = .name

/-- Whether a text may stand as a type indicator. -/
def isIndicator (s : String) : Bool :=
  (Kind.ofIndicator? s).isSome || isIdentifier s

/-- Whether a member can be written: by a name, or by a position without a sign that is not too
long. -/
def Member.isWellFormed : Member → Bool
  | .named name => isIdentifier name
  | .position index => 0 ≤ index && index < (Nat.pow 10 Grammar.maxPositionDigits : Nat)

/-- Whether an expression is well-formed, its parts aside. -/
def Expr.isWellFormed : Expr → Bool
  | .literal _ value kind => kind = value.kind
  | .reference _ name => isIdentifier name
  | .binary _ op _ _ => (BinaryOp.ofText? op).isSome
  | .unary _ op _ => (UnaryOp.ofText? op).isSome
  | .tuple _ entries => entries.all fun entry => entry.name.all isIdentifier
  | .function _ params statements expression =>
    params.all isIdentifier && (statements.isEmpty || expression.isNone)
  | .typeCheck _ _ indicator => isIndicator indicator
  | .member _ _ m => m.isWellFormed
  | .call _ _ _ | .index _ _ _ | .array _ _ => true

/-- Whether a statement is well-formed, its parts aside. -/
def Stmt.isWellFormed : Stmt → Bool
  | .declaration _ vars => !vars.isEmpty && vars.all fun v => isIdentifier v.name
  | .assign _ target _ => Grammar.isTarget target
  | .forLoop _ loopVar _ iterable rangeEnd =>
    loopVar.all isIdentifier && (iterable.isSome || (loopVar.isNone && rangeEnd.isNone))
  | .print _ values => !values.isEmpty
  | .block _ | .conditional _ _ _ _ | .whileLoop _ _ _ | .returnStmt _ _ | .exitStmt _
  | .continueStmt _ | .expr _ _ => true

/-- Every node of an expression is well-formed. -/
abbrev Expr.WellFormed (e : Expr) : Prop :=
  e.everywhere Expr.isWellFormed Stmt.isWellFormed = true

/-- Every node of a statement is well-formed. -/
abbrev Stmt.WellFormed (s : Stmt) : Prop :=
  s.everywhere Expr.isWellFormed Stmt.isWellFormed = true

/-- Every node of a program is well-formed. -/
abbrev Program.WellFormed (p : Program) : Prop :=
  p.everywhere Expr.isWellFormed Stmt.isWellFormed = true

/-- A function whose body is an expression has no statements. -/
theorem Expr.statements_eq_nil {pos : Pos} {params : List String}
    {statements : List Stmt} {e : Expr}
    (h : (Expr.function pos params statements (some e)).isWellFormed = true) : statements = [] := by
  rw [Expr.isWellFormed, Bool.and_eq_true] at h
  simpa using h.2

/-- Whether an expression can be written as it is, its parts aside. -/
def Expr.isWritten : Expr → Bool
  | .literal _ (.int n) _ => 0 ≤ n
  | _ => true

/-- Whether a statement can be written as it is, its parts aside. -/
def Stmt.isWritten : Stmt → Bool
  | .block _ => false
  | _ => true

/-- Every node of a program can be written as it is. -/
abbrev Program.Written (p : Program) : Prop :=
  p.everywhere Expr.isWritten Stmt.isWritten = true

end Dee
