import Dee.Simplify

/-!
# What simplification gives

The result of simplifying each form of a program, without the notes: one equation for each form,
so that statements about results never open the walk that collects the notes.
-/

namespace Dee

variable (used : List String) (pos : Pos)

/-! ## Expressions -/

section Expressions

@[simp] theorem simplify_literal (value : Scalar) (kind : Kind) :
    ((Expr.literal pos value kind).simplify used).result = .literal pos value kind := rfl

@[simp] theorem simplify_reference (name : String) :
    ((Expr.reference pos name).simplify used).result = .reference pos name := rfl

@[simp] theorem simplify_binary (op : String) (left right : Expr) :
    ((Expr.binary pos op left right).simplify used).result =
      (foldBinary pos op (left.simplify used).result (right.simplify used).result).result := rfl

@[simp] theorem simplify_unary (op : String) (operand : Expr) :
    ((Expr.unary pos op operand).simplify used).result =
      (foldUnary pos op (operand.simplify used).result).result := rfl

@[simp] theorem simplify_call (func : Expr) (args : List Expr) :
    ((Expr.call pos func args).simplify used).result =
      .call pos (func.simplify used).result (Expr.simplifyAll used args).result := rfl

@[simp] theorem simplify_index (value index : Expr) :
    ((Expr.index pos value index).simplify used).result =
      .index pos (value.simplify used).result (index.simplify used).result := rfl

@[simp] theorem simplify_array (elements : List Expr) :
    ((Expr.array pos elements).simplify used).result =
      .array pos (Expr.simplifyAll used elements).result := rfl

@[simp] theorem simplify_tuple (entries : List TupleEntry) :
    ((Expr.tuple pos entries).simplify used).result =
      .tuple pos (TupleEntry.simplifyAll used entries).result := rfl

@[simp] theorem simplify_function_some (params : List String) (statements : List Stmt)
    (e : Expr) : ((Expr.function pos params statements (some e)).simplify used).result =
      .function pos params statements (some (e.simplify used).result) := rfl

@[simp] theorem simplify_function_none (params : List String) (statements : List Stmt) :
    ((Expr.function pos params statements none).simplify used).result =
      .function pos params (Stmt.simplifyAll used .unreachableInBlock statements).result none := rfl

@[simp] theorem simplify_typeCheck (value : Expr) (indicator : String) :
    ((Expr.typeCheck pos value indicator).simplify used).result =
      .typeCheck pos (value.simplify used).result indicator := rfl

@[simp] theorem simplify_member (value : Expr) (member : Member) :
    ((Expr.member pos value member).simplify used).result =
      .member pos (value.simplify used).result member := rfl

@[simp] theorem simplifyAll_expr_nil : (Expr.simplifyAll used []).result = [] := rfl

@[simp] theorem simplifyAll_expr_cons (e : Expr) (rest : List Expr) :
    (Expr.simplifyAll used (e :: rest)).result =
      (e.simplify used).result :: (Expr.simplifyAll used rest).result := rfl

@[simp] theorem simplifyOption_none : (Expr.simplifyOption used none).result = none := rfl

@[simp] theorem simplifyOption_some (e : Expr) :
    (Expr.simplifyOption used (some e)).result = some (e.simplify used).result := rfl

@[simp] theorem simplifyAll_entry_nil : (TupleEntry.simplifyAll used []).result = [] := rfl

@[simp] theorem simplifyAll_entry_cons (name : Option String) (e : Expr)
    (rest : List TupleEntry) : (TupleEntry.simplifyAll used (⟨name, e⟩ :: rest)).result =
      ⟨name, (e.simplify used).result⟩ :: (TupleEntry.simplifyAll used rest).result := rfl

end Expressions

/-! ## Statements -/

section Statements

/-- The statements that a block keeps. -/
abbrev keptStatements (ss : List Stmt) : List Stmt :=
  (Stmt.simplifyAll used .unreachableInBlock ss).result

@[simp] theorem simplify_declaration (vars : List VarDef) :
    ((Stmt.declaration pos vars).simplify used).result =
      if (VarDef.simplifyAll used pos vars).result.isEmpty then none
      else some (.declaration pos (VarDef.simplifyAll used pos vars).result) := rfl

@[simp] theorem simplify_assign (target value : Expr) :
    ((Stmt.assign pos target value).simplify used).result =
      some (.assign pos (target.simplify used).result (value.simplify used).result) := rfl

@[simp] theorem simplify_block (body : List Stmt) :
    ((Stmt.block ⟨pos, body⟩).simplify used).result =
      some (.block ⟨pos, keptStatements used body⟩) := rfl

theorem simplify_conditional_none (condition : Expr) (thenPos : Pos) (body : List Stmt) :
    ((Stmt.conditional pos condition ⟨thenPos, body⟩ none).simplify used).result =
      match constantCondition? (condition.simplify used).result with
      | some true => some (.block ⟨thenPos, keptStatements used body⟩)
      | some false => some (.block ⟨pos, []⟩)
      | none => some (.conditional pos (condition.simplify used).result
          ⟨thenPos, keptStatements used body⟩ none) := by
  rw [Stmt.simplify, Noted.result_bind]
  cases constantCondition? (condition.simplify used).result with
  | none => rfl
  | some b => cases b <;> rfl

theorem simplify_conditional_some (condition : Expr) (thenPos elsePos : Pos)
    (body other : List Stmt) :
    ((Stmt.conditional pos condition ⟨thenPos, body⟩
      (some ⟨elsePos, other⟩)).simplify used).result =
      match constantCondition? (condition.simplify used).result with
      | some true => some (.block ⟨thenPos, keptStatements used body⟩)
      | some false => some (.block ⟨elsePos, keptStatements used other⟩)
      | none => some (.conditional pos (condition.simplify used).result
          ⟨thenPos, keptStatements used body⟩ (some ⟨elsePos, keptStatements used other⟩)) := by
  rw [Stmt.simplify, Noted.result_bind]
  cases constantCondition? (condition.simplify used).result with
  | none => rfl
  | some b => cases b <;> rfl

@[simp] theorem simplify_whileLoop (condition : Expr) (bodyPos : Pos) (body : List Stmt) :
    ((Stmt.whileLoop pos condition ⟨bodyPos, body⟩).simplify used).result =
      some (.whileLoop pos (condition.simplify used).result
        ⟨bodyPos, keptStatements used body⟩) := rfl

@[simp] theorem simplify_forLoop (loopVar : Option String) (bodyPos : Pos) (body : List Stmt)
    (iterable rangeEnd : Option Expr) :
    ((Stmt.forLoop pos loopVar ⟨bodyPos, body⟩ iterable rangeEnd).simplify used).result =
      some (.forLoop pos loopVar ⟨bodyPos, keptStatements used body⟩
        (Expr.simplifyOption used iterable).result (Expr.simplifyOption used rangeEnd).result) :=
          rfl

@[simp] theorem simplify_returnStmt (value : Option Expr) :
    ((Stmt.returnStmt pos value).simplify used).result =
      some (.returnStmt pos (Expr.simplifyOption used value).result) := rfl

@[simp] theorem simplify_exitStmt :
    ((Stmt.exitStmt pos).simplify used).result = some (.exitStmt pos) := rfl

@[simp] theorem simplify_continueStmt :
    ((Stmt.continueStmt pos).simplify used).result = some (.continueStmt pos) := rfl

@[simp] theorem simplify_print (values : List Expr) :
    ((Stmt.print pos values).simplify used).result =
      some (.print pos (Expr.simplifyAll used values).result) := rfl

@[simp] theorem simplify_expr (value : Expr) :
    ((Stmt.expr pos value).simplify used).result =
      some (.expr pos (value.simplify used).result) := rfl

@[simp] theorem simplifyAll_stmt_nil (unreachable : Note) :
    (Stmt.simplifyAll used unreachable []).result = [] := rfl

/-- A statement that is dropped, one that ends the list, and one that stays. -/
theorem simplifyAll_stmt_cons (unreachable : Note) (s : Stmt) (rest : List Stmt) :
    (Stmt.simplifyAll used unreachable (s :: rest)).result =
      match (s.simplify used).result with
      | none => (Stmt.simplifyAll used unreachable rest).result
      | some s' =>
        if s'.isReturn then [s'] else s' :: (Stmt.simplifyAll used unreachable rest).result := by
  rw [Stmt.simplifyAll, Noted.result_bind]
  cases (s.simplify used).result with
  | none => rfl
  | some s' => cases h : s'.isReturn <;> simp [h]

@[simp] theorem simplifyAll_var_nil : (VarDef.simplifyAll used pos []).result = [] := rfl

theorem simplifyAll_var_cons (name : String) (initializer : Option Expr) (rest : List VarDef) :
    (VarDef.simplifyAll used pos (⟨name, initializer⟩ :: rest)).result =
      if isUnused used name then (VarDef.simplifyAll used pos rest).result
      else ⟨name, (Expr.simplifyOption used initializer).result⟩ ::
        (VarDef.simplifyAll used pos rest).result := by
  rw [VarDef.simplifyAll]
  split <;> rfl

/-- What is noted about unreachable statements has no effect on the statements that stay. -/
theorem simplifyAll_stmt_eq (unreachable : Note) (ss : List Stmt) :
    (Stmt.simplifyAll used unreachable ss).result = keptStatements used ss := by
  induction ss with
  | nil => rw [keptStatements, simplifyAll_stmt_nil, simplifyAll_stmt_nil]
  | cons s rest ih => rw [keptStatements, simplifyAll_stmt_cons, simplifyAll_stmt_cons, ih]

end Statements

theorem Program.simplify_result (p : Program) :
    p.simplify.result = { p with statements := keptStatements p.references p.statements } := by
  rw [← simplifyAll_stmt_eq p.references .unreachableAtTop]
  rfl

end Dee
