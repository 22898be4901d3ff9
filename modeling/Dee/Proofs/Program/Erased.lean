import Dee.Program.Basic

/-!
# Programs without positions

Two programs are the same up to positions if they are equal once all positions are forgotten.
-/

namespace Dee

mutual

/-- An expression without its positions. -/
@[simp] def Expr.erase : Expr → Expr
  | .literal _ value kind => .literal .nowhere value kind
  | .reference _ name => .reference .nowhere name
  | .binary _ op left right => .binary .nowhere op left.erase right.erase
  | .unary _ op operand => .unary .nowhere op operand.erase
  | .call _ func args => .call .nowhere func.erase (Expr.eraseAll args)
  | .index _ value index => .index .nowhere value.erase index.erase
  | .array _ elements => .array .nowhere (Expr.eraseAll elements)
  | .tuple _ entries => .tuple .nowhere (TupleEntry.eraseAll entries)
  | .function _ params statements expression =>
    .function .nowhere params (Stmt.eraseAll statements) (Expr.eraseOption expression)
  | .typeCheck _ value indicator => .typeCheck .nowhere value.erase indicator
  | .member _ value m => .member .nowhere value.erase m

/-- Expressions without their positions. -/
@[simp] def Expr.eraseAll : List Expr → List Expr
  | [] => []
  | e :: rest => e.erase :: Expr.eraseAll rest

/-- An expression, if there is one, without its positions. -/
@[simp] def Expr.eraseOption : Option Expr → Option Expr
  | none => none
  | some e => some e.erase

/-- Entries of a tuple without their positions. -/
@[simp] def TupleEntry.eraseAll : List TupleEntry → List TupleEntry
  | [] => []
  | ⟨name, e⟩ :: rest => ⟨name, e.erase⟩ :: TupleEntry.eraseAll rest

/-- A statement without its positions. -/
@[simp] def Stmt.erase : Stmt → Stmt
  | .declaration _ vars => .declaration .nowhere (VarDef.eraseAll vars)
  | .assign _ target value => .assign .nowhere target.erase value.erase
  | .block ⟨_, body⟩ => .block ⟨.nowhere, Stmt.eraseAll body⟩
  | .conditional _ condition ⟨_, body⟩ none =>
    .conditional .nowhere condition.erase ⟨.nowhere, Stmt.eraseAll body⟩ none
  | .conditional _ condition ⟨_, body⟩ (some ⟨_, other⟩) =>
    .conditional .nowhere condition.erase ⟨.nowhere, Stmt.eraseAll body⟩
      (some ⟨.nowhere, Stmt.eraseAll other⟩)
  | .whileLoop _ condition ⟨_, body⟩ =>
    .whileLoop .nowhere condition.erase ⟨.nowhere, Stmt.eraseAll body⟩
  | .forLoop _ loopVar ⟨_, body⟩ iterable rangeEnd =>
    .forLoop .nowhere loopVar ⟨.nowhere, Stmt.eraseAll body⟩ (Expr.eraseOption iterable)
      (Expr.eraseOption rangeEnd)
  | .returnStmt _ value => .returnStmt .nowhere (Expr.eraseOption value)
  | .exitStmt _ => .exitStmt .nowhere
  | .continueStmt _ => .continueStmt .nowhere
  | .print _ values => .print .nowhere (Expr.eraseAll values)
  | .expr _ value => .expr .nowhere value.erase

/-- Statements without their positions. -/
@[simp] def Stmt.eraseAll : List Stmt → List Stmt
  | [] => []
  | s :: rest => s.erase :: Stmt.eraseAll rest

/-- Variables without the positions in their initial values. -/
@[simp] def VarDef.eraseAll : List VarDef → List VarDef
  | [] => []
  | ⟨name, initializer⟩ :: rest =>
    ⟨name, Expr.eraseOption initializer⟩ :: VarDef.eraseAll rest

end

/-- Only a reference is a reference without its positions. -/
theorem Expr.eq_reference_of_erase {e : Expr} {pos : Pos} {name : String}
    (h : e.erase = (Expr.reference pos name).erase) : ∃ pos', e = .reference pos' name := by
  cases e with
  | reference pos' name' =>
    rw [Expr.erase, Expr.erase] at h
    cases h
    exact ⟨pos', rfl⟩
  | _ =>
    simp only [Expr.erase] at h
    cases h

/-- A program without its positions. -/
def Program.erase (p : Program) : Program :=
  ⟨Stmt.eraseAll p.statements, .nowhere⟩

/-! ## Lists -/

/-- An entry of a tuple without its positions. -/
def TupleEntry.erase (entry : TupleEntry) : TupleEntry :=
  ⟨entry.name, entry.value.erase⟩

/-- A variable without the positions in its initial value. -/
def VarDef.erase (v : VarDef) : VarDef :=
  ⟨v.name, Expr.eraseOption v.initializer⟩

theorem Expr.eraseAll_eq_map (es : List Expr) : Expr.eraseAll es = es.map Expr.erase := by
  induction es with
  | nil => rfl
  | cons e rest ih => rw [Expr.eraseAll, ih, List.map_cons]

theorem Stmt.eraseAll_eq_map (ss : List Stmt) : Stmt.eraseAll ss = ss.map Stmt.erase := by
  induction ss with
  | nil => rfl
  | cons s rest ih => rw [Stmt.eraseAll, ih, List.map_cons]

theorem TupleEntry.eraseAll_eq_map (entries : List TupleEntry) :
    TupleEntry.eraseAll entries = entries.map TupleEntry.erase := by
  induction entries with
  | nil => rfl
  | cons entry rest ih =>
    obtain ⟨name, e⟩ := entry
    rw [TupleEntry.eraseAll, ih, List.map_cons]
    rfl

theorem VarDef.eraseAll_eq_map (vars : List VarDef) :
    VarDef.eraseAll vars = vars.map VarDef.erase := by
  induction vars with
  | nil => rfl
  | cons v rest ih =>
    obtain ⟨name, initializer⟩ := v
    rw [VarDef.eraseAll, ih, List.map_cons]
    rfl

end Dee
