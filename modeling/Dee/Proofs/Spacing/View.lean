import Dee.Proofs.Program.Erased
import Dee.Token

/-!
# Views of programs

Two programs can be compared with their positions or without them. A view is what such a comparison
looks at; two programs are alike if they have the same view. Every constructor keeps the view of its
parts, so programs whose parts are alike are alike.
-/

namespace Dee

/-- Whether a comparison looks at positions. -/
inductive View where
  | exact
  | unplaced
deriving Repr, DecidableEq

namespace View

variable (V : View)

/-! ## What a view shows -/

/-- What is seen of a position. -/
def pos (p : Pos) : Pos :=
  match V with
  | exact => p
  | unplaced => .nowhere

/-- What is seen of a token. -/
def token (t : Token) : Token := ⟨t.lexeme, t.text, V.pos t.pos⟩

/-- What is seen of an expression. -/
def expr (e : Expr) : Expr :=
  match V with
  | exact => e
  | unplaced => e.erase

/-- What is seen of a statement. -/
def stmt (s : Stmt) : Stmt :=
  match V with
  | exact => s
  | unplaced => s.erase

/-- What is seen of an entry of a tuple. -/
def entry (entry : TupleEntry) : TupleEntry := ⟨entry.name, V.expr entry.value⟩

/-- What is seen of a variable. -/
def varDef (v : VarDef) : VarDef := ⟨v.name, v.initializer.map V.expr⟩

/-- What is seen of a block. -/
def block (b : Block) : Block := ⟨V.pos b.pos, b.statements.map V.stmt⟩

/-- What is seen of a program. -/
def program (p : Program) : Program := ⟨p.statements.map V.stmt, V.pos p.pos⟩

/-! ## Tokens -/

section Tokens

variable {V} {t t' : Token}

theorem token_eq_iff :
    V.token t = V.token t' ↔ t.lexeme = t'.lexeme ∧ t.text = t'.text ∧
      V.pos t.pos = V.pos t'.pos := by
  simp [token]

theorem lexeme_eq (h : V.token t = V.token t') : t'.lexeme = t.lexeme :=
  (token_eq_iff.mp h).1.symm

theorem text_eq (h : V.token t = V.token t') : t'.text = t.text :=
  (token_eq_iff.mp h).2.1.symm

theorem pos_eq (h : V.token t = V.token t') : V.pos t'.pos = V.pos t.pos :=
  (token_eq_iff.mp h).2.2.symm

end Tokens

/-! ## The two views

With the positions everything is seen as it is, and without them as what it is erased to. -/

theorem pos_exact : pos .exact = id := rfl

theorem expr_exact : expr .exact = id := rfl

theorem stmt_exact : stmt .exact = id := rfl

theorem entry_exact : entry .exact = id := by
  funext ⟨name, value⟩
  rfl

theorem varDef_exact : varDef .exact = id := by
  funext ⟨name, initializer⟩
  simp [varDef, expr_exact]

theorem block_exact : block .exact = id := by
  funext ⟨pos, statements⟩
  simp [block, pos_exact, stmt_exact]

theorem pos_unplaced : pos .unplaced = fun _ => .nowhere := rfl

theorem expr_unplaced : expr .unplaced = Expr.erase := rfl

theorem stmt_unplaced : stmt .unplaced = Stmt.erase := rfl

theorem entry_unplaced : entry .unplaced = TupleEntry.erase := rfl

theorem map_eraseOption (e : Option Expr) : Expr.eraseOption e = e.map Expr.erase := by
  cases e <;> rfl

theorem varDef_unplaced : varDef .unplaced = VarDef.erase := by
  funext v
  rw [varDef, VarDef.erase, map_eraseOption, expr_unplaced]

theorem block_unplaced (b : Block) :
    block .unplaced b = ⟨.nowhere, Stmt.eraseAll b.statements⟩ := by
  rw [block, Stmt.eraseAll_eq_map, pos_unplaced, stmt_unplaced]

theorem program_exact : program .exact = id := by
  funext p
  rw [program, pos_exact, stmt_exact, List.map_id]
  rfl

theorem program_unplaced : program .unplaced = Program.erase := by
  funext p
  rw [program, pos_unplaced, stmt_unplaced, Program.erase, Stmt.eraseAll_eq_map]

/-! ## Expressions -/

@[simp] theorem expr_literal (pos : Pos) (value : Scalar) (kind : Kind) :
    V.expr (.literal pos value kind) =
      .literal (V.pos pos) value kind := by
  cases V
  · simp [pos_exact, expr_exact]
  · simp [pos_unplaced, expr_unplaced]

@[simp] theorem expr_reference (pos : Pos) (name : String) :
    V.expr (.reference pos name) =
      .reference (V.pos pos) name := by
  cases V
  · simp [pos_exact, expr_exact]
  · simp [pos_unplaced, expr_unplaced]

@[simp] theorem expr_binary (pos : Pos) (op : String) (left right : Expr) :
    V.expr (.binary pos op left right) =
      .binary (V.pos pos) op (V.expr left) (V.expr right) := by
  cases V
  · simp [pos_exact, expr_exact]
  · simp [pos_unplaced, expr_unplaced]

@[simp] theorem expr_unary (pos : Pos) (op : String) (operand : Expr) :
    V.expr (.unary pos op operand) =
      .unary (V.pos pos) op (V.expr operand) := by
  cases V
  · simp [pos_exact, expr_exact]
  · simp [pos_unplaced, expr_unplaced]

@[simp] theorem expr_call (pos : Pos) (func : Expr) (args : List Expr) :
    V.expr (.call pos func args) =
      .call (V.pos pos) (V.expr func) (args.map V.expr) := by
  cases V
  · simp [pos_exact, expr_exact]
  · simp [pos_unplaced, expr_unplaced, Expr.eraseAll_eq_map]

@[simp] theorem expr_index (pos : Pos) (value index : Expr) :
    V.expr (.index pos value index) =
      .index (V.pos pos) (V.expr value) (V.expr index) := by
  cases V
  · simp [pos_exact, expr_exact]
  · simp [pos_unplaced, expr_unplaced]

@[simp] theorem expr_array (pos : Pos) (elements : List Expr) :
    V.expr (.array pos elements) =
      .array (V.pos pos) (elements.map V.expr) := by
  cases V
  · simp [pos_exact, expr_exact]
  · simp [pos_unplaced, expr_unplaced, Expr.eraseAll_eq_map]

@[simp] theorem expr_tuple (pos : Pos) (entries : List TupleEntry) :
    V.expr (.tuple pos entries) =
      .tuple (V.pos pos) (entries.map V.entry) := by
  cases V
  · simp [pos_exact, expr_exact, entry_exact]
  · simp [pos_unplaced, expr_unplaced, entry_unplaced, TupleEntry.eraseAll_eq_map]

@[simp] theorem expr_function (pos : Pos) (params : List String) (statements : List Stmt)
    (expression : Option Expr) :
    V.expr (.function pos params statements expression) =
      .function (V.pos pos) params (statements.map V.stmt) (expression.map V.expr) := by
  cases V
  · simp [pos_exact, expr_exact, stmt_exact]
  · simp [pos_unplaced, expr_unplaced, stmt_unplaced, Stmt.eraseAll_eq_map, map_eraseOption]

@[simp] theorem expr_typeCheck (pos : Pos) (value : Expr) (indicator : String) :
    V.expr (.typeCheck pos value indicator) =
      .typeCheck (V.pos pos) (V.expr value) indicator := by
  cases V
  · simp [pos_exact, expr_exact]
  · simp [pos_unplaced, expr_unplaced]

@[simp] theorem expr_member (pos : Pos) (value : Expr) (m : Member) :
    V.expr (.member pos value m) =
      .member (V.pos pos) (V.expr value) m := by
  cases V
  · simp [pos_exact, expr_exact]
  · simp [pos_unplaced, expr_unplaced]

theorem expr_ofScalar (pos : Pos) (value : Scalar) :
    V.expr (.ofScalar pos value) = .ofScalar (V.pos pos) value :=
  V.expr_literal pos value value.kind

/-- Only a reference looks like a reference. -/
theorem eq_reference {e e' : Expr} {pos : Pos} {name : String} (he : e = .reference pos name)
    (h : V.expr e = V.expr e') : ∃ pos', e' = .reference pos' name := by
  subst he
  cases V with
  | exact => exact ⟨pos, h.symm⟩
  | unplaced => exact @Expr.eq_reference_of_erase e' pos name h.symm

/-! ## Statements -/

@[simp] theorem stmt_declaration (pos : Pos) (vars : List VarDef) :
    V.stmt (.declaration pos vars) =
      .declaration (V.pos pos) (vars.map V.varDef) := by
  cases V
  · simp [pos_exact, stmt_exact, varDef_exact]
  · simp [pos_unplaced, stmt_unplaced, varDef_unplaced, VarDef.eraseAll_eq_map]

@[simp] theorem stmt_assign (pos : Pos) (target value : Expr) :
    V.stmt (.assign pos target value) =
      .assign (V.pos pos) (V.expr target) (V.expr value) := by
  cases V
  · simp [pos_exact, stmt_exact, expr_exact]
  · simp [pos_unplaced, stmt_unplaced, expr_unplaced]

@[simp] theorem stmt_conditional (pos : Pos) (condition : Expr) (thenBlock : Block)
    (elseBlock : Option Block) :
    V.stmt (.conditional pos condition thenBlock elseBlock) =
      .conditional (V.pos pos) (V.expr condition) (V.block thenBlock) (elseBlock.map V.block) := by
  obtain ⟨thenPos, thenBody⟩ := thenBlock
  cases V
  · simp [pos_exact, stmt_exact, expr_exact, block_exact]
  · rcases elseBlock with _ | ⟨elsePos, elseBody⟩
    · simp [pos_unplaced, stmt_unplaced, expr_unplaced, block_unplaced]
    · simp [pos_unplaced, stmt_unplaced, expr_unplaced, block_unplaced]

@[simp] theorem stmt_whileLoop (pos : Pos) (condition : Expr) (body : Block) :
    V.stmt (.whileLoop pos condition body) =
      .whileLoop (V.pos pos) (V.expr condition) (V.block body) := by
  obtain ⟨bodyPos, statements⟩ := body
  cases V
  · simp [pos_exact, stmt_exact, expr_exact, block_exact]
  · simp [pos_unplaced, stmt_unplaced, expr_unplaced, block_unplaced]

@[simp] theorem stmt_forLoop (pos : Pos) (loopVar : Option String) (body : Block)
    (iterable rangeEnd : Option Expr) :
    V.stmt (.forLoop pos loopVar body iterable rangeEnd) =
      .forLoop (V.pos pos) loopVar (V.block body) (iterable.map V.expr) (rangeEnd.map V.expr) := by
  obtain ⟨bodyPos, statements⟩ := body
  cases V
  · simp [pos_exact, stmt_exact, expr_exact, block_exact]
  · simp [pos_unplaced, stmt_unplaced, expr_unplaced, block_unplaced, map_eraseOption]

@[simp] theorem stmt_returnStmt (pos : Pos) (value : Option Expr) :
    V.stmt (.returnStmt pos value) =
      .returnStmt (V.pos pos) (value.map V.expr) := by
  cases V
  · simp [pos_exact, stmt_exact, expr_exact]
  · simp [pos_unplaced, stmt_unplaced, expr_unplaced, map_eraseOption]

@[simp] theorem stmt_exitStmt (pos : Pos) :
    V.stmt (.exitStmt pos) =
      .exitStmt (V.pos pos) := by
  cases V
  · simp [pos_exact, stmt_exact]
  · simp [pos_unplaced, stmt_unplaced]

@[simp] theorem stmt_continueStmt (pos : Pos) :
    V.stmt (.continueStmt pos) =
      .continueStmt (V.pos pos) := by
  cases V
  · simp [pos_exact, stmt_exact]
  · simp [pos_unplaced, stmt_unplaced]

@[simp] theorem stmt_print (pos : Pos) (values : List Expr) :
    V.stmt (.print pos values) =
      .print (V.pos pos) (values.map V.expr) := by
  cases V
  · simp [pos_exact, stmt_exact, expr_exact]
  · simp [pos_unplaced, stmt_unplaced, expr_unplaced, Expr.eraseAll_eq_map]

@[simp] theorem stmt_expr (pos : Pos) (value : Expr) :
    V.stmt (.expr pos value) =
      .expr (V.pos pos) (V.expr value) := by
  cases V
  · simp [pos_exact, stmt_exact, expr_exact]
  · simp [pos_unplaced, stmt_unplaced, expr_unplaced]

end View

end Dee
