import Dee.Proofs.Eval.Part
import Dee.Proofs.Program.Everywhere

/-!
# Code that passes a test

A test looks at single nodes; code passes it if all its nodes do, at every depth. Whatever is run
while a piece of code is run is part of it or of a function in the store. So the parts of code that
passes are listed here, statement by statement and expression by expression.
-/

namespace Dee

/-- A test of single nodes. Blocks pass: branches and bodies are run as blocks, although they are no
statements of the program. -/
structure NodeTest where
  expr : Expr → Bool
  stmt : Stmt → Bool
  stmt_block : ∀ body, stmt (.block body) = true

/-- The test that all nodes pass. -/
def NodeTest.trivial : NodeTest := ⟨fun _ => true, fun _ => true, fun _ => rfl⟩

variable {test : NodeTest}

/-- All nodes of an expression pass. -/
def Expr.Passes (test : NodeTest) (e : Expr) : Prop := e.everywhere test.expr test.stmt = true

/-- All nodes of a statement pass. -/
def Stmt.Passes (test : NodeTest) (s : Stmt) : Prop := s.everywhere test.expr test.stmt = true

/-- All nodes of a program pass. -/
def Program.Passes (test : NodeTest) (p : Program) : Prop :=
  p.everywhere test.expr test.stmt = true

theorem Expr.passes_trivial (e : Expr) : e.Passes .trivial :=
  Expr.everywhere_of_all (fun _ => rfl) (fun _ => rfl) e

theorem Stmt.passes_trivial (s : Stmt) : s.Passes .trivial :=
  Stmt.everywhere_of_all (fun _ => rfl) (fun _ => rfl) s

/-! ## Parts -/

theorem Expr.Passes.operand {e e' : Expr} (h : e.Passes test) (he' : e' ∈ e.operands) :
    e'.Passes test := by
  cases e with
  | binary pos op left right =>
    obtain ⟨-, hleft, hright⟩ := everywhere_binary.mp h
    simp only [operands, List.mem_cons, List.not_mem_nil, or_false] at he'
    rcases he' with rfl | rfl
    · exact hleft
    · exact hright
  | call pos func args =>
    obtain ⟨-, hfunc, hargs⟩ := everywhere_call.mp h
    rcases List.mem_cons.mp he' with rfl | he'
    · exact hfunc
    · exact everywhereAll_iff.mp hargs e' he'
  | index pos value i =>
    obtain ⟨-, hvalue, hindex⟩ := everywhere_index.mp h
    simp only [operands, List.mem_cons, List.not_mem_nil, or_false] at he'
    rcases he' with rfl | rfl
    · exact hvalue
    · exact hindex
  | array pos elements => exact everywhereAll_iff.mp (everywhere_array.mp h).2 e' he'
  | unary pos op operand =>
    cases List.mem_singleton.mp he'
    exact (everywhere_unary.mp h).2
  | typeCheck pos value indicator =>
    cases List.mem_singleton.mp he'
    exact (everywhere_typeCheck.mp h).2
  | member pos value m =>
    cases List.mem_singleton.mp he'
    exact (everywhere_member.mp h).2
  | literal | reference | tuple | function => cases he'

theorem Expr.Passes.entries {pos : Pos} {entries : List TupleEntry}
    (h : (Expr.tuple pos entries).Passes test) : ∀ entry ∈ entries, entry.value.Passes test :=
  TupleEntry.everywhereAll_iff.mp (everywhere_tuple.mp h).2

namespace Stmt

theorem passes_block {body : Block} :
    (Stmt.block body).Passes test ↔ ∀ s ∈ body.statements, s.Passes test := by
  rw [Passes, everywhere_block, everywhereAll_iff]
  exact and_iff_right (test.stmt_block _)

namespace Passes

theorem conditional {pos : Pos} {condition : Expr} {thenBlock : Block} {elseBlock : Option Block}
    (h : (Stmt.conditional pos condition thenBlock elseBlock).Passes test) :
    condition.Passes test ∧ (Stmt.block thenBlock).Passes test ∧
      ∀ other, elseBlock = some other → (Stmt.block other).Passes test := by
  cases elseBlock with
  | none =>
    obtain ⟨-, hcondition, hthen⟩ := everywhere_conditional_none.mp h
    exact ⟨hcondition, passes_block.mpr (everywhereAll_iff.mp hthen), by simp⟩
  | some other =>
    obtain ⟨-, hcondition, hthen, helse⟩ := everywhere_conditional_some.mp h
    refine ⟨hcondition, passes_block.mpr (everywhereAll_iff.mp hthen), ?_⟩
    rintro _ ⟨rfl⟩
    exact passes_block.mpr (everywhereAll_iff.mp helse)

theorem whileLoop {pos : Pos} {condition : Expr} {body : Block}
    (h : (Stmt.whileLoop pos condition body).Passes test) :
    condition.Passes test ∧ (Stmt.block body).Passes test := by
  obtain ⟨-, hcondition, hbody⟩ := everywhere_whileLoop.mp h
  exact ⟨hcondition, passes_block.mpr (everywhereAll_iff.mp hbody)⟩

theorem forLoop {pos : Pos} {loopVar : Option String} {body : Block}
    {iterable rangeEnd : Option Expr}
    (h : (Stmt.forLoop pos loopVar body iterable rangeEnd).Passes test) :
    (∀ e, iterable = some e → e.Passes test) ∧ (∀ e, rangeEnd = some e → e.Passes test) ∧
      (Stmt.block body).Passes test := by
  obtain ⟨-, hiterable, hrangeEnd, hbody⟩ := everywhere_forLoop.mp h
  refine ⟨?_, ?_, passes_block.mpr (everywhereAll_iff.mp hbody)⟩
  · rintro e rfl
    exact hiterable
  · rintro e rfl
    exact hrangeEnd

theorem declaration {pos : Pos} {vars : List VarDef} (h : (Stmt.declaration pos vars).Passes test) :
    ∀ var ∈ vars, ∀ e, var.initializer = some e → e.Passes test := by
  intro var hvar e he
  have hvalue := VarDef.everywhereAll_iff.mp (everywhere_declaration.mp h).2 var hvar
  rw [he] at hvalue
  exact hvalue

theorem assign {pos : Pos} {target value : Expr} (h : (Stmt.assign pos target value).Passes test) :
    target.Passes test ∧ value.Passes test :=
  (everywhere_assign.mp h).2

theorem operand {s : Stmt} {e : Expr} (h : s.Passes test) (he : e ∈ s.operands) :
    e.Passes test := by
  cases s with
  | assign pos target value =>
    rcases List.mem_cons.mp he with rfl | he
    · exact h.assign.2
    · split at he
      · exact h.assign.1.operand he
      · cases he
  | conditional pos condition thenBlock elseBlock =>
    cases List.mem_singleton.mp he
    exact h.conditional.1
  | forLoop pos loopVar body iterable rangeEnd =>
    cases iterable with
    | none => cases he
    | some iterable =>
      cases List.mem_singleton.mp he
      exact h.forLoop.1 e rfl
  | returnStmt pos value =>
    cases value with
    | none => cases he
    | some value =>
      cases List.mem_singleton.mp he
      exact (everywhere_returnStmt.mp h).2
  | print pos values => exact Expr.everywhereAll_iff.mp (everywhere_print.mp h).2 e he
  | expr pos value =>
    cases List.mem_singleton.mp he
    exact (everywhere_expr.mp h).2
  | declaration | block | whileLoop | exitStmt | continueStmt => cases he

end Passes

end Stmt

/-! ## Functions, machines and tasks -/

/-- The body of a function passes. -/
structure Closure.Passes (test : NodeTest) (c : Closure) : Prop where
  statements : ∀ s ∈ c.statements, s.Passes test
  expression : ∀ e, c.expression = some e → e.Passes test

theorem Expr.Passes.function {pos : Pos} {params : List String} {statements : List Stmt}
    {expression : Option Expr} (h : (Expr.function pos params statements expression).Passes test)
    (frame : Nat) : Closure.Passes test ⟨params, statements, expression, frame⟩ := by
  obtain ⟨-, hstatements, hexpression⟩ := everywhere_function.mp h
  refine ⟨Stmt.everywhereAll_iff.mp hstatements, ?_⟩
  rintro e rfl
  exact hexpression

/-- All functions in the store pass. -/
def Machine.Passes (test : NodeTest) (m : Machine) : Prop :=
  ∀ c ∈ m.store.closures, c.Passes test

theorem Machine.passes_initial : Machine.initial.Passes test := by
  intro c hc
  cases hc with
  | mk hc => cases hc

theorem Machine.passes_trivial (m : Machine) : m.Passes .trivial :=
  fun _ _ => ⟨fun s _ => s.passes_trivial, fun e _ => e.passes_trivial⟩

theorem Machine.Passes.closure {m : Machine} (h : m.Passes test) (ref : Nat) :
    (m.store.closure ref).Passes test := by
  unfold Store.closure
  rw [Array.getD_eq_getD_getElem?]
  cases hc : m.store.closures[ref]? with
  | none => exact ⟨by simp, by simp⟩
  | some c => exact h c (Array.mem_of_getElem? hc)

/-- The code of a task passes. -/
def Task.Passes (test : NodeTest) : Task → Prop
  | .eval e _ => e.Passes test
  | .exec s _ => s.Passes test

end Dee
