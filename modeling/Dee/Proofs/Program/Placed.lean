import Dee.Diagnostic
import Dee.Proofs.Program.Everywhere

/-!
# Code at good positions

`Expr.Placed` and `Stmt.Placed` say that every position in a piece of code is good, those of blocks
included. What is good is left open: any test of positions. `AllAt` says the same of errors and
notes.

There is one equivalence for each form of code, so that no other module opens the walk over its
nodes.
-/

namespace Dee

/-! ## Positions in code -/

/-- The positions that a statement carries, those of its blocks included. -/
def Stmt.positions : Stmt → List Pos
  | .block body => [body.pos]
  | .conditional pos _ thenBlock none => [pos, thenBlock.pos]
  | .conditional pos _ thenBlock (some elseBlock) => [pos, thenBlock.pos, elseBlock.pos]
  | .whileLoop pos _ body => [pos, body.pos]
  | .forLoop pos _ body _ _ => [pos, body.pos]
  | s => [s.pos]

section

variable (okPos : Pos → Bool)

/-- Every position in an expression is good. -/
def Expr.Placed (e : Expr) : Prop :=
  e.everywhere (fun e => okPos e.pos) (fun s => s.positions.all okPos) = true

/-- Every position in some expressions is good. -/
def Expr.AllPlaced (es : List Expr) : Prop :=
  Expr.everywhereAll (fun e => okPos e.pos) (fun s => s.positions.all okPos) es = true

/-- Every position in an expression, if there is one, is good. -/
def Expr.OptionPlaced (e : Option Expr) : Prop :=
  Expr.everywhereOption (fun e => okPos e.pos) (fun s => s.positions.all okPos) e = true

/-- Every position in the entries of a tuple is good. -/
def TupleEntry.AllPlaced (entries : List TupleEntry) : Prop :=
  TupleEntry.everywhereAll (fun e => okPos e.pos) (fun s => s.positions.all okPos) entries = true

/-- Every position in a statement is good. -/
def Stmt.Placed (s : Stmt) : Prop :=
  s.everywhere (fun e => okPos e.pos) (fun s => s.positions.all okPos) = true

/-- Every position in some statements is good. -/
def Stmt.AllPlaced (ss : List Stmt) : Prop :=
  Stmt.everywhereAll (fun e => okPos e.pos) (fun s => s.positions.all okPos) ss = true

/-- Every position in the initial values of some variables is good. -/
def VarDef.AllPlaced (vars : List VarDef) : Prop :=
  VarDef.everywhereAll (fun e => okPos e.pos) (fun s => s.positions.all okPos) vars = true

/-- Every position in a block is good, its own included. -/
structure Block.Placed (b : Block) : Prop where
  pos : okPos b.pos = true
  statements : Stmt.AllPlaced okPos b.statements

end

variable {okPos : Pos → Bool}

theorem Expr.Placed.pos {e : Expr} (h : e.Placed okPos) : okPos e.pos = true :=
  Expr.everywhere_self h

theorem Stmt.Placed.pos {s : Stmt} (h : s.Placed okPos) : okPos s.pos = true := by
  refine List.all_eq_true.mp (Stmt.everywhere_self h) s.pos ?_
  cases s with
  | conditional pos condition thenBlock elseBlock =>
    cases elseBlock with
    | none => exact List.mem_cons_self
    | some other => exact List.mem_cons_self
  | _ => exact List.mem_cons_self

/-! ## Lists -/

theorem Expr.allPlaced_iff {es : List Expr} :
    Expr.AllPlaced okPos es ↔ ∀ e ∈ es, e.Placed okPos :=
  Expr.everywhereAll_iff

theorem TupleEntry.allPlaced_iff {entries : List TupleEntry} :
    TupleEntry.AllPlaced okPos entries ↔ ∀ entry ∈ entries, entry.value.Placed okPos :=
  TupleEntry.everywhereAll_iff

theorem Stmt.allPlaced_iff {ss : List Stmt} :
    Stmt.AllPlaced okPos ss ↔ ∀ s ∈ ss, s.Placed okPos :=
  Stmt.everywhereAll_iff

theorem Expr.allPlaced_cons {e : Expr} {rest : List Expr} :
    Expr.AllPlaced okPos (e :: rest) ↔ e.Placed okPos ∧ Expr.AllPlaced okPos rest :=
  Expr.everywhereAll_cons

theorem TupleEntry.allPlaced_cons {name : Option String} {e : Expr} {rest : List TupleEntry} :
    TupleEntry.AllPlaced okPos (⟨name, e⟩ :: rest) ↔
      e.Placed okPos ∧ TupleEntry.AllPlaced okPos rest :=
  TupleEntry.everywhereAll_cons

theorem Stmt.allPlaced_cons {s : Stmt} {rest : List Stmt} :
    Stmt.AllPlaced okPos (s :: rest) ↔ s.Placed okPos ∧ Stmt.AllPlaced okPos rest :=
  Stmt.everywhereAll_cons

theorem VarDef.allPlaced_cons {name : String} {initializer : Option Expr} {rest : List VarDef} :
    VarDef.AllPlaced okPos (⟨name, initializer⟩ :: rest) ↔
      Expr.OptionPlaced okPos initializer ∧ VarDef.AllPlaced okPos rest :=
  VarDef.everywhereAll_cons

theorem Expr.optionPlaced_iff {e : Option Expr} :
    Expr.OptionPlaced okPos e ↔ ∀ e', e = some e' → e'.Placed okPos := by
  cases e with
  | none => exact ⟨nofun, fun _ => rfl⟩
  | some e =>
    constructor
    · rintro h e' ⟨⟩
      exact h
    · intro h
      exact h e rfl

/-! ## Expressions -/

namespace Expr

variable {pos : Pos}

theorem placed_binary {op : String} {left right : Expr} :
    (Expr.binary pos op left right).Placed okPos ↔
      okPos pos = true ∧ left.Placed okPos ∧ right.Placed okPos :=
  everywhere_binary

theorem placed_unary {op : String} {operand : Expr} :
    (Expr.unary pos op operand).Placed okPos ↔ okPos pos = true ∧ operand.Placed okPos :=
  everywhere_unary

theorem placed_call {func : Expr} {args : List Expr} :
    (Expr.call pos func args).Placed okPos ↔
      okPos pos = true ∧ func.Placed okPos ∧ AllPlaced okPos args :=
  everywhere_call

theorem placed_index {value index : Expr} :
    (Expr.index pos value index).Placed okPos ↔
      okPos pos = true ∧ value.Placed okPos ∧ index.Placed okPos :=
  everywhere_index

theorem placed_array {elements : List Expr} :
    (Expr.array pos elements).Placed okPos ↔ okPos pos = true ∧ AllPlaced okPos elements :=
  everywhere_array

theorem placed_tuple {entries : List TupleEntry} :
    (Expr.tuple pos entries).Placed okPos ↔
      okPos pos = true ∧ TupleEntry.AllPlaced okPos entries :=
  everywhere_tuple

theorem placed_function {params : List String} {statements : List Stmt} {expression : Option Expr} :
    (Expr.function pos params statements expression).Placed okPos ↔
      okPos pos = true ∧ Stmt.AllPlaced okPos statements ∧ OptionPlaced okPos expression :=
  everywhere_function

theorem placed_typeCheck {value : Expr} {indicator : String} :
    (Expr.typeCheck pos value indicator).Placed okPos ↔ okPos pos = true ∧ value.Placed okPos :=
  everywhere_typeCheck

theorem placed_member {value : Expr} {member : Member} :
    (Expr.member pos value member).Placed okPos ↔ okPos pos = true ∧ value.Placed okPos :=
  everywhere_member

end Expr

/-! ## Statements -/

namespace Stmt

variable {pos : Pos}

theorem all_one : [pos].all okPos = true ↔ okPos pos = true := by
  simp

theorem all_two {pos' : Pos} :
    [pos, pos'].all okPos = true ↔ okPos pos = true ∧ okPos pos' = true := by
  simp

theorem all_three {pos' pos'' : Pos} :
    [pos, pos', pos''].all okPos = true ↔
      okPos pos = true ∧ okPos pos' = true ∧ okPos pos'' = true := by
  simp

theorem placed_declaration {vars : List VarDef} :
    (Stmt.declaration pos vars).Placed okPos ↔
      okPos pos = true ∧ VarDef.AllPlaced okPos vars :=
  everywhere_declaration.trans (and_congr all_one Iff.rfl)

theorem placed_assign {target value : Expr} :
    (Stmt.assign pos target value).Placed okPos ↔
      okPos pos = true ∧ target.Placed okPos ∧ value.Placed okPos :=
  everywhere_assign.trans (and_congr all_one Iff.rfl)

theorem placed_block {body : Block} : (Stmt.block body).Placed okPos ↔ body.Placed okPos := by
  refine (everywhere_block.trans (and_congr all_one Iff.rfl)).trans ?_
  constructor
  · rintro ⟨hpos, hstatements⟩
    exact ⟨hpos, hstatements⟩
  · rintro ⟨hpos, hstatements⟩
    exact ⟨hpos, hstatements⟩

theorem placed_conditional {condition : Expr} {thenBlock : Block} {elseBlock : Option Block} :
    (Stmt.conditional pos condition thenBlock elseBlock).Placed okPos ↔
      okPos pos = true ∧ condition.Placed okPos ∧ thenBlock.Placed okPos ∧
        ∀ other, elseBlock = some other → other.Placed okPos := by
  cases elseBlock with
  | none =>
    refine (everywhere_conditional_none.trans (and_congr all_two Iff.rfl)).trans ?_
    constructor
    · rintro ⟨⟨hpos, hthen⟩, hcondition, hbody⟩
      exact ⟨hpos, hcondition, ⟨hthen, hbody⟩, nofun⟩
    · rintro ⟨hpos, hcondition, ⟨hthen, hbody⟩, -⟩
      exact ⟨⟨hpos, hthen⟩, hcondition, hbody⟩
  | some other =>
    refine (everywhere_conditional_some.trans (and_congr all_three Iff.rfl)).trans ?_
    constructor
    · rintro ⟨⟨hpos, hthen, helse⟩, hcondition, hbody, hrest⟩
      refine ⟨hpos, hcondition, ⟨hthen, hbody⟩, ?_⟩
      rintro _ ⟨⟩
      exact ⟨helse, hrest⟩
    · rintro ⟨hpos, hcondition, ⟨hthen, hbody⟩, hother⟩
      obtain ⟨helse, hrest⟩ := hother _ rfl
      exact ⟨⟨hpos, hthen, helse⟩, hcondition, hbody, hrest⟩

theorem placed_whileLoop {condition : Expr} {body : Block} :
    (Stmt.whileLoop pos condition body).Placed okPos ↔
      okPos pos = true ∧ condition.Placed okPos ∧ body.Placed okPos := by
  refine (everywhere_whileLoop.trans (and_congr all_two Iff.rfl)).trans ?_
  constructor
  · rintro ⟨⟨hpos, hbodyPos⟩, hcondition, hbody⟩
    exact ⟨hpos, hcondition, hbodyPos, hbody⟩
  · rintro ⟨hpos, hcondition, hbodyPos, hbody⟩
    exact ⟨⟨hpos, hbodyPos⟩, hcondition, hbody⟩

theorem placed_forLoop {loopVar : Option String} {body : Block} {iterable rangeEnd : Option Expr} :
    (Stmt.forLoop pos loopVar body iterable rangeEnd).Placed okPos ↔
      okPos pos = true ∧ Expr.OptionPlaced okPos iterable ∧ Expr.OptionPlaced okPos rangeEnd ∧
        body.Placed okPos := by
  refine (everywhere_forLoop.trans (and_congr all_two Iff.rfl)).trans ?_
  constructor
  · rintro ⟨⟨hpos, hbodyPos⟩, hiterable, hrangeEnd, hbody⟩
    exact ⟨hpos, hiterable, hrangeEnd, hbodyPos, hbody⟩
  · rintro ⟨hpos, hiterable, hrangeEnd, hbodyPos, hbody⟩
    exact ⟨⟨hpos, hbodyPos⟩, hiterable, hrangeEnd, hbody⟩

theorem placed_returnStmt {value : Option Expr} :
    (Stmt.returnStmt pos value).Placed okPos ↔ okPos pos = true ∧ Expr.OptionPlaced okPos value :=
  everywhere_returnStmt.trans (and_congr all_one Iff.rfl)

theorem placed_print {values : List Expr} :
    (Stmt.print pos values).Placed okPos ↔ okPos pos = true ∧ Expr.AllPlaced okPos values :=
  everywhere_print.trans (and_congr all_one Iff.rfl)

theorem placed_expr {value : Expr} :
    (Stmt.expr pos value).Placed okPos ↔ okPos pos = true ∧ value.Placed okPos :=
  everywhere_expr.trans (and_congr all_one Iff.rfl)

end Stmt

/-! ## Errors and notes -/

section AllAt

variable {ε : Type}

/-- Errors or notes that all lie at good positions. -/
def AllAt (okPos : Pos → Bool) (es : List (Located ε)) : Prop :=
  ∀ e ∈ es, okPos e.pos = true

theorem allAt_nil : AllAt okPos ([] : List (Located ε)) := by
  intro e he
  cases he

theorem allAt_singleton {e : Located ε} : AllAt okPos [e] ↔ okPos e.pos = true := by
  simp [AllAt]

theorem allAt_append {es fs : List (Located ε)} :
    AllAt okPos (es ++ fs) ↔ AllAt okPos es ∧ AllAt okPos fs := by
  simp [AllAt, or_imp, forall_and]

theorem allAt_map {α : Type} {as : List α} {f : α → Located ε}
    (h : ∀ a ∈ as, okPos (f a).pos = true) : AllAt okPos (as.map f) := by
  intro e he
  obtain ⟨a, ha, rfl⟩ := List.mem_map.mp he
  exact h a ha

end AllAt

end Dee
