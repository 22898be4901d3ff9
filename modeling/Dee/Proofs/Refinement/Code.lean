import Dee.Pos
import Dee.Program.Basic
import Dee.Operator
import Dee.Proofs.Token.Genuine
import Mathlib.Data.List.Forall2

/-!
# Code that does the same

`Expr.Refines kept e e'` relates an expression to one that may stand in its place, and the same for
statements: operators on literals may be replaced by their result, a conditional by the branch that
runs, what stands behind a return may be missing, and so may variables whose names are not `kept`.
Every name that the code refers to must be kept, and a variable goes only with an initial value that
nobody can notice. All code refines itself if all names are kept.
-/

namespace Dee

/-- Whether evaluating the initial value of a variable shows in nothing but the variable. -/
def VarDef.isPlain (v : VarDef) : Bool :=
  match v.initializer with
  | none => true
  | some (.literal _ _ _) => true
  | some (.reference _ _) => true
  | some (.function _ _ _ _) => true
  | some _ => false

variable (kept : String → Prop)

mutual

/-- An expression and one that may stand in its place. -/
inductive Expr.Refines : Expr → Expr → Prop
  | literal {pos : Pos} {value : Scalar} {kind : Kind} :
    Expr.Refines (.literal pos value kind) (.literal pos value kind)
  | reference {pos : Pos} {name : String} (hname : kept name) :
    Expr.Refines (.reference pos name) (.reference pos name)
  | binary {pos : Pos} {op : String} {left right left' right' : Expr}
    (hleft : Expr.Refines left left') (hright : Expr.Refines right right') :
    Expr.Refines (.binary pos op left right) (.binary pos op left' right')
  | foldBinary {pos : Pos} {op : String} {left right : Expr} {pos₁ pos₂ : Pos} {a b v : Scalar}
    {ka kb kind : Kind} (hleft : Expr.Refines left (.literal pos₁ a ka))
    (hright : Expr.Refines right (.literal pos₂ b kb)) (hv : Scalar.binary op a b = .ok v) :
    Expr.Refines (.binary pos op left right) (.literal pos v kind)
  | unary {pos : Pos} {op : String} {operand operand' : Expr}
    (hoperand : Expr.Refines operand operand') :
    Expr.Refines (.unary pos op operand) (.unary pos op operand')
  | foldUnary {pos : Pos} {op : String} {operand : Expr} {pos₁ : Pos} {a v : Scalar}
    {ka kind : Kind} (hoperand : Expr.Refines operand (.literal pos₁ a ka))
    (hv : Scalar.unary op a = .ok v) :
    Expr.Refines (.unary pos op operand) (.literal pos v kind)
  | call {pos : Pos} {func func' : Expr} {args args' : List Expr}
    (hfunc : Expr.Refines func func') (hargs : List.Forall₂ Expr.Refines args args') :
    Expr.Refines (.call pos func args) (.call pos func' args')
  | index {pos : Pos} {value index value' index' : Expr}
    (hvalue : Expr.Refines value value') (hindex : Expr.Refines index index') :
    Expr.Refines (.index pos value index) (.index pos value' index')
  | array {pos : Pos} {elements elements' : List Expr}
    (helements : List.Forall₂ Expr.Refines elements elements') :
    Expr.Refines (.array pos elements) (.array pos elements')
  | tuple {pos : Pos} {entries entries' : List TupleEntry}
    (hentries : List.Forall₂ TupleEntry.Refines entries entries') :
    Expr.Refines (.tuple pos entries) (.tuple pos entries')
  | function {pos : Pos} {params : List String} {body body' : List Stmt}
    (hbody : Stmt.RefinesAll body body') :
    Expr.Refines (.function pos params body none) (.function pos params body' none)
  | lambda {pos : Pos} {params : List String} {body body' : List Stmt} {e e' : Expr}
    (he : Expr.Refines e e') :
    Expr.Refines (.function pos params body (some e)) (.function pos params body' (some e'))
  | typeCheck {pos : Pos} {value value' : Expr} {indicator : String}
    (hvalue : Expr.Refines value value') :
    Expr.Refines (.typeCheck pos value indicator) (.typeCheck pos value' indicator)
  | member {pos : Pos} {value value' : Expr} {member : Member}
    (hvalue : Expr.Refines value value') :
    Expr.Refines (.member pos value member) (.member pos value' member)

/-- An entry of a tuple and one that may stand in its place. -/
inductive TupleEntry.Refines : TupleEntry → TupleEntry → Prop
  | mk {name : Option String} {e e' : Expr} (he : Expr.Refines e e') :
    TupleEntry.Refines ⟨name, e⟩ ⟨name, e'⟩

/-- A statement and one that may stand in its place. A branch that takes the place of its
conditional must stand at a place, so that its errors are never moved to the conditional. -/
inductive Stmt.Refines : Stmt → Stmt → Prop
  | declaration {pos : Pos} {vars vars' : List VarDef} (hvars : VarDef.RefinesAll vars vars') :
    Stmt.Refines (.declaration pos vars) (.declaration pos vars')
  | assign {pos : Pos} {target target' value value' : Expr}
    (htarget : Expr.Refines target target') (hvalue : Expr.Refines value value') :
    Stmt.Refines (.assign pos target value) (.assign pos target' value')
  | block {body body' : Block} (hbody : Block.Refines body body') :
    Stmt.Refines (.block body) (.block body')
  | conditional {pos : Pos} {condition condition' : Expr} {body body' : Block}
    {other other' : Option Block} (hcondition : Expr.Refines condition condition')
    (hbody : Block.Refines body body') (hother : Option.Rel Block.Refines other other') :
    Stmt.Refines (.conditional pos condition body other)
      (.conditional pos condition' body' other')
  | thenBranch {pos : Pos} {condition : Expr} {pos₁ : Pos} {value : Scalar} {kind : Kind}
    {body body' : Block} {other : Option Block}
    (hcondition : Expr.Refines condition (.literal pos₁ value kind))
    (hvalue : value.truthy = true) (hplace : body.pos.isPlace = true)
    (hbody : Block.Refines body body') :
    Stmt.Refines (.conditional pos condition body other) (.block body')
  | elseBranch {pos : Pos} {condition : Expr} {pos₁ : Pos} {value : Scalar} {kind : Kind}
    {body other other' : Block}
    (hcondition : Expr.Refines condition (.literal pos₁ value kind))
    (hvalue : value.truthy = false) (hplace : other.pos.isPlace = true)
    (hother : Block.Refines other other') :
    Stmt.Refines (.conditional pos condition body (some other)) (.block other')
  | noBranch {pos : Pos} {condition : Expr} {pos₁ pos₂ : Pos} {value : Scalar} {kind : Kind}
    {body : Block} (hcondition : Expr.Refines condition (.literal pos₁ value kind))
    (hvalue : value.truthy = false) :
    Stmt.Refines (.conditional pos condition body none) (.block ⟨pos₂, []⟩)
  | whileLoop {pos : Pos} {condition condition' : Expr} {body body' : Block}
    (hcondition : Expr.Refines condition condition') (hbody : Block.Refines body body') :
    Stmt.Refines (.whileLoop pos condition body) (.whileLoop pos condition' body')
  | forLoop {pos : Pos} {loopVar : Option String} {body body' : Block}
    {iterable iterable' rangeEnd rangeEnd' : Option Expr} (hbody : Block.Refines body body')
    (hiterable : Option.Rel Expr.Refines iterable iterable')
    (hrangeEnd : Option.Rel Expr.Refines rangeEnd rangeEnd') :
    Stmt.Refines (.forLoop pos loopVar body iterable rangeEnd)
      (.forLoop pos loopVar body' iterable' rangeEnd')
  | returnStmt {pos : Pos} {value value' : Option Expr}
    (hvalue : Option.Rel Expr.Refines value value') :
    Stmt.Refines (.returnStmt pos value) (.returnStmt pos value')
  | exitStmt {pos : Pos} : Stmt.Refines (.exitStmt pos) (.exitStmt pos)
  | continueStmt {pos : Pos} : Stmt.Refines (.continueStmt pos) (.continueStmt pos)
  | print {pos : Pos} {values values' : List Expr}
    (hvalues : List.Forall₂ Expr.Refines values values') :
    Stmt.Refines (.print pos values) (.print pos values')
  | expr {pos : Pos} {value value' : Expr} (hvalue : Expr.Refines value value') :
    Stmt.Refines (.expr pos value) (.expr pos value')

/-- A block and one that may stand in its place. -/
inductive Block.Refines : Block → Block → Prop
  | mk {pos : Pos} {body body' : List Stmt} (hbody : Stmt.RefinesAll body body') :
    Block.Refines ⟨pos, body⟩ ⟨pos, body'⟩

/-- Statements in sequence and some that may stand in their place. -/
inductive Stmt.RefinesAll : List Stmt → List Stmt → Prop
  | nil : Stmt.RefinesAll [] []
  | cons {s s' : Stmt} {rest rest' : List Stmt} (hs : Stmt.Refines s s')
    (hrest : Stmt.RefinesAll rest rest') : Stmt.RefinesAll (s :: rest) (s' :: rest')
  /-- A declaration that loses all its variables. -/
  | skip {pos : Pos} {vars : List VarDef} {rest rest' : List Stmt}
    (hvars : VarDef.RefinesAll vars []) (hrest : Stmt.RefinesAll rest rest') :
    Stmt.RefinesAll (.declaration pos vars :: rest) rest'
  /-- Nothing runs behind a return. -/
  | cut {pos : Pos} {value value' : Option Expr} {rest : List Stmt}
    (hvalue : Option.Rel Expr.Refines value value') :
    Stmt.RefinesAll (.returnStmt pos value :: rest) [.returnStmt pos value']

/-- The variables of a declaration and those that stay. -/
inductive VarDef.RefinesAll : List VarDef → List VarDef → Prop
  | nil : VarDef.RefinesAll [] []
  | keep {name : String} {initializer initializer' : Option Expr} {rest rest' : List VarDef}
    (hname : kept name) (hinitializer : Option.Rel Expr.Refines initializer initializer')
    (hrest : VarDef.RefinesAll rest rest') :
    VarDef.RefinesAll (⟨name, initializer⟩ :: rest) (⟨name, initializer'⟩ :: rest')
  | drop {v : VarDef} {rest rest' : List VarDef} (hname : ¬ kept v.name) (hplain : v.isPlain = true)
    (hrest : VarDef.RefinesAll rest rest') : VarDef.RefinesAll (v :: rest) rest'

end

/-! ## Code in its own place -/

section Own

variable {kept} (hkept : ∀ name, kept name)
include hkept

set_option linter.unusedSectionVars false

mutual

/-- If all names are kept, every expression may stand in its own place. -/
theorem Expr.refines_self : ∀ e : Expr, Expr.Refines kept e e
  | .literal _ _ _ => .literal
  | .reference _ name => .reference (hkept name)
  | .binary _ _ left right => .binary left.refines_self right.refines_self
  | .unary _ _ operand => .unary operand.refines_self
  | .call _ func args => .call func.refines_self (Expr.refinesAll_self args)
  | .index _ value index => .index value.refines_self index.refines_self
  | .array _ elements => .array (Expr.refinesAll_self elements)
  | .tuple _ entries => .tuple (TupleEntry.refinesAll_self entries)
  | .function _ _ statements none => .function (Stmt.refinesAll_self statements)
  | .function _ _ _ (some e) => .lambda e.refines_self
  | .typeCheck _ value _ => .typeCheck value.refines_self
  | .member _ value _ => .member value.refines_self

theorem Expr.refinesAll_self : ∀ es : List Expr, List.Forall₂ (Expr.Refines kept) es es
  | [] => .nil
  | e :: rest => .cons e.refines_self (Expr.refinesAll_self rest)

theorem Expr.refinesOption_self : ∀ e : Option Expr, Option.Rel (Expr.Refines kept) e e
  | none => .none
  | some e => .some e.refines_self

theorem TupleEntry.refinesAll_self : ∀ entries : List TupleEntry,
    List.Forall₂ (TupleEntry.Refines kept) entries entries
  | [] => .nil
  | ⟨_, e⟩ :: rest => .cons (.mk e.refines_self) (TupleEntry.refinesAll_self rest)

theorem Stmt.refines_self : ∀ s : Stmt, Stmt.Refines kept s s
  | .declaration _ vars => .declaration (VarDef.refinesAll_self vars)
  | .assign _ target value => .assign target.refines_self value.refines_self
  | .block ⟨_, body⟩ => .block (.mk (Stmt.refinesAll_self body))
  | .conditional _ condition ⟨_, body⟩ none =>
    .conditional condition.refines_self (.mk (Stmt.refinesAll_self body)) .none
  | .conditional _ condition ⟨_, body⟩ (some ⟨_, other⟩) =>
    .conditional condition.refines_self (.mk (Stmt.refinesAll_self body))
      (.some (.mk (Stmt.refinesAll_self other)))
  | .whileLoop _ condition ⟨_, body⟩ =>
    .whileLoop condition.refines_self (.mk (Stmt.refinesAll_self body))
  | .forLoop _ _ ⟨_, body⟩ iterable rangeEnd =>
    .forLoop (.mk (Stmt.refinesAll_self body)) (Expr.refinesOption_self iterable)
      (Expr.refinesOption_self rangeEnd)
  | .returnStmt _ value => .returnStmt (Expr.refinesOption_self value)
  | .exitStmt _ => .exitStmt
  | .continueStmt _ => .continueStmt
  | .print _ values => .print (Expr.refinesAll_self values)
  | .expr _ value => .expr value.refines_self

theorem Stmt.refinesAll_self : ∀ ss : List Stmt, Stmt.RefinesAll kept ss ss
  | [] => .nil
  | s :: rest => .cons s.refines_self (Stmt.refinesAll_self rest)

theorem VarDef.refinesAll_self : ∀ vars : List VarDef, VarDef.RefinesAll kept vars vars
  | [] => .nil
  | ⟨name, initializer⟩ :: rest =>
    .keep (hkept name) (Expr.refinesOption_self initializer) (VarDef.refinesAll_self rest)

end

end Own

end Dee
