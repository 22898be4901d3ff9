import Dee.Proofs.Simplify.Result

/-!
# Variables that simplification removes

The variables that the walk drops as unused, with their initial values. Code that the walk leaves
out as a whole, a dead branch or what stands behind a return, is not looked into.

Main statement: `Program.names_removed`. The removed variables are those that the notes name.
-/

namespace Dee

mutual

/-- The variables removed from an expression. -/
def Expr.removed (used : List String) : Expr → List VarDef
  | .literal _ _ _ => []
  | .reference _ _ => []
  | .binary _ _ left right => left.removed used ++ right.removed used
  | .unary _ _ operand => operand.removed used
  | .call _ func args => func.removed used ++ Expr.removedAll used args
  | .index _ value index => value.removed used ++ index.removed used
  | .array _ elements => Expr.removedAll used elements
  | .tuple _ entries => TupleEntry.removedAll used entries
  | .function _ _ _ (some e) => e.removed used
  | .function _ _ statements none => Stmt.removedAll used statements
  | .typeCheck _ value _ => value.removed used
  | .member _ value _ => value.removed used

/-- The variables removed from some expressions. -/
def Expr.removedAll (used : List String) : List Expr → List VarDef
  | [] => []
  | e :: rest => e.removed used ++ Expr.removedAll used rest

/-- The variables removed from an expression, if there is one. -/
def Expr.removedOption (used : List String) : Option Expr → List VarDef
  | none => []
  | some e => e.removed used

/-- The variables removed from the entries of a tuple. -/
def TupleEntry.removedAll (used : List String) : List TupleEntry → List VarDef
  | [] => []
  | ⟨_, e⟩ :: rest => e.removed used ++ TupleEntry.removedAll used rest

/-- The variables removed from a statement. -/
def Stmt.removed (used : List String) : Stmt → List VarDef
  | .declaration _ vars => VarDef.removedAll used vars
  | .assign _ target value => target.removed used ++ value.removed used
  | .block ⟨_, body⟩ => Stmt.removedAll used body
  | .conditional _ condition ⟨_, body⟩ none =>
    condition.removed used ++
      match constantCondition? (condition.simplify used).result with
      | some true => Stmt.removedAll used body
      | some false => []
      | none => Stmt.removedAll used body
  | .conditional _ condition ⟨_, body⟩ (some ⟨_, other⟩) =>
    condition.removed used ++
      match constantCondition? (condition.simplify used).result with
      | some true => Stmt.removedAll used body
      | some false => Stmt.removedAll used other
      | none => Stmt.removedAll used other ++ Stmt.removedAll used body
  | .whileLoop _ condition ⟨_, body⟩ => condition.removed used ++ Stmt.removedAll used body
  | .forLoop _ _ ⟨_, body⟩ iterable rangeEnd =>
    Expr.removedOption used iterable ++
      (Expr.removedOption used rangeEnd ++ Stmt.removedAll used body)
  | .returnStmt _ value => Expr.removedOption used value
  | .exitStmt _ => []
  | .continueStmt _ => []
  | .print _ values => Expr.removedAll used values
  | .expr _ value => value.removed used

/-- The variables removed from statements in sequence. -/
def Stmt.removedAll (used : List String) : List Stmt → List VarDef
  | [] => []
  | s :: rest =>
    s.removed used ++
      if (s.simplify used).result.any Stmt.isReturn then [] else Stmt.removedAll used rest

/-- The variables removed from a declaration. -/
def VarDef.removedAll (used : List String) : List VarDef → List VarDef
  | [] => []
  | ⟨name, initializer⟩ :: rest =>
    (if isUnused used name then [⟨name, initializer⟩] else Expr.removedOption used initializer) ++
      VarDef.removedAll used rest

end

/-- The variables that simplification removes from a program. -/
def Program.removed (p : Program) : List VarDef :=
  Stmt.removedAll p.references p.statements

/-! ## Notes -/

/-- The name that a note says is unused. -/
def Note.unusedName? : Note → Option String
  | .unused name => some name
  | _ => none

/-- The names that notes say are unused. -/
def unusedNames (notes : List (Located Note)) : List String :=
  notes.filterMap (·.cause.unusedName?)

@[simp] theorem unusedNames_nil : unusedNames [] = [] := rfl

@[simp] theorem unusedNames_cons (n : Note) (pos : Pos) (ns : List (Located Note)) :
    unusedNames (⟨n, pos⟩ :: ns) = n.unusedName?.toList ++ unusedNames ns := by
  unfold unusedNames
  rw [List.filterMap_cons]
  cases n.unusedName? <;> rfl

@[simp] theorem unusedNames_append (ns ns' : List (Located Note)) :
    unusedNames (ns ++ ns') = unusedNames ns ++ unusedNames ns' :=
  List.filterMap_append

theorem unusedNames_unreachable {unreachable : Note} (hnote : unreachable.unusedName? = none)
    (dropped : List Stmt) : unusedNames (dropped.map fun s => ⟨unreachable, s.pos⟩) = [] := by
  induction dropped with
  | nil => rfl
  | cons s rest ih =>
    rw [List.map_cons, unusedNames_cons, hnote, ih, Option.toList_none, List.nil_append]

theorem unusedNames_foldBinary (pos : Pos) (op : String) (left right : Expr) :
    unusedNames (foldBinary pos op left right).notes = [] := by
  unfold foldBinary
  split
  · split
    · rfl
    · rfl
  · rfl

theorem unusedNames_foldUnary (pos : Pos) (op : String) (operand : Expr) :
    unusedNames (foldUnary pos op operand).notes = [] := by
  unfold foldUnary
  split
  · split
    · rfl
    · rfl
  · rfl

variable (used : List String)

mutual

theorem Expr.names_removed : ∀ e : Expr,
    unusedNames (e.simplify used).notes = (e.removed used).map VarDef.name
  | .literal _ _ _ => rfl
  | .reference _ _ => rfl
  | .binary pos op left right => by
    rw [Expr.simplify, Noted.notes_bind, Noted.notes_bind, unusedNames_append, unusedNames_append,
      unusedNames_foldBinary, Expr.names_removed left, Expr.names_removed right, Expr.removed,
      List.map_append, List.append_nil]
  | .unary pos op operand => by
    rw [Expr.simplify, Noted.notes_bind, unusedNames_append, unusedNames_foldUnary,
      Expr.names_removed operand, List.append_nil, Expr.removed]
  | .call pos func args => by
    simp [Expr.simplify, Expr.removed, Expr.names_removed func, Expr.names_removedAll args]
  | .index pos value index => by
    simp [Expr.simplify, Expr.removed, Expr.names_removed value, Expr.names_removed index]
  | .array pos elements => by
    simp [Expr.simplify, Expr.removed, Expr.names_removedAll elements]
  | .tuple pos entries => by
    simp [Expr.simplify, Expr.removed, TupleEntry.names_removedAll entries]
  | .function pos params statements (some e) => by
    simp [Expr.simplify, Expr.removed, Expr.names_removed e]
  | .function pos params statements none => by
    simp [Expr.simplify, Expr.removed, Stmt.names_removedAll .unreachableInBlock rfl statements]
  | .typeCheck pos value indicator => by
    simp [Expr.simplify, Expr.removed, Expr.names_removed value]
  | .member pos value member => by
    simp [Expr.simplify, Expr.removed, Expr.names_removed value]

theorem Expr.names_removedAll : ∀ es : List Expr,
    unusedNames (Expr.simplifyAll used es).notes = (Expr.removedAll used es).map VarDef.name
  | [] => rfl
  | e :: rest => by
    simp [Expr.simplifyAll, Expr.removedAll, Expr.names_removed e, Expr.names_removedAll rest]

theorem Expr.names_removedOption : ∀ e : Option Expr,
    unusedNames (Expr.simplifyOption used e).notes = (Expr.removedOption used e).map VarDef.name
  | none => rfl
  | some e => by
    simp [Expr.simplifyOption, Expr.removedOption, Expr.names_removed e]

theorem TupleEntry.names_removedAll : ∀ entries : List TupleEntry,
    unusedNames (TupleEntry.simplifyAll used entries).notes =
      (TupleEntry.removedAll used entries).map VarDef.name
  | [] => rfl
  | ⟨name, e⟩ :: rest => by
    simp [TupleEntry.simplifyAll, TupleEntry.removedAll, Expr.names_removed e,
      TupleEntry.names_removedAll rest]

theorem Stmt.names_removed : ∀ s : Stmt,
    unusedNames (s.simplify used).notes = (s.removed used).map VarDef.name
  | .declaration pos vars => by
    simp [Stmt.simplify, Stmt.removed, VarDef.names_removedAll pos vars]
  | .assign pos target value => by
    simp [Stmt.simplify, Stmt.removed, Expr.names_removed target, Expr.names_removed value]
  | .block ⟨pos, body⟩ => by
    simp [Stmt.simplify, Stmt.removed, Stmt.names_removedAll .unreachableInBlock rfl body]
  | .conditional pos condition ⟨thenPos, body⟩ none => by
    have hcondition := Expr.names_removed condition
    have hbody := Stmt.names_removedAll .unreachableInBlock rfl body
    rw [Stmt.simplify, Stmt.removed, Noted.notes_bind, unusedNames_append, hcondition]
    cases constantCondition? (condition.simplify used).result with
    | none => simp [hbody]
    | some b => cases b <;> simp [hbody, Note.unusedName?]
  | .conditional pos condition ⟨thenPos, body⟩ (some ⟨elsePos, other⟩) => by
    have hcondition := Expr.names_removed condition
    have hbody := Stmt.names_removedAll .unreachableInBlock rfl body
    have hother := Stmt.names_removedAll .unreachableInBlock rfl other
    rw [Stmt.simplify, Stmt.removed, Noted.notes_bind, unusedNames_append, hcondition]
    cases constantCondition? (condition.simplify used).result with
    | none => simp [hbody, hother]
    | some b => cases b <;> simp [hbody, hother, Note.unusedName?]
  | .whileLoop pos condition ⟨bodyPos, body⟩ => by
    simp [Stmt.simplify, Stmt.removed, Expr.names_removed condition,
      Stmt.names_removedAll .unreachableInBlock rfl body]
  | .forLoop pos loopVar ⟨bodyPos, body⟩ iterable rangeEnd => by
    simp [Stmt.simplify, Stmt.removed, Expr.names_removedOption iterable,
      Expr.names_removedOption rangeEnd,
      Stmt.names_removedAll .unreachableInBlock rfl body]
  | .returnStmt pos value => by
    simp [Stmt.simplify, Stmt.removed, Expr.names_removedOption value]
  | .exitStmt _ => rfl
  | .continueStmt _ => rfl
  | .print pos values => by
    simp [Stmt.simplify, Stmt.removed, Expr.names_removedAll values]
  | .expr pos value => by
    simp [Stmt.simplify, Stmt.removed, Expr.names_removed value]

theorem Stmt.names_removedAll (unreachable : Note)
    (hnote : unreachable.unusedName? = none) : ∀ ss : List Stmt,
    unusedNames (Stmt.simplifyAll used unreachable ss).notes =
      (Stmt.removedAll used ss).map VarDef.name
  | [] => rfl
  | s :: rest => by
    have hs := Stmt.names_removed s
    have hrest := Stmt.names_removedAll unreachable hnote rest
    rw [Stmt.simplifyAll, Stmt.removedAll, Noted.notes_bind, unusedNames_append, hs,
      List.map_append]
    cases hresult : (s.simplify used).result with
    | none => simp [hrest]
    | some s' =>
      cases hreturn : s'.isReturn with
      | true => simp [hreturn, unusedNames_unreachable hnote]
      | false => simp [hreturn, hrest]

theorem VarDef.names_removedAll (pos : Pos) : ∀ vars : List VarDef,
    unusedNames (VarDef.simplifyAll used pos vars).notes =
      (VarDef.removedAll used vars).map VarDef.name
  | [] => rfl
  | ⟨name, initializer⟩ :: rest => by
    have hinitializer := Expr.names_removedOption initializer
    have hrest := VarDef.names_removedAll pos rest
    rw [VarDef.simplifyAll, VarDef.removedAll]
    cases isUnused used name with
    | true => simp [hrest, Note.unusedName?]
    | false => simp [hrest, hinitializer]

end

/-- The removed variables are those that the notes name, in the same order. -/
theorem Program.names_removed (p : Program) :
    unusedNames p.simplify.notes = p.removed.map VarDef.name := by
  have hall := Stmt.names_removedAll p.references .unreachableAtTop rfl p.statements
  rw [Program.simplify, Noted.notes_bind, Noted.notes_pure, List.append_nil, hall, Program.removed]

end Dee
