import Dee.Program.Basic

/-!
# Tests at every node of a program

A test of expressions and a test of statements, each of which looks at one node, are lifted to
whole programs: every node at every depth passes.
-/

namespace Dee

mutual

/-- Whether every expression in an expression passes `p` and every statement in it passes `q`. -/
def Expr.everywhere (p : Expr → Bool) (q : Stmt → Bool) : Expr → Bool
  | .literal pos value kind => p (.literal pos value kind)
  | .reference pos name => p (.reference pos name)
  | .binary pos op left right =>
    p (.binary pos op left right) && (left.everywhere p q && right.everywhere p q)
  | .unary pos op operand => p (.unary pos op operand) && operand.everywhere p q
  | .call pos func args =>
    p (.call pos func args) && (func.everywhere p q && Expr.everywhereAll p q args)
  | .index pos value index =>
    p (.index pos value index) && (value.everywhere p q && index.everywhere p q)
  | .array pos elements => p (.array pos elements) && Expr.everywhereAll p q elements
  | .tuple pos entries => p (.tuple pos entries) && TupleEntry.everywhereAll p q entries
  | .function pos params statements expression =>
    p (.function pos params statements expression) &&
      (Stmt.everywhereAll p q statements && Expr.everywhereOption p q expression)
  | .typeCheck pos value indicator =>
    p (.typeCheck pos value indicator) && value.everywhere p q
  | .member pos value member => p (.member pos value member) && value.everywhere p q

/-- Whether every node of some expressions passes. -/
def Expr.everywhereAll (p : Expr → Bool) (q : Stmt → Bool) : List Expr → Bool
  | [] => true
  | e :: rest => e.everywhere p q && Expr.everywhereAll p q rest

/-- Whether every node of an expression, if there is one, passes. -/
def Expr.everywhereOption (p : Expr → Bool) (q : Stmt → Bool) : Option Expr → Bool
  | none => true
  | some e => e.everywhere p q

/-- Whether every node of the entries of a tuple passes. -/
def TupleEntry.everywhereAll (p : Expr → Bool) (q : Stmt → Bool) : List TupleEntry → Bool
  | [] => true
  | ⟨_, e⟩ :: rest => e.everywhere p q && TupleEntry.everywhereAll p q rest

/-- Whether every statement in a statement passes `q` and every expression in it passes `p`. -/
def Stmt.everywhere (p : Expr → Bool) (q : Stmt → Bool) : Stmt → Bool
  | .declaration pos vars => q (.declaration pos vars) && VarDef.everywhereAll p q vars
  | .assign pos target value =>
    q (.assign pos target value) && (target.everywhere p q && value.everywhere p q)
  | .block ⟨pos, body⟩ => q (.block ⟨pos, body⟩) && Stmt.everywhereAll p q body
  | .conditional pos condition ⟨thenPos, body⟩ none =>
    q (.conditional pos condition ⟨thenPos, body⟩ none) &&
      (condition.everywhere p q && Stmt.everywhereAll p q body)
  | .conditional pos condition ⟨thenPos, body⟩ (some ⟨elsePos, other⟩) =>
    q (.conditional pos condition ⟨thenPos, body⟩ (some ⟨elsePos, other⟩)) &&
      (condition.everywhere p q &&
        (Stmt.everywhereAll p q body && Stmt.everywhereAll p q other))
  | .whileLoop pos condition ⟨bodyPos, body⟩ =>
    q (.whileLoop pos condition ⟨bodyPos, body⟩) &&
      (condition.everywhere p q && Stmt.everywhereAll p q body)
  | .forLoop pos loopVar ⟨bodyPos, body⟩ iterable rangeEnd =>
    q (.forLoop pos loopVar ⟨bodyPos, body⟩ iterable rangeEnd) &&
      (Expr.everywhereOption p q iterable &&
        (Expr.everywhereOption p q rangeEnd && Stmt.everywhereAll p q body))
  | .returnStmt pos value => q (.returnStmt pos value) && Expr.everywhereOption p q value
  | .exitStmt pos => q (.exitStmt pos)
  | .continueStmt pos => q (.continueStmt pos)
  | .print pos values => q (.print pos values) && Expr.everywhereAll p q values
  | .expr pos value => q (.expr pos value) && value.everywhere p q

/-- Whether every node of some statements passes. -/
def Stmt.everywhereAll (p : Expr → Bool) (q : Stmt → Bool) : List Stmt → Bool
  | [] => true
  | s :: rest => s.everywhere p q && Stmt.everywhereAll p q rest

/-- Whether every node of the initial values of some variables passes. -/
def VarDef.everywhereAll (p : Expr → Bool) (q : Stmt → Bool) : List VarDef → Bool
  | [] => true
  | ⟨_, initializer⟩ :: rest =>
    Expr.everywhereOption p q initializer && VarDef.everywhereAll p q rest

end

/-- Whether every node of a program passes. -/
def Program.everywhere (p : Expr → Bool) (q : Stmt → Bool) (prog : Program) : Bool :=
  Stmt.everywhereAll p q prog.statements

/-! ## Lists -/

section Lists

variable {p : Expr → Bool} {q : Stmt → Bool}

theorem Expr.everywhereAll_iff {es : List Expr} :
    Expr.everywhereAll p q es = true ↔ ∀ e ∈ es, e.everywhere p q = true := by
  induction es with
  | nil => simp [Expr.everywhereAll]
  | cons e rest ih => simp [Expr.everywhereAll, ih]

theorem TupleEntry.everywhereAll_iff {entries : List TupleEntry} :
    TupleEntry.everywhereAll p q entries = true ↔
      ∀ entry ∈ entries, entry.value.everywhere p q = true := by
  induction entries with
  | nil => simp [TupleEntry.everywhereAll]
  | cons entry rest ih =>
    obtain ⟨name, e⟩ := entry
    simp [TupleEntry.everywhereAll, ih]

theorem Stmt.everywhereAll_iff {ss : List Stmt} :
    Stmt.everywhereAll p q ss = true ↔ ∀ s ∈ ss, s.everywhere p q = true := by
  induction ss with
  | nil => simp [Stmt.everywhereAll]
  | cons s rest ih => simp [Stmt.everywhereAll, ih]

theorem VarDef.everywhereAll_iff {vars : List VarDef} :
    VarDef.everywhereAll p q vars = true ↔
      ∀ v ∈ vars, Expr.everywhereOption p q v.initializer = true := by
  induction vars with
  | nil => simp [VarDef.everywhereAll]
  | cons v rest ih =>
    obtain ⟨name, initializer⟩ := v
    simp [VarDef.everywhereAll, ih]

end Lists

/-! ## The outermost node -/

section Outermost

variable {p : Expr → Bool} {q : Stmt → Bool}

theorem Expr.everywhere_self {e : Expr} (h : e.everywhere p q = true) : p e = true := by
  unfold Expr.everywhere at h
  split at h <;> first | exact h | exact (Bool.and_eq_true_iff.mp h).1

theorem Stmt.everywhere_self {s : Stmt} (h : s.everywhere p q = true) : q s = true := by
  unfold Stmt.everywhere at h
  split at h <;> first | exact h | exact (Bool.and_eq_true_iff.mp h).1

end Outermost

/-! ## One form of code at a time

A node and its parts pass if and only if the whole does. Literals, references, exits and continues
have no parts: for them `everywhere` is the test itself. -/

section Forms

variable {p : Expr → Bool} {q : Stmt → Bool} {pos : Pos}

namespace Expr

theorem everywhere_binary {op : String} {left right : Expr} :
    (Expr.binary pos op left right).everywhere p q = true ↔
      p (.binary pos op left right) = true ∧ left.everywhere p q = true ∧
        right.everywhere p q = true :=
  Bool.and_eq_true_iff.trans (and_congr_right fun _ => Bool.and_eq_true_iff)

theorem everywhere_unary {op : String} {operand : Expr} :
    (Expr.unary pos op operand).everywhere p q = true ↔
      p (.unary pos op operand) = true ∧ operand.everywhere p q = true :=
  Bool.and_eq_true_iff

theorem everywhere_call {func : Expr} {args : List Expr} :
    (Expr.call pos func args).everywhere p q = true ↔
      p (.call pos func args) = true ∧ func.everywhere p q = true ∧
        everywhereAll p q args = true :=
  Bool.and_eq_true_iff.trans (and_congr_right fun _ => Bool.and_eq_true_iff)

theorem everywhere_index {value index : Expr} :
    (Expr.index pos value index).everywhere p q = true ↔
      p (.index pos value index) = true ∧ value.everywhere p q = true ∧
        index.everywhere p q = true :=
  Bool.and_eq_true_iff.trans (and_congr_right fun _ => Bool.and_eq_true_iff)

theorem everywhere_array {elements : List Expr} :
    (Expr.array pos elements).everywhere p q = true ↔
      p (.array pos elements) = true ∧ everywhereAll p q elements = true :=
  Bool.and_eq_true_iff

theorem everywhere_tuple {entries : List TupleEntry} :
    (Expr.tuple pos entries).everywhere p q = true ↔
      p (.tuple pos entries) = true ∧ TupleEntry.everywhereAll p q entries = true :=
  Bool.and_eq_true_iff

theorem everywhere_function {params : List String} {statements : List Stmt}
    {expression : Option Expr} :
    (Expr.function pos params statements expression).everywhere p q = true ↔
      p (.function pos params statements expression) = true ∧
        Stmt.everywhereAll p q statements = true ∧ everywhereOption p q expression = true :=
  Bool.and_eq_true_iff.trans (and_congr_right fun _ => Bool.and_eq_true_iff)

theorem everywhere_typeCheck {value : Expr} {indicator : String} :
    (Expr.typeCheck pos value indicator).everywhere p q = true ↔
      p (.typeCheck pos value indicator) = true ∧ value.everywhere p q = true :=
  Bool.and_eq_true_iff

theorem everywhere_member {value : Expr} {member : Member} :
    (Expr.member pos value member).everywhere p q = true ↔
      p (.member pos value member) = true ∧ value.everywhere p q = true :=
  Bool.and_eq_true_iff

theorem everywhereAll_cons {e : Expr} {rest : List Expr} :
    everywhereAll p q (e :: rest) = true ↔
      e.everywhere p q = true ∧ everywhereAll p q rest = true :=
  Bool.and_eq_true_iff

end Expr

namespace Stmt

theorem everywhere_declaration {vars : List VarDef} :
    (Stmt.declaration pos vars).everywhere p q = true ↔
      q (.declaration pos vars) = true ∧ VarDef.everywhereAll p q vars = true :=
  Bool.and_eq_true_iff

theorem everywhere_assign {target value : Expr} :
    (Stmt.assign pos target value).everywhere p q = true ↔
      q (.assign pos target value) = true ∧ target.everywhere p q = true ∧
        value.everywhere p q = true :=
  Bool.and_eq_true_iff.trans (and_congr_right fun _ => Bool.and_eq_true_iff)

theorem everywhere_block {body : Block} :
    (Stmt.block body).everywhere p q = true ↔
      q (.block body) = true ∧ everywhereAll p q body.statements = true := by
  obtain ⟨bodyPos, statements⟩ := body
  exact Bool.and_eq_true_iff

theorem everywhere_conditional_none {condition : Expr} {thenBlock : Block} :
    (Stmt.conditional pos condition thenBlock none).everywhere p q = true ↔
      q (.conditional pos condition thenBlock none) = true ∧ condition.everywhere p q = true ∧
        everywhereAll p q thenBlock.statements = true := by
  obtain ⟨thenPos, body⟩ := thenBlock
  exact Bool.and_eq_true_iff.trans (and_congr_right fun _ => Bool.and_eq_true_iff)

theorem everywhere_conditional_some {condition : Expr} {thenBlock elseBlock : Block} :
    (Stmt.conditional pos condition thenBlock (some elseBlock)).everywhere p q = true ↔
      q (.conditional pos condition thenBlock (some elseBlock)) = true ∧
        condition.everywhere p q = true ∧ everywhereAll p q thenBlock.statements = true ∧
          everywhereAll p q elseBlock.statements = true := by
  obtain ⟨thenPos, body⟩ := thenBlock
  obtain ⟨elsePos, other⟩ := elseBlock
  exact Bool.and_eq_true_iff.trans (and_congr_right fun _ =>
    Bool.and_eq_true_iff.trans (and_congr_right fun _ => Bool.and_eq_true_iff))

theorem everywhere_whileLoop {condition : Expr} {body : Block} :
    (Stmt.whileLoop pos condition body).everywhere p q = true ↔
      q (.whileLoop pos condition body) = true ∧ condition.everywhere p q = true ∧
        everywhereAll p q body.statements = true := by
  obtain ⟨bodyPos, statements⟩ := body
  exact Bool.and_eq_true_iff.trans (and_congr_right fun _ => Bool.and_eq_true_iff)

theorem everywhere_forLoop {loopVar : Option String} {body : Block}
    {iterable rangeEnd : Option Expr} :
    (Stmt.forLoop pos loopVar body iterable rangeEnd).everywhere p q = true ↔
      q (.forLoop pos loopVar body iterable rangeEnd) = true ∧
        Expr.everywhereOption p q iterable = true ∧ Expr.everywhereOption p q rangeEnd = true ∧
          everywhereAll p q body.statements = true := by
  obtain ⟨bodyPos, statements⟩ := body
  exact Bool.and_eq_true_iff.trans (and_congr_right fun _ =>
    Bool.and_eq_true_iff.trans (and_congr_right fun _ => Bool.and_eq_true_iff))

theorem everywhere_returnStmt {value : Option Expr} :
    (Stmt.returnStmt pos value).everywhere p q = true ↔
      q (.returnStmt pos value) = true ∧ Expr.everywhereOption p q value = true :=
  Bool.and_eq_true_iff

theorem everywhere_print {values : List Expr} :
    (Stmt.print pos values).everywhere p q = true ↔
      q (.print pos values) = true ∧ Expr.everywhereAll p q values = true :=
  Bool.and_eq_true_iff

theorem everywhere_expr {value : Expr} :
    (Stmt.expr pos value).everywhere p q = true ↔
      q (.expr pos value) = true ∧ value.everywhere p q = true :=
  Bool.and_eq_true_iff

theorem everywhereAll_cons {s : Stmt} {rest : List Stmt} :
    everywhereAll p q (s :: rest) = true ↔
      s.everywhere p q = true ∧ everywhereAll p q rest = true :=
  Bool.and_eq_true_iff

end Stmt

theorem TupleEntry.everywhereAll_cons {name : Option String} {e : Expr} {rest : List TupleEntry} :
    TupleEntry.everywhereAll p q (⟨name, e⟩ :: rest) = true ↔
      e.everywhere p q = true ∧ TupleEntry.everywhereAll p q rest = true :=
  Bool.and_eq_true_iff

theorem VarDef.everywhereAll_cons {name : String} {initializer : Option Expr} {rest : List VarDef} :
    VarDef.everywhereAll p q (⟨name, initializer⟩ :: rest) = true ↔
      Expr.everywhereOption p q initializer = true ∧ VarDef.everywhereAll p q rest = true :=
  Bool.and_eq_true_iff

end Forms

/-! ## Weaker tests -/

section Weaker

variable {p p' : Expr → Bool} {q q' : Stmt → Bool} (hp : ∀ e, p e = true → p' e = true)
  (hq : ∀ s, q s = true → q' s = true)
include hp hq

set_option linter.unusedSectionVars false

mutual

theorem Expr.everywhere_mono : ∀ e : Expr, e.everywhere p q = true → e.everywhere p' q' = true
  | .literal _ _ _, h => hp _ h
  | .reference _ _, h => hp _ h
  | .binary _ _ left right, h => by
    obtain ⟨hnode, hleft, hright⟩ := Expr.everywhere_binary.mp h
    exact Expr.everywhere_binary.mpr
      ⟨hp _ hnode, Expr.everywhere_mono left hleft, Expr.everywhere_mono right hright⟩
  | .unary _ _ operand, h => by
    obtain ⟨hnode, hoperand⟩ := Expr.everywhere_unary.mp h
    exact Expr.everywhere_unary.mpr ⟨hp _ hnode, Expr.everywhere_mono operand hoperand⟩
  | .call _ func args, h => by
    obtain ⟨hnode, hfunc, hargs⟩ := Expr.everywhere_call.mp h
    exact Expr.everywhere_call.mpr
      ⟨hp _ hnode, Expr.everywhere_mono func hfunc, Expr.everywhereAll_mono args hargs⟩
  | .index _ value index, h => by
    obtain ⟨hnode, hvalue, hindex⟩ := Expr.everywhere_index.mp h
    exact Expr.everywhere_index.mpr
      ⟨hp _ hnode, Expr.everywhere_mono value hvalue, Expr.everywhere_mono index hindex⟩
  | .array _ elements, h => by
    obtain ⟨hnode, helements⟩ := Expr.everywhere_array.mp h
    exact Expr.everywhere_array.mpr ⟨hp _ hnode, Expr.everywhereAll_mono elements helements⟩
  | .tuple _ entries, h => by
    obtain ⟨hnode, hentries⟩ := Expr.everywhere_tuple.mp h
    exact Expr.everywhere_tuple.mpr ⟨hp _ hnode, TupleEntry.everywhereAll_mono entries hentries⟩
  | .function _ _ statements expression, h => by
    obtain ⟨hnode, hstatements, hexpression⟩ := Expr.everywhere_function.mp h
    exact Expr.everywhere_function.mpr ⟨hp _ hnode, Stmt.everywhereAll_mono statements hstatements,
      Expr.everywhereOption_mono expression hexpression⟩
  | .typeCheck _ value _, h => by
    obtain ⟨hnode, hvalue⟩ := Expr.everywhere_typeCheck.mp h
    exact Expr.everywhere_typeCheck.mpr ⟨hp _ hnode, Expr.everywhere_mono value hvalue⟩
  | .member _ value _, h => by
    obtain ⟨hnode, hvalue⟩ := Expr.everywhere_member.mp h
    exact Expr.everywhere_member.mpr ⟨hp _ hnode, Expr.everywhere_mono value hvalue⟩

theorem Expr.everywhereAll_mono : ∀ es : List Expr,
    Expr.everywhereAll p q es = true → Expr.everywhereAll p' q' es = true
  | [], _ => rfl
  | e :: rest, h => by
    obtain ⟨he, hrest⟩ := Expr.everywhereAll_cons.mp h
    exact Expr.everywhereAll_cons.mpr
      ⟨Expr.everywhere_mono e he, Expr.everywhereAll_mono rest hrest⟩

theorem Expr.everywhereOption_mono : ∀ e : Option Expr,
    Expr.everywhereOption p q e = true → Expr.everywhereOption p' q' e = true
  | none, _ => rfl
  | some e, h => Expr.everywhere_mono e h

theorem TupleEntry.everywhereAll_mono : ∀ entries : List TupleEntry,
    TupleEntry.everywhereAll p q entries = true → TupleEntry.everywhereAll p' q' entries = true
  | [], _ => rfl
  | ⟨_, e⟩ :: rest, h => by
    obtain ⟨he, hrest⟩ := TupleEntry.everywhereAll_cons.mp h
    exact TupleEntry.everywhereAll_cons.mpr
      ⟨Expr.everywhere_mono e he, TupleEntry.everywhereAll_mono rest hrest⟩

theorem Stmt.everywhere_mono : ∀ s : Stmt, s.everywhere p q = true → s.everywhere p' q' = true
  | .declaration _ vars, h => by
    obtain ⟨hnode, hvars⟩ := Stmt.everywhere_declaration.mp h
    exact Stmt.everywhere_declaration.mpr ⟨hq _ hnode, VarDef.everywhereAll_mono vars hvars⟩
  | .assign _ target value, h => by
    obtain ⟨hnode, htarget, hvalue⟩ := Stmt.everywhere_assign.mp h
    exact Stmt.everywhere_assign.mpr
      ⟨hq _ hnode, Expr.everywhere_mono target htarget, Expr.everywhere_mono value hvalue⟩
  | .block ⟨_, body⟩, h => by
    obtain ⟨hnode, hbody⟩ := Stmt.everywhere_block.mp h
    exact Stmt.everywhere_block.mpr ⟨hq _ hnode, Stmt.everywhereAll_mono body hbody⟩
  | .conditional _ condition ⟨_, body⟩ none, h => by
    obtain ⟨hnode, hcondition, hbody⟩ := Stmt.everywhere_conditional_none.mp h
    exact Stmt.everywhere_conditional_none.mpr
      ⟨hq _ hnode, Expr.everywhere_mono condition hcondition, Stmt.everywhereAll_mono body hbody⟩
  | .conditional _ condition ⟨_, body⟩ (some ⟨_, other⟩), h => by
    obtain ⟨hnode, hcondition, hbody, hother⟩ := Stmt.everywhere_conditional_some.mp h
    exact Stmt.everywhere_conditional_some.mpr
      ⟨hq _ hnode, Expr.everywhere_mono condition hcondition, Stmt.everywhereAll_mono body hbody,
        Stmt.everywhereAll_mono other hother⟩
  | .whileLoop _ condition ⟨_, body⟩, h => by
    obtain ⟨hnode, hcondition, hbody⟩ := Stmt.everywhere_whileLoop.mp h
    exact Stmt.everywhere_whileLoop.mpr
      ⟨hq _ hnode, Expr.everywhere_mono condition hcondition, Stmt.everywhereAll_mono body hbody⟩
  | .forLoop _ _ ⟨_, body⟩ iterable rangeEnd, h => by
    obtain ⟨hnode, hiterable, hrangeEnd, hbody⟩ := Stmt.everywhere_forLoop.mp h
    exact Stmt.everywhere_forLoop.mpr ⟨hq _ hnode, Expr.everywhereOption_mono iterable hiterable,
      Expr.everywhereOption_mono rangeEnd hrangeEnd, Stmt.everywhereAll_mono body hbody⟩
  | .returnStmt _ value, h => by
    obtain ⟨hnode, hvalue⟩ := Stmt.everywhere_returnStmt.mp h
    exact Stmt.everywhere_returnStmt.mpr ⟨hq _ hnode, Expr.everywhereOption_mono value hvalue⟩
  | .exitStmt _, h => hq _ h
  | .continueStmt _, h => hq _ h
  | .print _ values, h => by
    obtain ⟨hnode, hvalues⟩ := Stmt.everywhere_print.mp h
    exact Stmt.everywhere_print.mpr ⟨hq _ hnode, Expr.everywhereAll_mono values hvalues⟩
  | .expr _ value, h => by
    obtain ⟨hnode, hvalue⟩ := Stmt.everywhere_expr.mp h
    exact Stmt.everywhere_expr.mpr ⟨hq _ hnode, Expr.everywhere_mono value hvalue⟩

theorem Stmt.everywhereAll_mono : ∀ ss : List Stmt,
    Stmt.everywhereAll p q ss = true → Stmt.everywhereAll p' q' ss = true
  | [], _ => rfl
  | s :: rest, h => by
    obtain ⟨hs, hrest⟩ := Stmt.everywhereAll_cons.mp h
    exact Stmt.everywhereAll_cons.mpr
      ⟨Stmt.everywhere_mono s hs, Stmt.everywhereAll_mono rest hrest⟩

theorem VarDef.everywhereAll_mono : ∀ vars : List VarDef,
    VarDef.everywhereAll p q vars = true → VarDef.everywhereAll p' q' vars = true
  | [], _ => rfl
  | ⟨_, initializer⟩ :: rest, h => by
    obtain ⟨hinitializer, hrest⟩ := VarDef.everywhereAll_cons.mp h
    exact VarDef.everywhereAll_cons.mpr
      ⟨Expr.everywhereOption_mono initializer hinitializer, VarDef.everywhereAll_mono rest hrest⟩

end

end Weaker

/-! ## Tests that all pass -/

section AllPass

variable {p : Expr → Bool} {q : Stmt → Bool} (hp : ∀ e, p e = true) (hq : ∀ s, q s = true)
include hp hq

set_option linter.unusedSectionVars false

mutual

theorem Expr.everywhere_of_all : ∀ e : Expr, e.everywhere p q = true
  | .literal _ _ _ => hp _
  | .reference _ _ => hp _
  | .binary _ _ left right => by
    simp only [Expr.everywhere, hp, Expr.everywhere_of_all left, Expr.everywhere_of_all right,
      Bool.and_self]
  | .unary _ _ operand => by
    simp only [Expr.everywhere, hp, Expr.everywhere_of_all operand, Bool.and_self]
  | .call _ func args => by
    simp only [Expr.everywhere, hp, Expr.everywhere_of_all func, Expr.everywhereAll_of_all args,
      Bool.and_self]
  | .index _ value index => by
    simp only [Expr.everywhere, hp, Expr.everywhere_of_all value, Expr.everywhere_of_all index,
      Bool.and_self]
  | .array _ elements => by
    simp only [Expr.everywhere, hp, Expr.everywhereAll_of_all elements, Bool.and_self]
  | .tuple _ entries => by
    simp only [Expr.everywhere, hp, TupleEntry.everywhereAll_of_all entries, Bool.and_self]
  | .function _ _ statements expression => by
    simp only [Expr.everywhere, hp, Stmt.everywhereAll_of_all statements,
      Expr.everywhereOption_of_all expression, Bool.and_self]
  | .typeCheck _ value _ => by
    simp only [Expr.everywhere, hp, Expr.everywhere_of_all value, Bool.and_self]
  | .member _ value _ => by
    simp only [Expr.everywhere, hp, Expr.everywhere_of_all value, Bool.and_self]

theorem Expr.everywhereAll_of_all : ∀ es : List Expr, Expr.everywhereAll p q es = true
  | [] => rfl
  | e :: rest => by
    simp only [Expr.everywhereAll, Expr.everywhere_of_all e, Expr.everywhereAll_of_all rest,
      Bool.and_self]

theorem Expr.everywhereOption_of_all : ∀ e : Option Expr, Expr.everywhereOption p q e = true
  | none => rfl
  | some e => Expr.everywhere_of_all e

theorem TupleEntry.everywhereAll_of_all : ∀ entries : List TupleEntry,
    TupleEntry.everywhereAll p q entries = true
  | [] => rfl
  | ⟨_, e⟩ :: rest => by
    simp only [TupleEntry.everywhereAll, Expr.everywhere_of_all e,
      TupleEntry.everywhereAll_of_all rest, Bool.and_self]

theorem Stmt.everywhere_of_all : ∀ s : Stmt, s.everywhere p q = true
  | .declaration _ vars => by
    simp only [Stmt.everywhere, hq, VarDef.everywhereAll_of_all vars, Bool.and_self]
  | .assign _ target value => by
    simp only [Stmt.everywhere, hq, Expr.everywhere_of_all target, Expr.everywhere_of_all value,
      Bool.and_self]
  | .block ⟨_, body⟩ => by
    simp only [Stmt.everywhere, hq, Stmt.everywhereAll_of_all body, Bool.and_self]
  | .conditional _ condition ⟨_, body⟩ none => by
    simp only [Stmt.everywhere, hq, Expr.everywhere_of_all condition,
      Stmt.everywhereAll_of_all body, Bool.and_self]
  | .conditional _ condition ⟨_, body⟩ (some ⟨_, other⟩) => by
    simp only [Stmt.everywhere, hq, Expr.everywhere_of_all condition,
      Stmt.everywhereAll_of_all body, Stmt.everywhereAll_of_all other, Bool.and_self]
  | .whileLoop _ condition ⟨_, body⟩ => by
    simp only [Stmt.everywhere, hq, Expr.everywhere_of_all condition,
      Stmt.everywhereAll_of_all body, Bool.and_self]
  | .forLoop _ _ ⟨_, body⟩ iterable rangeEnd => by
    simp only [Stmt.everywhere, hq, Expr.everywhereOption_of_all iterable,
      Expr.everywhereOption_of_all rangeEnd, Stmt.everywhereAll_of_all body, Bool.and_self]
  | .returnStmt _ value => by
    simp only [Stmt.everywhere, hq, Expr.everywhereOption_of_all value, Bool.and_self]
  | .exitStmt _ => hq _
  | .continueStmt _ => hq _
  | .print _ values => by
    simp only [Stmt.everywhere, hq, Expr.everywhereAll_of_all values, Bool.and_self]
  | .expr _ value => by
    simp only [Stmt.everywhere, hq, Expr.everywhere_of_all value, Bool.and_self]

theorem Stmt.everywhereAll_of_all : ∀ ss : List Stmt, Stmt.everywhereAll p q ss = true
  | [] => rfl
  | s :: rest => by
    simp only [Stmt.everywhereAll, Stmt.everywhere_of_all s, Stmt.everywhereAll_of_all rest,
      Bool.and_self]

theorem VarDef.everywhereAll_of_all : ∀ vars : List VarDef, VarDef.everywhereAll p q vars = true
  | [] => rfl
  | ⟨_, initializer⟩ :: rest => by
    simp only [VarDef.everywhereAll, Expr.everywhereOption_of_all initializer,
      VarDef.everywhereAll_of_all rest, Bool.and_self]

end

end AllPass

end Dee
