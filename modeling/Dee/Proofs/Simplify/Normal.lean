import Dee.Proofs.Simplify.WellFormed

/-!
# Normal programs

A program is normal if none of the first three rules of simplification applies anywhere in it:
operators on literals fail, no condition is a boolean literal, and nothing stands behind a return.
Each test looks at one node, and at the lists of statements right below it.

Main statement: `Program.normal_simplify`. What simplification gives is normal.
-/

namespace Dee

/-! ## Normal programs -/

/-- Whether a binary operator stands between literals that it can be applied to. -/
def foldsBinary (op : String) : Expr → Expr → Bool
  | .literal _ a _, .literal _ b _ => (Scalar.binary op a b).isOk
  | _, _ => false

/-- Whether a unary operator stands before a literal that it can be applied to. -/
def foldsUnary (op : String) : Expr → Bool
  | .literal _ a _ => (Scalar.unary op a).isOk
  | _ => false

/-- Whether only the last of some statements may be a return. -/
def Stmt.returnsLast (ss : List Stmt) : Bool :=
  ss.dropLast.all fun s => !s.isReturn

/-- Whether no rule but the removal of variables applies to an expression, its parts aside. -/
def Expr.isNormal : Expr → Bool
  | .binary _ op left right => !foldsBinary op left right
  | .unary _ op operand => !foldsUnary op operand
  | .function _ _ statements _ => Stmt.returnsLast statements
  | _ => true

/-- Whether no rule but the removal of variables applies to a statement, its parts aside. -/
def Stmt.isNormal : Stmt → Bool
  | .block body => Stmt.returnsLast body.statements
  | .conditional _ condition thenBlock none =>
    (constantCondition? condition).isNone && Stmt.returnsLast thenBlock.statements
  | .conditional _ condition thenBlock (some elseBlock) =>
    (constantCondition? condition).isNone &&
      (Stmt.returnsLast thenBlock.statements && Stmt.returnsLast elseBlock.statements)
  | .whileLoop _ _ body => Stmt.returnsLast body.statements
  | .forLoop _ _ body _ _ => Stmt.returnsLast body.statements
  | _ => true

/-- Every node of an expression is normal. -/
abbrev Expr.Normal (e : Expr) : Prop := e.everywhere Expr.isNormal Stmt.isNormal = true

/-- Every node of a statement is normal. -/
abbrev Stmt.Normal (s : Stmt) : Prop := s.everywhere Expr.isNormal Stmt.isNormal = true

/-- Every node of some statements is normal. -/
abbrev Stmt.AllNormal (ss : List Stmt) : Prop :=
  Stmt.everywhereAll Expr.isNormal Stmt.isNormal ss = true

/-- No rule but the removal of variables applies to a program. -/
structure Program.Normal (p : Program) : Prop where
  returnsLast : Stmt.returnsLast p.statements = true
  everywhere : Stmt.AllNormal p.statements

theorem Stmt.returnsLast_cons {s : Stmt} {rest : List Stmt} :
    Stmt.returnsLast (s :: rest) = true ↔
      (s.isReturn = true → rest = []) ∧ Stmt.returnsLast rest = true := by
  cases rest with
  | nil => simp [Stmt.returnsLast]
  | cons t rest => simp [Stmt.returnsLast, List.dropLast_cons_of_ne_nil]

/-! ## Folding -/

/-- An operator that cannot be applied stays, without a note. -/
theorem foldBinary_eq {op : String} {left right : Expr} (h : foldsBinary op left right = false)
    (pos : Pos) : foldBinary pos op left right = pure (.binary pos op left right) := by
  unfold foldBinary
  split
  next =>
    split
    next hx =>
      rw [foldsBinary, hx] at h
      cases h
    next => rfl
  next => rfl

theorem foldUnary_eq {op : String} {operand : Expr} (h : foldsUnary op operand = false)
    (pos : Pos) :
    foldUnary pos op operand = pure (.unary pos op operand) := by
  unfold foldUnary
  split
  next =>
    split
    next hx =>
      rw [foldsUnary, hx] at h
      cases h
    next => rfl
  next => rfl

/-- An operator that can be applied gives a literal. -/
theorem foldBinary_of_folds {op : String} {left right : Expr} (h : foldsBinary op left right = true)
    (pos : Pos) : ∃ v, (foldBinary pos op left right).result = .ofScalar pos v := by
  unfold foldsBinary at h
  split at h
  next a _ _ b _ =>
    cases hx : Scalar.binary op a b with
    | ok v =>
      refine ⟨v, ?_⟩
      simp only [foldBinary, hx]
      rfl
    | error cause =>
      rw [hx] at h
      cases h
  next => cases h

theorem foldUnary_of_folds {op : String} {operand : Expr}
    (h : foldsUnary op operand = true) (pos : Pos) :
    ∃ v, (foldUnary pos op operand).result = .ofScalar pos v := by
  unfold foldsUnary at h
  split at h
  next a _ =>
    cases hx : Scalar.unary op a with
    | ok v =>
      refine ⟨v, ?_⟩
      simp only [foldUnary, hx]
      rfl
    | error cause =>
      rw [hx] at h
      cases h
  next => cases h

theorem normal_foldBinary {left right : Expr} (hleft : left.Normal)
    (hright : right.Normal) (pos : Pos)
    (op : String) : (foldBinary pos op left right).result.Normal := by
  by_cases h : foldsBinary op left right = true
  · obtain ⟨v, hv⟩ := foldBinary_of_folds h pos
    rw [hv]
    rfl
  · rw [Bool.not_eq_true] at h
    rw [foldBinary_eq h, Noted.result_pure]
    refine Expr.everywhere_binary.mpr ⟨?_, hleft, hright⟩
    rw [Expr.isNormal, h]
    rfl

theorem normal_foldUnary {operand : Expr} (hoperand : operand.Normal) (pos : Pos) (op : String) :
    (foldUnary pos op operand).result.Normal := by
  by_cases h : foldsUnary op operand = true
  · obtain ⟨v, hv⟩ := foldUnary_of_folds h pos
    rw [hv]
    rfl
  · rw [Bool.not_eq_true] at h
    rw [foldUnary_eq h, Noted.result_pure]
    refine Expr.everywhere_unary.mpr ⟨?_, hoperand⟩
    rw [Expr.isNormal, h]
    rfl

/-! ## Simplification gives normal code -/

variable (used : List String)

/-- What stands behind a return is dropped. -/
theorem returnsLast_kept (ss : List Stmt) : Stmt.returnsLast (keptStatements used ss) = true := by
  induction ss with
  | nil => rfl
  | cons s rest ih =>
    rw [keptStatements, simplifyAll_stmt_cons]
    cases (s.simplify used).result with
    | none => exact ih
    | some s' =>
      dsimp only
      split
      next => rfl
      next hreturn => exact Stmt.returnsLast_cons.mpr ⟨fun h => absurd h hreturn, ih⟩

mutual

theorem Expr.normal_simplify : ∀ e : Expr, e.WellFormed → (e.simplify used).result.Normal
  | .literal _ _ _, _ => rfl
  | .reference _ _, _ => rfl
  | .binary pos op left right, h => by
    obtain ⟨-, hleft, hright⟩ := Expr.everywhere_binary.mp h
    exact normal_foldBinary (Expr.normal_simplify left hleft)
      (Expr.normal_simplify right hright) pos op
  | .unary pos op operand, h => by
    obtain ⟨-, hoperand⟩ := Expr.everywhere_unary.mp h
    exact normal_foldUnary (Expr.normal_simplify operand hoperand) pos op
  | .call _ func args, h => by
    obtain ⟨-, hfunc, hargs⟩ := Expr.everywhere_call.mp h
    rw [simplify_call]
    exact Expr.everywhere_call.mpr
      ⟨rfl, Expr.normal_simplify func hfunc, Expr.allNormal_simplify args hargs⟩
  | .index _ value index, h => by
    obtain ⟨-, hvalue, hindex⟩ := Expr.everywhere_index.mp h
    rw [simplify_index]
    exact Expr.everywhere_index.mpr
      ⟨rfl, Expr.normal_simplify value hvalue, Expr.normal_simplify index hindex⟩
  | .array _ elements, h => by
    obtain ⟨-, helements⟩ := Expr.everywhere_array.mp h
    rw [simplify_array]
    exact Expr.everywhere_array.mpr ⟨rfl, Expr.allNormal_simplify elements helements⟩
  | .tuple _ entries, h => by
    obtain ⟨-, hentries⟩ := Expr.everywhere_tuple.mp h
    rw [simplify_tuple]
    exact Expr.everywhere_tuple.mpr ⟨rfl, TupleEntry.allNormal_simplify entries hentries⟩
  | .function _ params statements (some e), h => by
    obtain ⟨hnode, -, he⟩ := Expr.everywhere_function.mp h
    -- The walk does not enter these statements, but there are none.
    obtain rfl := Expr.statements_eq_nil hnode
    rw [simplify_function_some]
    exact Expr.everywhere_function.mpr ⟨rfl, rfl, Expr.normal_simplify e he⟩
  | .function _ params statements none, h => by
    obtain ⟨-, hstatements, -⟩ := Expr.everywhere_function.mp h
    rw [simplify_function_none]
    exact Expr.everywhere_function.mpr
      ⟨returnsLast_kept used statements, Stmt.allNormal_kept statements hstatements, rfl⟩
  | .typeCheck _ value _, h => by
    obtain ⟨-, hvalue⟩ := Expr.everywhere_typeCheck.mp h
    rw [simplify_typeCheck]
    exact Expr.everywhere_typeCheck.mpr ⟨rfl, Expr.normal_simplify value hvalue⟩
  | .member _ value _, h => by
    obtain ⟨-, hvalue⟩ := Expr.everywhere_member.mp h
    rw [simplify_member]
    exact Expr.everywhere_member.mpr ⟨rfl, Expr.normal_simplify value hvalue⟩

theorem Expr.allNormal_simplify : ∀ es : List Expr, Expr.AllWellFormed es →
    Expr.everywhereAll Expr.isNormal Stmt.isNormal (Expr.simplifyAll used es).result = true
  | [], _ => rfl
  | e :: rest, h => by
    obtain ⟨he, hrest⟩ := Expr.everywhereAll_cons.mp h
    rw [simplifyAll_expr_cons]
    exact Expr.everywhereAll_cons.mpr
      ⟨Expr.normal_simplify e he, Expr.allNormal_simplify rest hrest⟩

theorem Expr.optionNormal_simplify : ∀ e : Option Expr,
    Expr.everywhereOption Expr.isWellFormed Stmt.isWellFormed e = true →
    Expr.everywhereOption Expr.isNormal Stmt.isNormal (Expr.simplifyOption used e).result = true
  | none, _ => rfl
  | some e, h => Expr.normal_simplify e h

theorem TupleEntry.allNormal_simplify : ∀ entries : List TupleEntry,
    TupleEntry.everywhereAll Expr.isWellFormed Stmt.isWellFormed entries = true →
    TupleEntry.everywhereAll Expr.isNormal Stmt.isNormal
      (TupleEntry.simplifyAll used entries).result = true
  | [], _ => rfl
  | ⟨name, e⟩ :: rest, h => by
    obtain ⟨he, hrest⟩ := TupleEntry.everywhereAll_cons.mp h
    rw [simplifyAll_entry_cons]
    exact TupleEntry.everywhereAll_cons.mpr
      ⟨Expr.normal_simplify e he, TupleEntry.allNormal_simplify rest hrest⟩

theorem Stmt.normal_simplify : ∀ s s' : Stmt, s.WellFormed →
    (s.simplify used).result = some s' → s'.Normal
  | .declaration pos vars, s', h, hs => by
    obtain ⟨-, hvars⟩ := Stmt.everywhere_declaration.mp h
    rw [simplify_declaration] at hs
    split at hs
    · cases hs
    · cases hs
      exact Stmt.everywhere_declaration.mpr ⟨rfl, VarDef.allNormal_simplify pos vars hvars⟩
  | .assign _ target value, s', h, hs => by
    obtain ⟨-, htarget, hvalue⟩ := Stmt.everywhere_assign.mp h
    rw [simplify_assign] at hs
    cases hs
    exact Stmt.everywhere_assign.mpr
      ⟨rfl, Expr.normal_simplify target htarget, Expr.normal_simplify value hvalue⟩
  | .block ⟨_, body⟩, s', h, hs => by
    obtain ⟨-, hbody⟩ := Stmt.everywhere_block.mp h
    rw [simplify_block] at hs
    cases hs
    exact Stmt.everywhere_block.mpr ⟨returnsLast_kept used body, Stmt.allNormal_kept body hbody⟩
  | .conditional _ condition ⟨_, body⟩ none, s', h, hs => by
    obtain ⟨-, hcondition, hbody⟩ := Stmt.everywhere_conditional_none.mp h
    have hkept := Stmt.allNormal_kept body hbody
    have hlast := returnsLast_kept used body
    rw [simplify_conditional_none] at hs
    -- A condition that became constant is gone with its conditional.
    split at hs <;> cases hs
    · exact Stmt.everywhere_block.mpr ⟨hlast, hkept⟩
    · exact Stmt.everywhere_block.mpr ⟨rfl, rfl⟩
    next hconstant =>
      refine Stmt.everywhere_conditional_none.mpr
        ⟨?_, Expr.normal_simplify condition hcondition, hkept⟩
      rw [Stmt.isNormal, hconstant, Bool.and_eq_true]
      exact ⟨rfl, hlast⟩
  | .conditional _ condition ⟨_, body⟩ (some ⟨_, other⟩), s', h, hs => by
    obtain ⟨-, hcondition, hbody, hother⟩ := Stmt.everywhere_conditional_some.mp h
    have hkept := Stmt.allNormal_kept body hbody
    have hkept' := Stmt.allNormal_kept other hother
    have hlast := returnsLast_kept used body
    have hlast' := returnsLast_kept used other
    rw [simplify_conditional_some] at hs
    split at hs <;> cases hs
    · exact Stmt.everywhere_block.mpr ⟨hlast, hkept⟩
    · exact Stmt.everywhere_block.mpr ⟨hlast', hkept'⟩
    next hconstant =>
      refine Stmt.everywhere_conditional_some.mpr
        ⟨?_, Expr.normal_simplify condition hcondition, hkept, hkept'⟩
      rw [Stmt.isNormal, hconstant, Bool.and_eq_true, Bool.and_eq_true]
      exact ⟨rfl, hlast, hlast'⟩
  | .whileLoop _ condition ⟨_, body⟩, s', h, hs => by
    obtain ⟨-, hcondition, hbody⟩ := Stmt.everywhere_whileLoop.mp h
    rw [simplify_whileLoop] at hs
    cases hs
    exact Stmt.everywhere_whileLoop.mpr
      ⟨returnsLast_kept used body, Expr.normal_simplify condition hcondition,
        Stmt.allNormal_kept body hbody⟩
  | .forLoop _ _ ⟨_, body⟩ iterable rangeEnd, s', h, hs => by
    obtain ⟨-, hiterable, hrangeEnd, hbody⟩ := Stmt.everywhere_forLoop.mp h
    rw [simplify_forLoop] at hs
    cases hs
    exact Stmt.everywhere_forLoop.mpr
      ⟨returnsLast_kept used body, Expr.optionNormal_simplify iterable hiterable,
        Expr.optionNormal_simplify rangeEnd hrangeEnd, Stmt.allNormal_kept body hbody⟩
  | .returnStmt _ value, s', h, hs => by
    obtain ⟨-, hvalue⟩ := Stmt.everywhere_returnStmt.mp h
    rw [simplify_returnStmt] at hs
    cases hs
    exact Stmt.everywhere_returnStmt.mpr ⟨rfl, Expr.optionNormal_simplify value hvalue⟩
  | .exitStmt _, s', _, hs => by
    rw [simplify_exitStmt] at hs
    cases hs
    rfl
  | .continueStmt _, s', _, hs => by
    rw [simplify_continueStmt] at hs
    cases hs
    rfl
  | .print _ values, s', h, hs => by
    obtain ⟨-, hvalues⟩ := Stmt.everywhere_print.mp h
    rw [simplify_print] at hs
    cases hs
    exact Stmt.everywhere_print.mpr ⟨rfl, Expr.allNormal_simplify values hvalues⟩
  | .expr _ value, s', h, hs => by
    obtain ⟨-, hvalue⟩ := Stmt.everywhere_expr.mp h
    rw [simplify_expr] at hs
    cases hs
    exact Stmt.everywhere_expr.mpr ⟨rfl, Expr.normal_simplify value hvalue⟩

theorem Stmt.allNormal_kept : ∀ ss : List Stmt, Stmt.AllWellFormed ss →
    Stmt.AllNormal (keptStatements used ss)
  | [], _ => rfl
  | s :: rest, h => by
    obtain ⟨hs, hrest⟩ := Stmt.everywhereAll_cons.mp h
    have hkept := Stmt.allNormal_kept rest hrest
    rw [keptStatements, simplifyAll_stmt_cons]
    split
    · exact hkept
    next s' hs' =>
      have hfirst := Stmt.normal_simplify s s' hs hs'
      split
      · exact Stmt.everywhereAll_cons.mpr ⟨hfirst, rfl⟩
      · exact Stmt.everywhereAll_cons.mpr ⟨hfirst, hkept⟩

theorem VarDef.allNormal_simplify (pos : Pos) : ∀ vars : List VarDef,
    VarDef.everywhereAll Expr.isWellFormed Stmt.isWellFormed vars = true →
    VarDef.everywhereAll Expr.isNormal Stmt.isNormal
      (VarDef.simplifyAll used pos vars).result = true
  | [], _ => rfl
  | ⟨name, initializer⟩ :: rest, h => by
    obtain ⟨hinitializer, hrest⟩ := VarDef.everywhereAll_cons.mp h
    have hkept := VarDef.allNormal_simplify pos rest hrest
    rw [simplifyAll_var_cons]
    split
    · exact hkept
    · exact VarDef.everywhereAll_cons.mpr
        ⟨Expr.optionNormal_simplify initializer hinitializer, hkept⟩

end

theorem Program.normal_simplify {p : Program} (h : p.WellFormed) : p.simplify.result.Normal := by
  rw [Program.simplify_result]
  exact ⟨returnsLast_kept p.references p.statements,
    Stmt.allNormal_kept p.references p.statements h⟩

end Dee
