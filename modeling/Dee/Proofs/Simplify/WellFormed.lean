import Dee.Proofs.Program.WellFormed
import Dee.Proofs.Simplify.Result

/-!
# Simplification keeps programs well-formed

Every rule of the simplification gives well-formed code back: a folded operator is a literal of the
right kind, a target stays a target, a loop keeps its shape, and a declaration that would become
empty is dropped whole.
-/

namespace Dee

variable (used : List String)

/-- Whether well-formed parts make up a list. -/
abbrev Expr.AllWellFormed (es : List Expr) : Prop :=
  Expr.everywhereAll Expr.isWellFormed Stmt.isWellFormed es = true

abbrev Stmt.AllWellFormed (ss : List Stmt) : Prop :=
  Stmt.everywhereAll Expr.isWellFormed Stmt.isWellFormed ss = true

/-! ## Single rules -/

theorem Expr.wellFormed_ofScalar (pos : Pos) (v : Scalar) : (Expr.ofScalar pos v).WellFormed := by
  simp [Expr.ofScalar, Expr.WellFormed, Expr.everywhere, Expr.isWellFormed]

theorem wellFormed_foldBinary {pos : Pos} {op : String} {left right : Expr}
    (h : (Expr.binary pos op left right).WellFormed) :
    (foldBinary pos op left right).result.WellFormed := by
  unfold foldBinary
  split
  · split
    · exact Expr.wellFormed_ofScalar pos _
    · exact h
  · exact h

theorem wellFormed_foldUnary {pos : Pos} {op : String} {operand : Expr}
    (h : (Expr.unary pos op operand).WellFormed) :
    (foldUnary pos op operand).result.WellFormed := by
  unfold foldUnary
  split
  · split
    · exact Expr.wellFormed_ofScalar pos _
    · exact h
  · exact h

theorem isTarget_simplify {target : Expr} (h : Grammar.isTarget target = true) :
    Grammar.isTarget (target.simplify used).result = true := by
  cases target <;> simp [Grammar.isTarget] at h <;> rfl

/-- The names of the entries of a tuple stay as they are. -/
theorem names_simplifyAll_entry (entries : List TupleEntry) :
    (TupleEntry.simplifyAll used entries).result.map TupleEntry.name =
      entries.map TupleEntry.name := by
  induction entries with
  | nil => rfl
  | cons entry rest ih =>
    obtain ⟨name, e⟩ := entry
    rw [simplifyAll_entry_cons, List.map_cons, List.map_cons, ih]

theorem isEmpty_simplifyAll_expr (es : List Expr) :
    (Expr.simplifyAll used es).result.isEmpty = es.isEmpty := by
  cases es <;> rfl

/-- The variables that a declaration keeps have names that it had. -/
theorem all_name_simplifyAll_var {p : String → Bool} (pos : Pos) {vars : List VarDef}
    (h : vars.all (fun v => p v.name) = true) :
    (VarDef.simplifyAll used pos vars).result.all (fun v => p v.name) = true := by
  induction vars with
  | nil => rfl
  | cons v rest ih =>
    obtain ⟨name, initializer⟩ := v
    rw [List.all_cons, Bool.and_eq_true] at h
    rw [simplifyAll_var_cons]
    split
    · exact ih h.2
    · rw [List.all_cons, Bool.and_eq_true]
      exact ⟨h.1, ih h.2⟩

/-! ## The walk -/

mutual

theorem Expr.wellFormed_simplify : ∀ e : Expr, e.WellFormed →
    (e.simplify used).result.WellFormed
  | .literal _ _ _, h => h
  | .reference _ _, h => h
  | .binary pos op left right, h => by
    obtain ⟨hnode, hleft, hright⟩ := Expr.everywhere_binary.mp h
    rw [simplify_binary]
    refine wellFormed_foldBinary ?_
    exact Expr.everywhere_binary.mpr
      ⟨hnode, Expr.wellFormed_simplify left hleft, Expr.wellFormed_simplify right hright⟩
  | .unary pos op operand, h => by
    obtain ⟨hnode, hoperand⟩ := Expr.everywhere_unary.mp h
    rw [simplify_unary]
    refine wellFormed_foldUnary ?_
    exact Expr.everywhere_unary.mpr ⟨hnode, Expr.wellFormed_simplify operand hoperand⟩
  | .call pos func args, h => by
    obtain ⟨-, hfunc, hargs⟩ := Expr.everywhere_call.mp h
    rw [simplify_call]
    exact Expr.everywhere_call.mpr
      ⟨rfl, Expr.wellFormed_simplify func hfunc, Expr.allWellFormed_simplify args hargs⟩
  | .index pos value index, h => by
    obtain ⟨-, hvalue, hindex⟩ := Expr.everywhere_index.mp h
    rw [simplify_index]
    exact Expr.everywhere_index.mpr
      ⟨rfl, Expr.wellFormed_simplify value hvalue, Expr.wellFormed_simplify index hindex⟩
  | .array pos elements, h => by
    obtain ⟨-, helements⟩ := Expr.everywhere_array.mp h
    rw [simplify_array]
    exact Expr.everywhere_array.mpr ⟨rfl, Expr.allWellFormed_simplify elements helements⟩
  | .tuple pos entries, h => by
    obtain ⟨hnode, hentries⟩ := Expr.everywhere_tuple.mp h
    rw [simplify_tuple]
    refine Expr.everywhere_tuple.mpr ⟨?_, TupleEntry.allWellFormed_simplify entries hentries⟩
    have hnames : ∀ es : List TupleEntry, (Expr.tuple pos es).isWellFormed =
        (es.map TupleEntry.name).all fun name => name.all isIdentifier := by
      intro es
      rw [Expr.isWellFormed, List.all_map]
      rfl
    rw [hnames, names_simplifyAll_entry, ← hnames]
    exact hnode
  | .function pos params statements (some e), h => by
    obtain ⟨hnode, hstatements, he⟩ := Expr.everywhere_function.mp h
    rw [simplify_function_some]
    exact Expr.everywhere_function.mpr ⟨hnode, hstatements, Expr.wellFormed_simplify e he⟩
  | .function pos params statements none, h => by
    obtain ⟨hparams, hstatements, -⟩ := Expr.everywhere_function.mp h
    rw [simplify_function_none]
    refine Expr.everywhere_function.mpr ⟨?_, Stmt.allWellFormed_kept statements hstatements, rfl⟩
    rw [Expr.isWellFormed, Bool.and_eq_true] at hparams ⊢
    exact ⟨hparams.1, by simp⟩
  | .typeCheck pos value indicator, h => by
    obtain ⟨hnode, hvalue⟩ := Expr.everywhere_typeCheck.mp h
    rw [simplify_typeCheck]
    exact Expr.everywhere_typeCheck.mpr ⟨hnode, Expr.wellFormed_simplify value hvalue⟩
  | .member pos value member, h => by
    obtain ⟨hnode, hvalue⟩ := Expr.everywhere_member.mp h
    rw [simplify_member]
    exact Expr.everywhere_member.mpr ⟨hnode, Expr.wellFormed_simplify value hvalue⟩

theorem Expr.allWellFormed_simplify : ∀ es : List Expr, Expr.AllWellFormed es →
    Expr.AllWellFormed (Expr.simplifyAll used es).result
  | [], _ => rfl
  | e :: rest, h => by
    obtain ⟨he, hrest⟩ := Expr.everywhereAll_cons.mp h
    rw [simplifyAll_expr_cons]
    exact Expr.everywhereAll_cons.mpr
      ⟨Expr.wellFormed_simplify e he, Expr.allWellFormed_simplify rest hrest⟩

theorem Expr.optionWellFormed_simplify : ∀ e : Option Expr,
    Expr.everywhereOption Expr.isWellFormed Stmt.isWellFormed e = true →
    Expr.everywhereOption Expr.isWellFormed Stmt.isWellFormed
      (Expr.simplifyOption used e).result = true
  | none, _ => rfl
  | some e, h => Expr.wellFormed_simplify e h

theorem TupleEntry.allWellFormed_simplify : ∀ entries : List TupleEntry,
    TupleEntry.everywhereAll Expr.isWellFormed Stmt.isWellFormed entries = true →
    TupleEntry.everywhereAll Expr.isWellFormed Stmt.isWellFormed
      (TupleEntry.simplifyAll used entries).result = true
  | [], _ => rfl
  | ⟨name, e⟩ :: rest, h => by
    obtain ⟨he, hrest⟩ := TupleEntry.everywhereAll_cons.mp h
    rw [simplifyAll_entry_cons]
    exact TupleEntry.everywhereAll_cons.mpr
      ⟨Expr.wellFormed_simplify e he, TupleEntry.allWellFormed_simplify rest hrest⟩

theorem Stmt.wellFormed_simplify : ∀ s s' : Stmt, s.WellFormed →
    (s.simplify used).result = some s' → s'.WellFormed
  | .declaration pos vars, s', h, hs => by
    obtain ⟨hnames, hvars⟩ := Stmt.everywhere_declaration.mp h
    rw [simplify_declaration] at hs
    split at hs
    · cases hs
    next hne =>
      cases hs
      refine Stmt.everywhere_declaration.mpr ⟨?_, VarDef.allWellFormed_simplify pos vars hvars⟩
      rw [Stmt.isWellFormed, Bool.and_eq_true] at hnames ⊢
      exact ⟨by simpa using hne, all_name_simplifyAll_var used pos hnames.2⟩
  | .assign pos target value, s', h, hs => by
    obtain ⟨hnode, htarget, hvalue⟩ := Stmt.everywhere_assign.mp h
    rw [simplify_assign] at hs
    cases hs
    exact Stmt.everywhere_assign.mpr
      ⟨isTarget_simplify used hnode, Expr.wellFormed_simplify target htarget,
        Expr.wellFormed_simplify value hvalue⟩
  | .block ⟨pos, body⟩, s', h, hs => by
    obtain ⟨-, hbody⟩ := Stmt.everywhere_block.mp h
    rw [simplify_block] at hs
    cases hs
    exact Stmt.everywhere_block.mpr ⟨rfl, Stmt.allWellFormed_kept body hbody⟩
  | .conditional pos condition ⟨thenPos, body⟩ none, s', h, hs => by
    obtain ⟨-, hcondition, hbody⟩ := Stmt.everywhere_conditional_none.mp h
    have hkept := Stmt.allWellFormed_kept body hbody
    rw [simplify_conditional_none] at hs
    split at hs <;> cases hs
    · exact Stmt.everywhere_block.mpr ⟨rfl, hkept⟩
    · exact Stmt.everywhere_block.mpr ⟨rfl, rfl⟩
    · exact Stmt.everywhere_conditional_none.mpr
        ⟨rfl, Expr.wellFormed_simplify condition hcondition, hkept⟩
  | .conditional pos condition ⟨thenPos, body⟩ (some ⟨elsePos, other⟩), s', h, hs => by
    obtain ⟨-, hcondition, hbody, hother⟩ := Stmt.everywhere_conditional_some.mp h
    have hkept := Stmt.allWellFormed_kept body hbody
    have hkept' := Stmt.allWellFormed_kept other hother
    rw [simplify_conditional_some] at hs
    split at hs <;> cases hs
    · exact Stmt.everywhere_block.mpr ⟨rfl, hkept⟩
    · exact Stmt.everywhere_block.mpr ⟨rfl, hkept'⟩
    · exact Stmt.everywhere_conditional_some.mpr
        ⟨rfl, Expr.wellFormed_simplify condition hcondition, hkept, hkept'⟩
  | .whileLoop pos condition ⟨bodyPos, body⟩, s', h, hs => by
    obtain ⟨-, hcondition, hbody⟩ := Stmt.everywhere_whileLoop.mp h
    rw [simplify_whileLoop] at hs
    cases hs
    exact Stmt.everywhere_whileLoop.mpr
      ⟨rfl, Expr.wellFormed_simplify condition hcondition, Stmt.allWellFormed_kept body hbody⟩
  | .forLoop pos loopVar ⟨bodyPos, body⟩ iterable rangeEnd, s', h, hs => by
    obtain ⟨hshape, hiterable, hrangeEnd, hbody⟩ := Stmt.everywhere_forLoop.mp h
    rw [simplify_forLoop] at hs
    cases hs
    refine Stmt.everywhere_forLoop.mpr ⟨?_, Expr.optionWellFormed_simplify iterable hiterable,
      Expr.optionWellFormed_simplify rangeEnd hrangeEnd, Stmt.allWellFormed_kept body hbody⟩
    cases iterable <;> cases rangeEnd <;> exact hshape
  | .returnStmt pos value, s', h, hs => by
    obtain ⟨-, hvalue⟩ := Stmt.everywhere_returnStmt.mp h
    rw [simplify_returnStmt] at hs
    cases hs
    exact Stmt.everywhere_returnStmt.mpr ⟨rfl, Expr.optionWellFormed_simplify value hvalue⟩
  | .exitStmt pos, s', h, hs => by
    rw [simplify_exitStmt] at hs
    cases hs
    exact h
  | .continueStmt pos, s', h, hs => by
    rw [simplify_continueStmt] at hs
    cases hs
    exact h
  | .print pos values, s', h, hs => by
    obtain ⟨hnode, hvalues⟩ := Stmt.everywhere_print.mp h
    rw [simplify_print] at hs
    cases hs
    refine Stmt.everywhere_print.mpr ⟨?_, Expr.allWellFormed_simplify values hvalues⟩
    rw [Stmt.isWellFormed, isEmpty_simplifyAll_expr]
    exact hnode
  | .expr pos value, s', h, hs => by
    obtain ⟨-, hvalue⟩ := Stmt.everywhere_expr.mp h
    rw [simplify_expr] at hs
    cases hs
    exact Stmt.everywhere_expr.mpr ⟨rfl, Expr.wellFormed_simplify value hvalue⟩

theorem Stmt.allWellFormed_kept : ∀ ss : List Stmt, Stmt.AllWellFormed ss →
    Stmt.AllWellFormed (keptStatements used ss)
  | [], _ => rfl
  | s :: rest, h => by
    obtain ⟨hs, hrest⟩ := Stmt.everywhereAll_cons.mp h
    have hkept := Stmt.allWellFormed_kept rest hrest
    rw [keptStatements, simplifyAll_stmt_cons]
    split
    · exact hkept
    next s' hs' =>
      have hfirst := Stmt.wellFormed_simplify s s' hs hs'
      split
      · exact Stmt.everywhereAll_cons.mpr ⟨hfirst, rfl⟩
      · exact Stmt.everywhereAll_cons.mpr ⟨hfirst, hkept⟩

theorem VarDef.allWellFormed_simplify (pos : Pos) : ∀ vars : List VarDef,
    VarDef.everywhereAll Expr.isWellFormed Stmt.isWellFormed vars = true →
    VarDef.everywhereAll Expr.isWellFormed Stmt.isWellFormed
      (VarDef.simplifyAll used pos vars).result = true
  | [], _ => rfl
  | ⟨name, initializer⟩ :: rest, h => by
    obtain ⟨hinitializer, hrest⟩ := VarDef.everywhereAll_cons.mp h
    have hkept := VarDef.allWellFormed_simplify pos rest hrest
    rw [simplifyAll_var_cons]
    split
    · exact hkept
    · exact VarDef.everywhereAll_cons.mpr
        ⟨Expr.optionWellFormed_simplify initializer hinitializer, hkept⟩

end

theorem Program.wellFormed_simplify {p : Program} (h : p.WellFormed) :
    p.simplify.result.WellFormed := by
  rw [Program.simplify_result]
  exact Stmt.allWellFormed_kept p.references p.statements h

end Dee
