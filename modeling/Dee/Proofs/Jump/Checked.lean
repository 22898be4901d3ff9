import Dee.Proofs.Eval.Trace
import Dee.Proofs.Jump.Escape
import Dee.Proofs.Simplify.Result
import Dee.Scope

/-!
# Jumps in checked programs

Scope analysis accepts a jump only where something around it catches it, and simplification brings
no jump to a place where there was none. So no statement of a checked program, simplified or not,
lets a jump out at the top.
-/

namespace Dee

/-! ## Jumps and scopes -/

namespace Scope

/-- Whether a jump may stand at a point of a program. -/
def allows (s : Scope) : Jump → Bool
  | .leaveFunction => s.inFunction
  | .exitLoop => s.inLoop
  | .nextTurn => s.inLoop

theorem allows_declare (s : Scope) (name : String) (j : Jump) :
    (s.declare name).allows j = s.allows j := by
  unfold declare
  split <;> cases j <;> rfl

theorem allows_declareAll (s : Scope) (names : List String) (j : Jump) :
    (s.declareAll names).allows j = s.allows j := by
  unfold declareAll
  induction names generalizing s with
  | nil => rfl
  | cons name rest ih => rw [List.foldl_cons, ih, allows_declare]

theorem allows_enter (s : Scope) (j : Jump) : s.enter.allows j = s.allows j := by
  cases j <;> rfl

theorem allows_return_enterLoop (s : Scope) :
    s.enterLoop.allows .leaveFunction = s.allows .leaveFunction := rfl

end Scope

mutual

/-- A jump that escapes a checked statement may stand where the statement stands. -/
theorem Stmt.allows_of_check (j : Jump) : ∀ (st : Stmt) (s : Scope), st.check s = [] →
    st.escapes j = true → s.allows j = true
  | .block ⟨_, body⟩, s, hc, he => by
    rw [Stmt.check] at hc
    rw [Stmt.escapes] at he
    rw [← Scope.allows_enter]
    exact Stmt.allows_of_checkAll j body s.enter hc he
  | .conditional _ condition ⟨_, body⟩ none, s, hc, he => by
    rw [Stmt.check, List.append_eq_nil_iff] at hc
    rw [Stmt.escapes] at he
    rw [← Scope.allows_enter]
    exact Stmt.allows_of_checkAll j body s.enter hc.2 he
  | .conditional _ condition ⟨_, body⟩ (some ⟨_, other⟩), s, hc, he => by
    rw [Stmt.check, List.append_eq_nil_iff, List.append_eq_nil_iff] at hc
    rw [Stmt.escapes, Bool.or_eq_true] at he
    rw [← Scope.allows_enter]
    rcases he with he | he
    · exact Stmt.allows_of_checkAll j body s.enter hc.1.2 he
    · exact Stmt.allows_of_checkAll j other s.enter hc.2 he
  | .whileLoop _ condition ⟨_, body⟩, s, hc, he => by
    rw [Stmt.check, List.append_eq_nil_iff] at hc
    rw [Stmt.escapes, Bool.and_eq_true, decide_eq_true_iff] at he
    obtain ⟨rfl, he⟩ := he
    rw [← Scope.allows_return_enterLoop, ← Scope.allows_enter]
    exact Stmt.allows_of_checkAll _ body _ hc.2 he
  | .forLoop _ none ⟨_, body⟩ iterable rangeEnd, s, hc, he => by
    rw [Stmt.check, List.append_eq_nil_iff] at hc
    rw [Stmt.escapes, Bool.and_eq_true, decide_eq_true_iff] at he
    obtain ⟨rfl, he⟩ := he
    rw [← Scope.allows_return_enterLoop, ← Scope.allows_enter]
    exact Stmt.allows_of_checkAll _ body _ hc.2 he
  | .forLoop _ (some name) ⟨_, body⟩ iterable rangeEnd, s, hc, he => by
    rw [Stmt.check, List.append_eq_nil_iff] at hc
    rw [Stmt.escapes, Bool.and_eq_true, decide_eq_true_iff] at he
    obtain ⟨rfl, he⟩ := he
    rw [← Scope.allows_return_enterLoop, ← Scope.allows_enter, ← Scope.allows_declare _ name,
      ← Scope.allows_enter]
    exact Stmt.allows_of_checkAll _ body _ hc.2 he
  | .returnStmt pos value, s, hc, he => by
    rw [Stmt.check, List.append_eq_nil_iff] at hc
    rw [Stmt.escapes, decide_eq_true_iff] at he
    subst he
    by_cases h : s.inFunction = true
    · exact h
    · rw [if_neg h] at hc
      cases hc.1
  | .exitStmt pos, s, hc, he => by
    rw [Stmt.check] at hc
    rw [Stmt.escapes, decide_eq_true_iff] at he
    subst he
    by_cases h : s.inLoop = true
    · exact h
    · rw [if_neg h] at hc
      cases hc
  | .continueStmt pos, s, hc, he => by
    rw [Stmt.check] at hc
    rw [Stmt.escapes, decide_eq_true_iff] at he
    subst he
    by_cases h : s.inLoop = true
    · exact h
    · rw [if_neg h] at hc
      cases hc
  | .declaration _ _, _, _, he => by rw [Stmt.escapes] at he; cases he
  | .assign _ _ _, _, _, he => by rw [Stmt.escapes] at he; cases he
  | .print _ _, _, _, he => by rw [Stmt.escapes] at he; cases he
  | .expr _ _, _, _, he => by rw [Stmt.escapes] at he; cases he

theorem Stmt.allows_of_checkAll (j : Jump) : ∀ (ss : List Stmt) (s : Scope),
    Stmt.checkAll s ss = [] → Stmt.escapesAny j ss = true → s.allows j = true
  | [], _, _, he => by rw [Stmt.escapesAny] at he; cases he
  | st :: rest, s, hc, he => by
    rw [Stmt.checkAll, List.append_eq_nil_iff] at hc
    rw [Stmt.escapesAny, Bool.or_eq_true] at he
    rcases he with he | he
    · exact Stmt.allows_of_check j st s hc.1 he
    · rw [← Scope.allows_declareAll s st.declaredNames]
      exact Stmt.allows_of_checkAll j rest _ hc.2 he

end

/-! ## Jumps and simplification -/

mutual

/-- A jump that escapes a simplified statement escaped the statement before. -/
theorem Stmt.escapes_of_simplify (used : List String) (j : Jump) : ∀ (s s' : Stmt),
    (s.simplify used).result = some s' → s'.escapes j = true → s.escapes j = true
  | .block ⟨pos, body⟩, s', hs, he => by
    rw [simplify_block] at hs
    cases hs
    rw [Stmt.escapes] at he ⊢
    exact Stmt.escapesAny_of_kept used j body he
  | .conditional pos condition ⟨thenPos, body⟩ none, s', hs, he => by
    rw [simplify_conditional_none] at hs
    rw [Stmt.escapes]
    split at hs
    · cases hs
      rw [Stmt.escapes] at he
      exact Stmt.escapesAny_of_kept used j body he
    · cases hs
      rw [Stmt.escapes, Stmt.escapesAny] at he
      cases he
    · cases hs
      rw [Stmt.escapes] at he
      exact Stmt.escapesAny_of_kept used j body he
  | .conditional pos condition ⟨thenPos, body⟩ (some ⟨elsePos, other⟩), s', hs, he => by
    rw [simplify_conditional_some] at hs
    rw [Stmt.escapes, Bool.or_eq_true]
    split at hs
    · cases hs
      rw [Stmt.escapes] at he
      exact Or.inl (Stmt.escapesAny_of_kept used j body he)
    · cases hs
      rw [Stmt.escapes] at he
      exact Or.inr (Stmt.escapesAny_of_kept used j other he)
    · cases hs
      rw [Stmt.escapes, Bool.or_eq_true] at he
      exact he.imp (Stmt.escapesAny_of_kept used j body) (Stmt.escapesAny_of_kept used j other)
  | .whileLoop pos condition ⟨bodyPos, body⟩, s', hs, he => by
    rw [simplify_whileLoop] at hs
    cases hs
    rw [Stmt.escapes, Bool.and_eq_true] at he ⊢
    exact ⟨he.1, Stmt.escapesAny_of_kept used j body he.2⟩
  | .forLoop pos loopVar ⟨bodyPos, body⟩ iterable rangeEnd, s', hs, he => by
    rw [simplify_forLoop] at hs
    cases hs
    rw [Stmt.escapes, Bool.and_eq_true] at he ⊢
    exact ⟨he.1, Stmt.escapesAny_of_kept used j body he.2⟩
  | .returnStmt pos value, s', hs, he => by
    rw [simplify_returnStmt] at hs
    cases hs
    rw [Stmt.escapes] at he ⊢
    exact he
  | .exitStmt pos, s', hs, he => by
    rw [simplify_exitStmt] at hs
    cases hs
    exact he
  | .continueStmt pos, s', hs, he => by
    rw [simplify_continueStmt] at hs
    cases hs
    exact he
  | .declaration pos vars, s', hs, he => by
    rw [simplify_declaration] at hs
    split at hs
    · cases hs
    · cases hs
      rw [Stmt.escapes] at he
      cases he
  | .assign pos target value, s', hs, he => by
    rw [simplify_assign] at hs
    cases hs
    rw [Stmt.escapes] at he
    cases he
  | .print pos values, s', hs, he => by
    rw [simplify_print] at hs
    cases hs
    rw [Stmt.escapes] at he
    cases he
  | .expr pos value, s', hs, he => by
    rw [simplify_expr] at hs
    cases hs
    rw [Stmt.escapes] at he
    cases he

theorem Stmt.escapesAny_of_kept (used : List String) (j : Jump) : ∀ ss : List Stmt,
    Stmt.escapesAny j (keptStatements used ss) = true → Stmt.escapesAny j ss = true
  | [], he => by
    rw [keptStatements, simplifyAll_stmt_nil] at he
    exact he
  | s :: rest, he => by
    rw [keptStatements, simplifyAll_stmt_cons] at he
    rw [Stmt.escapesAny, Bool.or_eq_true]
    split at he
    · exact Or.inr (Stmt.escapesAny_of_kept used j rest he)
    next s' hs' =>
      split at he
      · rw [Stmt.escapesAny, Stmt.escapesAny, Bool.or_false] at he
        exact Or.inl (Stmt.escapes_of_simplify used j s s' hs' he)
      · rw [Stmt.escapesAny, Bool.or_eq_true] at he
        exact he.imp (Stmt.escapes_of_simplify used j s s' hs')
          (Stmt.escapesAny_of_kept used j rest)

end

end Dee
