import Dee.Grammar.Program
import Dee.Proofs.Grammar.Position
import Dee.Proofs.Spacing.Expressions

/-!
# Programs side by side

Every rule of statements follows itself on tokens that resemble each other, and so do the rules of
every level. So two lists of tokens that resemble each other behind the separators at their start
are read as programs that look the same, or neither is read.

Main statement: `parseFeed_alike`.
-/

namespace Dee.Grammar

/-! ## Where statements start -/

theorem needsPart_statement {r : Rules} (h : NeedsPart r.expression) : NeedsPart (statement r) := by
  intro s a s' hx
  unfold statement at hx
  rw [bind_of_ok (current_eq_ok.mpr ⟨rfl, rfl⟩)] at hx
  by_contra hstarts
  have hassignment : assignment r s = .ok (a, s') := by
    rcases lexeme_of_not_startsPart hstarts with hlex | hlex | hlex | hlex | hlex <;>
    · simp only [hlex] at hx
      exact hx
  unfold assignment at hassignment
  rw [bind_of_ok (current_eq_ok.mpr ⟨rfl, rfl⟩)] at hassignment
  exact hstarts (h.bind _ s a s' hassignment)

namespace SideBySide

variable {D : SideBySide} {n : Nat} {pre : Token → Token → Prop} {r r' : Rules}
    (hr : D.RulesFollow r r')
include hr

/-! ## Parts of statements -/

theorem follows_blockUntilEnd {opener opener' : Token}
    (h : D.view.token opener = D.view.token opener') :
    D.Follows r'.rounds anyTokens (blockUntilEnd r opener) (blockUntilEnd r' opener')
      D.view.block :=
  (follows_statements hr .body).bind fun body body' hbody =>
    follows_pure (by simp [View.block, View.pos_eq h, hbody])

omit hr in
theorem follows_expectEnd : D.Follows n pre expectEnd expectEnd D.view.token :=
  follows_expect (markTest_isKeyword _) _

theorem follows_loopBody : D.Follows r'.rounds pre (loopBody r) (loopBody r') D.view.block := by
  unfold loopBody
  refine (follows_expect (markTest_isKeyword _) _).bind fun opener opener' hopener => ?_
  refine (follows_blockUntilEnd hr hopener).bind fun body body' hbody => ?_
  exact follows_expectEnd.bind fun _ _ _ => follows_pure hbody

theorem follows_varDef : D.Follows r'.rounds anyTokens (varDef r) (varDef r') D.view.varDef := by
  unfold varDef
  refine follows_expectName.bind fun name name' hname => ?_
  rw [View.text_eq hname]
  refine follows_accept (markTest_isSymbol (by decide)) (follows_pure rfl) ?_
  exact fun _ _ _ _ => hr.expression.bind fun e e' he => follows_pure (by simp [View.varDef, he])

/-- What a loop runs over: the variable is the same, and the source looks the same. -/
theorem follows_loopSource :
    D.Follows r'.rounds anyTokens (loopSource r) (loopSource r') (Prod.map id D.view.expr) := by
  unfold loopSource
  refine hr.expression.bind fun e e' he => ?_
  have hplain : D.Follows r'.rounds anyTokens (pure (none, e) : Parser (Option String × Expr))
      (pure (none, e')) (Prod.map id D.view.expr) := follows_pure (by simp [he])
  split
  next pos name =>
    obtain ⟨pos', rfl⟩ := D.view.eq_reference rfl he
    refine follows_accept (markTest_isKeyword _) hplain ?_
    intro _ _ _ _
    exact hr.expression.bind fun source source' hsource => follows_pure (by simp [hsource])
  next hnone =>
    split
    next pos' name =>
      obtain ⟨pos, rfl⟩ := D.view.eq_reference rfl he.symm
      cases hnone pos name rfl
    next => exact hplain

omit hr in
theorem isTarget_eq {V : View} {e e' : Expr} (h : V.expr e = V.expr e') :
    isTarget e' = isTarget e := by
  have hview : ∀ e, isTarget (V.expr e) = isTarget e := by
    intro e
    cases e <;> simp [isTarget]
  rw [← hview e', ← h, hview]

/-! ## Statements -/

theorem follows_conditional {t t' : Token} (ht : t.isMark = true)
    (hsame : D.view.token t = D.view.token t') :
    D.Follows r'.rounds (At t t') (conditional r) (conditional r') D.view.stmt := by
  unfold conditional
  have hpos := View.pos_eq hsame
  refine follows_take ht ?_
  refine hr.expression.bind fun condition condition' hcondition => ?_
  refine follows_accept (markTest_isKeyword _) ?_ ?_
  · refine follows_accept (markTest_isSymbol (by decide)) ?_ ?_
    · exact follows_current_bind (fun _ _ _ _ => follows_failAt) fun _ _ _ _ => follows_failAt
    · intro arrow arrow' _ harrow
      refine hr.statement.bind fun s s' hs => follows_pure ?_
      simp [View.block, hpos, hcondition, View.pos_eq harrow, hs]
  · intro thenWord thenWord' _ hthen
    refine (follows_statements hr .branch).bind fun body body' hbody => ?_
    refine follows_accept (markTest_isKeyword _) ?_ ?_
    · refine follows_expectEnd.bind fun _ _ _ => follows_pure ?_
      simp [View.block, hpos, hcondition, View.pos_eq hthen, hbody]
    · intro elseWord elseWord' _ helse
      refine (follows_blockUntilEnd hr helse).bind fun other other' hother => ?_
      refine follows_expectEnd.bind fun _ _ _ => follows_pure ?_
      rw [View.block, View.block] at hother
      simp [View.block, hpos, hcondition, View.pos_eq hthen, hbody, hother]

theorem follows_forLoop {t t' : Token} (ht : t.isMark = true)
    (hsame : D.view.token t = D.view.token t') :
    D.Follows r'.rounds (At t t') (forLoop r) (forLoop r') D.view.stmt := by
  have hpos := View.pos_eq hsame
  unfold forLoop
  refine follows_take ht (follows_unlessTypeWord ?_ _)
  refine (follows_loopSource hr).bind fun o o' ho => ?_
  obtain ⟨loopVar, source⟩ := o
  obtain ⟨loopVar', source'⟩ := o'
  obtain ⟨rfl, hsource⟩ : loopVar = loopVar' ∧ D.view.expr source = D.view.expr source' := by
    simpa using ho
  refine follows_accept (markTest_isSymbol (by decide)) ?_ ?_
  · exact (follows_loopBody hr).bind fun body body' hbody =>
      follows_pure (by simp [hpos, hbody, hsource])
  · intro _ _ _ _
    refine hr.expression.bind fun rangeEnd rangeEnd' hrangeEnd => ?_
    exact (follows_loopBody hr).bind fun body body' hbody =>
      follows_pure (by simp [hpos, hbody, hsource, hrangeEnd])

theorem follows_returnStmt {t t' : Token} (ht : t.isMark = true)
    (hsame : D.view.token t = D.view.token t') :
    D.Follows r'.rounds (At t t') (returnStmt r) (returnStmt r') D.view.stmt := by
  have hpos := View.pos_eq hsame
  unfold returnStmt
  refine follows_take ht ?_
  refine follows_current_bind (fun u u' hu husame => ?_) fun u u' hu hu' => ?_
  · have hu' := (Token.isMark_eq husame).trans hu
    rw [(Token.isMark_iff.mp hu).1, (Token.isMark_iff.mp hu').1, endsStatement_eq husame]
    split
    · exact follows_pure (by simp [hpos])
    · exact (hr.expression.bind fun e e' he => follows_pure (by simp [hpos, he])).of_any
  · -- Without a value a return may stand before separators in one text and at the end of the other.
    have hbare : ∀ u : Token, u.isMark = false → (u.isSeparator || endsStatement u) = true := by
      intro u hu
      rcases Token.lexeme_of_not_isMark hu with hlex | hlex | hlex <;>
        simp [Token.isSeparator, Token.isNewline, Token.isSymbol, endsStatement, Token.isEof, hlex]
    rw [hbare u hu, hbare u' hu']
    exact follows_pure (by simp [hpos])

/-- The position of an assignment is that of its first token, which is a mark since an expression
starts there. -/
theorem follows_assignment :
    D.Follows r'.rounds pre (assignment r) (assignment r') D.view.stmt := by
  unfold assignment
  refine follows_current_bind (fun t t' ht hsame => ?_) fun t t' ht ht' => ?_
  · have hpos := View.pos_eq hsame
    refine hr.expression.of_any.bind fun e e' he => ?_
    refine follows_accept (markTest_isSymbol (by decide)) ?_ ?_
    · exact follows_pure (by simp [hpos, he])
    · intro _ _ _ _
      dsimp only
      rw [isTarget_eq he]
      split
      · exact hr.expression.bind fun value value' hvalue =>
          follows_pure (by simp [hpos, he, hvalue])
      · exact follows_failAt
  · intro ts ts' a s _ hpre _ hx
    have hstarts := startsPart_iff.mp (hr.expressionNeeds.bind _ _ _ _ hx)
    rw [hpre.1] at hstarts
    cases ht.symm.trans hstarts.1

theorem follows_statement :
    D.Follows r'.rounds anyTokens (statement r) (statement r') D.view.stmt := by
  unfold statement
  refine follows_current_bind (fun t t' ht hsame => ?_) fun t t' ht ht' => ?_
  · rw [View.lexeme_eq hsame]
    have hpos := View.pos_eq hsame
    split
    next =>
      refine follows_take ht ?_
      exact (follows_items (follows_varDef hr) (follows_pure rfl) _).bind fun vars vars' hvars =>
        follows_pure (by simp [hpos, hvars])
    next =>
      refine follows_take ht ?_
      exact (follows_items hr.expression follows_skipNewlines _).bind fun values values' hvalues =>
        follows_pure (by simp [hpos, hvalues])
    next => exact follows_conditional hr ht hsame
    next =>
      refine follows_take ht ?_
      refine hr.expression.bind fun condition condition' hcondition => ?_
      exact (follows_loopBody hr).bind fun body body' hbody =>
        follows_pure (by simp [hpos, hcondition, hbody])
    next => exact follows_forLoop hr ht hsame
    next =>
      refine follows_current_at ((follows_loopBody hr).bind fun body body' hbody => ?_)
      exact follows_pure (by simp [hpos, hbody])
    next => exact follows_returnStmt hr ht hsame
    next => exact follows_take ht (follows_pure (by simp [hpos]))
    next => exact follows_take ht (follows_pure (by simp [hpos]))
    next => exact follows_assignment hr
  · rcases Token.lexeme_of_not_isMark ht with hlex | hlex | hlex <;>
    rcases Token.lexeme_of_not_isMark ht' with hlex' | hlex' | hlex' <;>
    · simp only [hlex, hlex']
      exact follows_assignment hr

end SideBySide

/-! ## Levels and whole programs -/

theorem needsPart_ofLevel (rounds level : Nat) :
    NeedsPart (Rules.ofLevel rounds level).expression ∧
      NeedsPart (Rules.ofLevel rounds level).statement := by
  induction level with
  | zero => exact ⟨fun _ _ _ => by nofun, fun _ _ _ => by nofun⟩
  | succ level ih => exact ⟨needsPart_expression _, needsPart_statement ih.1⟩

theorem rounds_ofLevel (rounds level : Nat) : (Rules.ofLevel rounds level).rounds = rounds := by
  cases level <;> rfl

/-- The rules of a level follow those of the same level. -/
theorem SideBySide.rulesFollow_ofLevel (D : SideBySide) (rounds rounds' level : Nat) :
    D.RulesFollow (Rules.ofLevel rounds level) (Rules.ofLevel rounds' level) := by
  have hneeds := needsPart_ofLevel rounds level
  induction level with
  | zero => exact ⟨follows_throw, follows_throw, follows_throw, hneeds.1, hneeds.2⟩
  | succ level ih =>
    have hbelow := ih (needsPart_ofLevel rounds level)
    have hrounds := rounds_ofLevel rounds' level
    have hexpression := follows_expression hbelow
    have hoperand := follows_unary hbelow
    have hstatement := follows_statement hbelow
    rw [hrounds] at hexpression hoperand hstatement
    exact ⟨hexpression, hoperand, hstatement, hneeds.1, hneeds.2⟩

theorem ofFeed_stream (S : Setting) (ts : List Token) :
    Stream.ofFeed ⟨ts, .ok S.eof⟩ = .ok (S.stream ts) := by
  cases ts <;> rfl

/-- If tokens resemble each other behind the separators at their start and the first ones are read
as a program, then so are the second ones, as a program that looks the same. -/
theorem parseFeed_alike {V : View} {ts ts' : List Token} {eof eof' : Token}
    {nesting : Nat} {p : Program}
    (heof : eof.isEof = true) (heof' : eof'.isEof = true)
    (hts : Resembles V (ts.dropWhile Token.isSeparator) (ts'.dropWhile Token.isSeparator))
    (h : parseFeed nesting ⟨ts, .ok eof⟩ = .ok p) :
    ∃ p', parseFeed nesting ⟨ts', .ok eof'⟩ = .ok p' ∧ V.program p' = V.program p := by
  let D : SideBySide := ⟨V, ⟨eof, ts.length + 1⟩, ⟨eof', ts'.length + 1⟩, heof, heof'⟩
  rw [parseFeed_eq] at h ⊢
  unfold readFeed at h ⊢
  have hleft : Stream.ofFeed ⟨ts, .ok eof⟩ = .ok (D.left.stream ts) := ofFeed_stream D.left ts
  have hright : Stream.ofFeed ⟨ts', .ok eof'⟩ = .ok (D.right.stream ts') :=
    ofFeed_stream D.right ts'
  rw [hleft] at h
  rw [hright]
  change (statements _ .file (D.left.stream ts)).map _ = _ at h
  show ∃ p', (statements _ .file (D.right.stream ts')).map _ = _ ∧ _
  cases hx : statements (.ofLevel (ts.length + 1) nesting) .file (D.left.stream ts) with
  | error g =>
    rw [hx] at h
    cases h
  | ok result =>
    obtain ⟨a, s⟩ := result
    rw [hx] at h
    cases h
    obtain ⟨k, b, k', -, hy, hview, -, -⟩ := SideBySide.statements_alike
      (D.rulesFollow_ofLevel (ts.length + 1) (ts'.length + 1) nesting) .file hts
      (by rw [rounds_ofLevel]; omega) hx
    have hsame : b.map V.stmt = a.map V.stmt := hview.symm
    exact ⟨⟨b, .start⟩, by rw [hy]; rfl, by rw [View.program, View.program, hsame]⟩

end Dee.Grammar
