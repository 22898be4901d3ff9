import Dee.Proofs.Grammar.Source
import Dee.Proofs.Spacing.Lists

/-!
# Expressions side by side

Every rule of expressions follows itself on tokens that resemble each other, over rules for nested
parts that do. Line ends inside brackets are skipped; anywhere else in an expression a separator
ends it.

Main statements: `SideBySide.follows_expression` and `needsPart_expression`.
-/

namespace Dee.Grammar

/-! ## Where expressions start -/

/-- What no expression and no statement starts with. -/
theorem lexeme_of_not_startsPart {t : Token} (h : ¬ startsPart t = true) :
    t.lexeme = .newline ∨ t.lexeme = .symbol .semicolon ∨ t.lexeme = .eof ∨
      t.lexeme = .keyword .endKw ∨ t.lexeme = .keyword .elseKw := by
  by_contra hnone
  simp only [not_or] at hnone
  refine h (startsPart_iff.mpr ⟨Token.isMark_iff_lexeme.mpr ⟨hnone.1, hnone.2.1, hnone.2.2.1⟩, ?_⟩)
  simp [endsStatement, Token.isKeyword, Token.isEof, hnone]

theorem needsPart_primary (r : Rules) : NeedsPart (primary r) := by
  intro s a s' hx
  by_contra hstarts
  unfold primary at hx
  rw [bind_of_ok (current_eq_ok.mpr ⟨rfl, rfl⟩)] at hx
  rcases lexeme_of_not_startsPart hstarts with hlex | hlex | hlex | hlex | hlex <;>
  · simp only [hlex, Token.isTypeWord] at hx
    exact failAt_ne_ok hx

theorem needsPart_unary (r : Rules) : NeedsPart (unary r) := by
  intro s a s' hx
  by_contra hstarts
  have hop : isUnaryOp s.current = false := by
    rcases lexeme_of_not_startsPart hstarts with hlex | hlex | hlex | hlex | hlex <;>
      simp [isUnaryOp, Token.isSymbol, Token.isKeyword, hlex]
  unfold unary at hx
  rw [bind_of_ok (current_eq_ok.mpr ⟨rfl, rfl⟩), hop, if_neg Bool.false_ne_true] at hx
  exact hstarts ((needsPart_primary r).bind _ s a s' hx)

theorem needsPart_joined {operand : Parser Expr} (h : NeedsPart operand) (rounds : Nat)
    (isOp : Token → Bool) :
    NeedsPart (joined rounds isOp operand) :=
  h.bind _

theorem needsPart_expression (r : Rules) : NeedsPart (expression r) :=
  needsPart_joined
    (needsPart_joined (needsPart_joined (needsPart_joined (needsPart_unary r) _ _) _ _) _ _) _ _

namespace SideBySide

variable {D : SideBySide} {n : Nat} {pre : Token → Token → Prop} {r r' : Rules}

theorem follows_position (ds : List Char) : D.Follows n pre (position ds) (position ds) id := by
  unfold position
  split
  · exact follows_throw
  · exact follows_pure rfl

/-! ## Functions -/

theorem follows_parameters :
    D.Follows r'.rounds anyTokens (parameters r) (parameters r') (List.map D.view.token) := by
  unfold parameters
  refine follows_accept (markTest_isSymbol (by decide)) (follows_pure rfl) ?_
  exact fun t t' _ _ => follows_bracketed follows_expectName (by decide) _ _

section Nested

variable (hr : D.RulesFollow r r')
include hr

theorem follows_functionBody {pos pos' : Pos} (hpos : D.view.pos pos' = D.view.pos pos)
    (names : List String) :
    D.Follows r'.rounds anyTokens (functionBody r pos names) (functionBody r' pos' names)
      D.view.expr := by
  unfold functionBody
  refine follows_accept (markTest_isKeyword _) ?_ ?_
  · refine follows_accept ((markTest_isSymbol (by decide)).or (markTest_isSymbol (by decide))) ?_ ?_
    · exact follows_current_bind (fun _ _ _ _ => follows_failAt) fun _ _ _ _ => follows_failAt
    · exact fun t t' _ _ => hr.expression.bind fun e e' he => follows_pure (by simp [hpos, he])
  · intro t t' _ _
    refine (follows_statements hr .body).bind fun body body' hbody => ?_
    refine (follows_expect (markTest_isKeyword _) _).bind fun _ _ _ => ?_
    exact follows_pure (by simp [hpos, hbody])

theorem follows_functionLiteral {t t' : Token} (ht : t.isMark = true)
    (hsame : D.view.token t = D.view.token t') :
    D.Follows r'.rounds (At t t') (functionLiteral r) (functionLiteral r') D.view.expr := by
  rw [functionLiteral_eq, functionLiteral_eq]
  refine follows_take ht (follows_parameters.bind fun params params' hparams => ?_)
  have htexts : params'.map Token.text = params.map Token.text := by
    have h := congrArg (List.map Token.text) hparams
    rw [List.map_map, List.map_map] at h
    exact h.symm
  rw [htexts]
  exact follows_functionBody hr (View.pos_eq hsame) _

/-! ## Primary expressions -/

theorem follows_tupleEntry :
    D.Follows r'.rounds anyTokens (tupleEntry r) (tupleEntry r') D.view.entry := by
  unfold tupleEntry
  refine hr.expression.bind fun e e' he => ?_
  have hplain : D.Follows r'.rounds anyTokens (pure ⟨none, e⟩ : Parser TupleEntry) (pure ⟨none, e'⟩)
      D.view.entry := follows_pure (by simp [View.entry, he])
  split
  next pos name =>
    obtain ⟨pos', rfl⟩ := D.view.eq_reference rfl he
    refine follows_accept (markTest_isSymbol (by decide)) hplain ?_
    intro t t' _ _
    exact hr.expression.bind fun value value' hvalue => follows_pure (by simp [View.entry, hvalue])
  next hnone =>
    split
    next pos' name =>
      obtain ⟨pos, rfl⟩ := D.view.eq_reference rfl he.symm
      cases hnone pos name rfl
    next => exact hplain

theorem follows_primary : D.Follows r'.rounds pre (primary r) (primary r') D.view.expr := by
  unfold primary
  refine follows_mark_bind (fun t t' ht hsame => ?_) fun t ht s q hx => ?_
  · rw [View.lexeme_eq hsame, View.text_eq hsame]
    have hpos := View.pos_eq hsame
    split
    next => exact follows_take ht (follows_pure (by simp [View.expr_ofScalar, hpos]))
    next => exact follows_take ht (follows_pure (by simp [hpos]))
    next =>
      refine follows_take ht (follows_skipNewlines.bind fun _ _ _ => ?_)
      refine hr.expression.bind fun e e' he => follows_skipNewlines.bind fun _ _ _ => ?_
      exact (follows_expect (markTest_isSymbol (by decide)) _).bind fun _ _ _ => follows_pure he
    next =>
      refine follows_take ht ?_
      exact (follows_bracketed hr.expression (by decide) _ _).bind
          fun elements elements' helements =>
        follows_pure (by simp [hpos, helements])
    next =>
      refine follows_take ht ?_
      exact (follows_bracketed (follows_tupleEntry hr) (by decide) _ _).bind
          fun entries entries' hentries =>
        follows_pure (by simp [hpos, hentries])
    next => exact follows_functionLiteral hr ht hsame
    next => exact follows_failAt
    next => split <;> exact follows_failAt
  · rcases Token.lexeme_of_not_isMark ht with hlex | hlex | hlex <;>
    · simp only [hlex, Token.isTypeWord] at hx
      exact failAt_ne_ok hx

end Nested

/-! ## Calls, indices, members, type checks -/

theorem follows_member {target target' : Expr} (htarget : D.view.expr target = D.view.expr target')
    {dot dot' : Token} (hdot : D.view.token dot = D.view.token dot') :
    D.Follows n pre (member target dot) (member target' dot') D.view.expr := by
  unfold member
  refine follows_mark_bind (fun t t' ht hsame => ?_) fun t ht s q hx => ?_
  · rw [View.lexeme_eq hsame, View.text_eq hsame]
    have hpos := View.pos_eq hsame
    have hdotpos := View.pos_eq hdot
    split
    next => exact follows_take ht (follows_pure (by simp [htarget, hdotpos]))
    next =>
      refine follows_take ht ((follows_position _).bind fun m m' hm => ?_)
      obtain rfl : m = m' := hm
      exact follows_pure (by simp [htarget, hdotpos])
    next =>
      refine follows_take ht ((follows_position _).bind fun m m' hm => ?_)
      refine (follows_position _).bind fun l l' hl => ?_
      obtain rfl : m = m' := hm
      obtain rfl : l = l' := hl
      exact follows_pure (by simp [htarget, hdotpos, hpos])
    next =>
      rw [markTest_isTypeWord.same t t' (View.lexeme_eq hsame)]
      split <;> exact follows_failAt
  · rcases Token.lexeme_of_not_isMark ht with hlex | hlex | hlex <;>
    · simp only [hlex, Token.isTypeWord] at hx
      exact failAt_ne_ok hx

theorem markTest_isIndicatorWord : MarkTest isIndicatorWord :=
  ((markTest_isTypeWord.or (markTest_isKeyword .funcKw)).or (markTest_lexeme (by simp))).or
    markTest_isName

/-- Takes a type indicator in brackets, where a token stands. -/
def bracketIndicator (t : Token) : Parser String := do
  match ← acceptSymbol .openBracket with
  | some _ =>
    let _ ← expect (·.isSymbol .closeBracket) .closeBracket
    return Kind.arrayBrackets
  | none =>
    match ← acceptSymbol .openBrace with
    | some _ =>
      let _ ← expect (·.isSymbol .closeBrace) .closeBrace
      return Kind.tupleBrackets
    | none => failAt t (.expected .indicator t)

theorem indicator_eq : indicator = (do
    let t ← current
    if isIndicatorWord t then
      let _ ← advance
      return t.text
    else bracketIndicator t) := rfl

theorem follows_bracketIndicator (t t' : Token) :
    D.Follows n pre (bracketIndicator t) (bracketIndicator t') id := by
  unfold bracketIndicator
  refine follows_accept (markTest_isSymbol (by decide)) ?_ ?_
  · refine follows_accept (markTest_isSymbol (by decide)) follows_failAt ?_
    intro _ _ _ _
    exact (follows_expect (markTest_isSymbol (by decide)) _).bind fun _ _ _ => follows_pure rfl
  · intro _ _ _ _
    exact (follows_expect (markTest_isSymbol (by decide)) _).bind fun _ _ _ => follows_pure rfl

theorem follows_indicator : D.Follows n pre indicator indicator id := by
  rw [indicator_eq]
  refine follows_current_bind (fun t t' ht hsame => ?_) fun t t' ht ht' => ?_
  · rw [markTest_isIndicatorWord.same t t' (View.lexeme_eq hsame), View.text_eq hsame]
    split
    · exact follows_take ht (follows_pure rfl)
    · exact follows_bracketIndicator t t'
  · rw [markTest_isIndicatorWord.eq_false ht, markTest_isIndicatorWord.eq_false ht']
    exact follows_bracketIndicator t t'

section Nested

variable (hr : D.RulesFollow r r')
include hr

theorem follows_trailers (rounds : Nat) {rounds' : Nat}
    (hrounds : rounds' ≤ r'.rounds) {e e' : Expr}
    (he : D.view.expr e = D.view.expr e') :
    D.Follows rounds' anyTokens (trailers r rounds e) (trailers r' rounds' e') D.view.expr := by
  induction rounds generalizing rounds' e e' with
  | zero => exact follows_throw
  | succ rounds ih =>
    cases rounds' with
    | zero => exact follows_zero
    | succ rounds' =>
      have hless : rounds' ≤ r'.rounds := Nat.le_of_succ_le hrounds
      unfold trailers
      refine follows_current_bind (fun t t' ht hsame => ?_) fun t t' ht ht' => ?_
      · rw [View.lexeme_eq hsame]
        have hpos := View.pos_eq hsame
        split
        next =>
          refine follows_advance_bind (m := rounds') ht ?_ (Nat.le_refl _)
          refine ((follows_bracketed hr.expression (by decide) _ _).mono hless).bind
            fun args args' hargs => ?_
          exact ih hless (by simp [hpos, he, hargs])
        next =>
          refine follows_advance_bind (m := rounds') ht ?_ (Nat.le_refl _)
          refine follows_skipNewlines.bind fun _ _ _ => ?_
          refine (hr.expression.mono hless).bind fun index index' hindex => ?_
          refine follows_skipNewlines.bind fun _ _ _ => ?_
          refine (follows_expect (markTest_isSymbol (by decide)) _).bind fun _ _ _ => ?_
          exact ih hless (by simp [hpos, he, hindex])
        next =>
          refine follows_advance_bind (m := rounds') ht ?_ (Nat.le_refl _)
          exact (follows_member he hsame).bind fun e e' he => ih hless he
        next =>
          refine follows_advance_bind (m := rounds') ht ?_ (Nat.le_refl _)
          refine follows_indicator.bind fun text text' htext => ?_
          obtain rfl : text = text' := htext
          exact ih hless (by simp [hpos, he])
        next => exact follows_pure he
      · -- Nothing goes on at a separator or at the end.
        rcases Token.lexeme_of_not_isMark ht with hlex | hlex | hlex <;>
        rcases Token.lexeme_of_not_isMark ht' with hlex' | hlex' | hlex' <;>
        · simp only [hlex, hlex']
          exact follows_pure he

/-! ## Operators -/

theorem follows_unary : D.Follows r'.rounds anyTokens (unary r) (unary r') D.view.expr := by
  have hop : MarkTest isUnaryOp :=
    ((markTest_isSymbol (by decide)).or (markTest_isSymbol (by decide))).or (markTest_isKeyword _)
  have hplain : ∀ {pre}, D.Follows r'.rounds pre (primary r >>= fun e => trailers r r.rounds e)
      (primary r' >>= fun e => trailers r' r'.rounds e) D.view.expr := by
    intro pre
    exact (follows_primary hr).bind fun e e' he => follows_trailers hr _ (Nat.le_refl _) he
  unfold unary
  refine follows_current_bind (fun t t' ht hsame => ?_) fun t t' ht ht' => ?_
  · rw [hop.same t t' (View.lexeme_eq hsame), View.text_eq hsame]
    have hpos := View.pos_eq hsame
    split
    · refine follows_take ht (hr.operand.bind fun e e' he => ?_)
      exact follows_pure (by simp [hpos, he])
    · exact hplain
  · rw [hop.eq_false ht, hop.eq_false ht']
    exact hplain

omit hr in
theorem follows_joined {isOp : Token → Bool} (hop : MarkTest isOp) {operand operand' : Parser Expr}
    (hoperand : D.Follows n anyTokens operand operand' D.view.expr) (rounds : Nat) :
    D.Follows n anyTokens (joined rounds isOp operand) (joined n isOp operand') D.view.expr := by
  have hmore : ∀ (rounds : Nat) {rounds' : Nat}, rounds' ≤ n →
    ∀ {e e' : Expr}, D.view.expr e = D.view.expr e' →
      D.Follows rounds' anyTokens (moreOperands isOp operand rounds e)
        (moreOperands isOp operand' rounds' e') D.view.expr := by
    intro rounds
    induction rounds with
    | zero => exact fun _ _ _ _ => follows_throw
    | succ rounds ih =>
      intro rounds' hrounds e e' he
      cases rounds' with
      | zero => exact follows_zero
      | succ rounds' =>
        have hless : rounds' ≤ n := Nat.le_of_succ_le hrounds
        unfold moreOperands
        refine follows_accept_bind (m := rounds') hop (follows_pure he) ?_ (Nat.le_refl _)
        intro t t' _ hsame
        refine (hoperand.mono hless).bind fun right right' hright => ih hless ?_
        simp [View.text_eq hsame, View.pos_eq hsame, he, hright]
  exact hoperand.bind fun e e' he => hmore rounds (Nat.le_refl n) he

theorem follows_expression :
    D.Follows r'.rounds anyTokens (expression r) (expression r') D.view.expr := by
  have hsymbol : ∀ {k : Symbol}, k ≠ .semicolon → MarkTest (·.isSymbol k) := markTest_isSymbol
  unfold expression
  refine follows_joined ?_
    (follows_joined ?_ (follows_joined ?_ (follows_joined ?_ (follows_unary hr) _) _) _) _
  · exact ((markTest_isKeyword _).or (markTest_isKeyword _)).or (markTest_isKeyword _)
  · exact (((((hsymbol (by decide)).or (hsymbol (by decide))).or (hsymbol (by decide))).or
      (hsymbol (by decide))).or (hsymbol (by decide))).or (hsymbol (by decide))
  · exact (hsymbol (by decide)).or (hsymbol (by decide))
  · exact (hsymbol (by decide)).or (hsymbol (by decide))

end Nested

end SideBySide

end Dee.Grammar
