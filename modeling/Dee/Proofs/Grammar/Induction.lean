import Dee.Proofs.Grammar.Source

/-!
# Induction over the grammar

A property of parsers holds of the whole grammar if the ways of putting parsers together keep it.
`P pre x` speaks of the parser `x` on streams whose current token satisfies `pre`. A dot is always
taken together with the member behind it, so `Compositional P` asks for the two as one step; every
other token is taken on its own.

Main statements: `Compositional.statements`, `Compositional.ofLevel`.
-/

namespace Dee.Grammar

/-- A property of parsers that the ways of putting parsers together keep. -/
structure Compositional (P : {α : Type} → (Token → Prop) → Parser α → Prop) : Prop where
  weaken {α : Type} {pre : Token → Prop} {x : Parser α} (h : P anyToken x) : P pre x
  pure {α : Type} (a : α) : P anyToken (pure a : Parser α)
  tooDeep {α : Type} : P anyToken (throw .tooDeep : Parser α)
  failAt {α : Type} (t : Token) (cause : ParseError) : P anyToken (failAt t cause : Parser α)
  bind {α β : Type} {pre : Token → Prop} {x : Parser α} {g : α → Parser β} (hx : P pre x)
    (hg : ∀ a, P anyToken (g a)) : P pre (x >>= g)
  current {β : Type} {g : Token → Parser β} (hg : ∀ t, P (· = t) (g t)) : P anyToken (current >>= g)
  /-- A token that is no dot is taken. -/
  advance {t : Token} (ht : t.isSymbol .dot = false) : P (· = t) advance
  /-- Tokens that are no dots are taken. -/
  skipWhile {test : Token → Bool} (htest : ∀ t, test t = true → t.isSymbol .dot = false) :
    P anyToken (skipWhile test)
  /-- A dot is taken, and the member behind it. -/
  access (target : Expr) {t : Token} (ht : t.lexeme = .symbol .dot) :
    P (· = t) (Grammar.advance >>= fun _ => member target t)

/-- The rules for nested parts have a property. -/
structure Rules.Have (P : {α : Type} → (Token → Prop) → Parser α → Prop) (r : Rules) : Prop where
  expression : P anyToken r.expression
  operand : P anyToken r.operand
  statement : P anyToken r.statement

namespace Compositional

variable {P : {α : Type} → (Token → Prop) → Parser α → Prop} (h : Compositional P) {α β : Type}
  {r : Rules}

include h

/-! ## Tokens -/

theorem accept_bind {test : Token → Bool} (htest : ∀ t, test t = true → t.isSymbol .dot = false)
    {g : Option Token → Parser β} (hg : ∀ o, P anyToken (g o)) :
    P anyToken (accept test >>= g) := by
  refine h.bind ?_ hg
  unfold accept
  refine h.current fun t => ?_
  split
  next ht => exact h.bind (h.advance (htest t ht)) fun _ => h.pure _
  next => exact h.weaken (h.pure _)

theorem acceptSymbol_bind {k : Symbol} (hk : k ≠ .dot) {g : Option Token → Parser β}
    (hg : ∀ o, P anyToken (g o)) : P anyToken (acceptSymbol k >>= g) := by
  refine h.accept_bind (fun t ht => ?_) hg
  have hlex : t.lexeme = .symbol k := of_decide_eq_true ht
  simp [Token.isSymbol, hlex, hk]

theorem acceptKeyword_bind {k : Keyword} {g : Option Token → Parser β}
    (hg : ∀ o, P anyToken (g o)) : P anyToken (acceptKeyword k >>= g) := by
  refine h.accept_bind (fun t ht => ?_) hg
  have hlex : t.lexeme = .keyword k := of_decide_eq_true ht
  simp [Token.isSymbol, hlex]

theorem expect {test : Token → Bool} (htest : ∀ t, test t = true → t.isSymbol .dot = false)
    (wanted : Wanted) : P anyToken (expect test wanted) := by
  unfold Grammar.expect
  refine h.current fun t => ?_
  split
  next ht => exact h.advance (htest t ht)
  next => exact h.weaken (h.failAt _ _)

theorem expectSymbol {k : Symbol} (hk : k ≠ .dot) (wanted : Wanted) :
    P anyToken (Grammar.expect (·.isSymbol k) wanted) := by
  refine h.expect (fun t ht => ?_) wanted
  have hlex : t.lexeme = .symbol k := of_decide_eq_true ht
  simp [Token.isSymbol, hlex, hk]

theorem expectKeyword (k : Keyword) (wanted : Wanted) :
    P anyToken (Grammar.expect (·.isKeyword k) wanted) := by
  refine h.expect (fun t ht => ?_) wanted
  have hlex : t.lexeme = .keyword k := of_decide_eq_true ht
  simp [Token.isSymbol, hlex]

theorem expectName : P anyToken expectName := by
  unfold Grammar.expectName
  refine h.current fun t => ?_
  split
  · exact h.weaken (h.failAt _ _)
  · refine h.weaken (h.expect (fun u hu => ?_) _)
    have hlex : u.lexeme = .name := of_decide_eq_true hu
    simp [Token.isSymbol, hlex]

theorem skipNewlines : P anyToken skipNewlines := by
  refine h.skipWhile fun t ht => ?_
  have hlex : t.lexeme = .newline := of_decide_eq_true ht
  simp [Token.isSymbol, hlex]

theorem skipSeparators : P anyToken skipSeparators := by
  refine h.skipWhile fun t ht => ?_
  rw [Token.isSeparator, Bool.or_eq_true] at ht
  rcases ht with ht | ht
  · have hlex : t.lexeme = .newline := of_decide_eq_true ht
    simp [Token.isSymbol, hlex]
  · have hlex : t.lexeme = .symbol .semicolon := of_decide_eq_true ht
    simp [Token.isSymbol, hlex]

/-! ## Lists -/

theorem moreItems {between : Parser Unit} {item : Parser α} (hbetween : P anyToken between)
    (hitem : P anyToken item) (rounds : Nat) (seen : List α) :
    P anyToken (moreItems between item rounds seen) := by
  induction rounds generalizing seen with
  | zero => exact h.tooDeep
  | succ rounds ih =>
    unfold Grammar.moreItems
    refine h.acceptSymbol_bind (by decide) fun o => ?_
    cases o with
    | none => exact h.pure _
    | some t => exact h.bind hbetween fun _ => h.bind hitem fun a => ih (a :: seen)

theorem items {between : Parser Unit} {item : Parser α} (hbetween : P anyToken between)
    (hitem : P anyToken item) (rounds : Nat) : P anyToken (items rounds between item) :=
  h.bind hitem fun a => h.moreItems hbetween hitem rounds [a]

theorem bracketedItems {item : Parser α} (hitem : P anyToken item) {closing : Symbol}
    (hclosing : closing ≠ .dot) (wanted : Wanted) (rounds : Nat) (seen : List α) :
    P anyToken (bracketedItems closing wanted item rounds seen) := by
  induction rounds generalizing seen with
  | zero => exact h.tooDeep
  | succ rounds ih =>
    unfold Grammar.bracketedItems
    refine h.bind hitem fun a => h.bind h.skipNewlines fun _ => ?_
    refine h.acceptSymbol_bind (by decide) fun o => ?_
    cases o with
    | some t => exact h.bind h.skipNewlines fun _ => ih (a :: seen)
    | none => exact h.bind (h.expectSymbol hclosing wanted) fun _ => h.pure _

theorem bracketed {item : Parser α} (hitem : P anyToken item) {closing : Symbol}
    (hclosing : closing ≠ .dot) (wanted : Wanted) (rounds : Nat) :
    P anyToken (bracketed rounds closing wanted item) := by
  unfold Grammar.bracketed
  refine h.bind h.skipNewlines fun _ => h.acceptSymbol_bind hclosing fun o => ?_
  cases o with
  | some t => exact h.pure _
  | none => exact h.bracketedItems hitem hclosing wanted rounds []

/-! ## Statement lists and functions -/

theorem moreStatements {statement : Parser Stmt} (hst : P anyToken statement) (closing : Closing)
    (rounds : Nat) (seen : List Stmt) :
    P anyToken (moreStatements statement closing rounds seen) := by
  induction rounds generalizing seen with
  | zero => exact h.tooDeep
  | succ rounds ih =>
    unfold Grammar.moreStatements
    refine h.current fun t => h.weaken ?_
    split
    · exact h.pure _
    · split
      · exact h.failAt _ _
      · refine h.bind hst fun s => h.current fun u => h.weaken ?_
        split
        · exact ih (s :: seen)
        · split
          · exact h.bind h.skipSeparators fun _ => ih (s :: seen)
          · exact h.failAt _ _

theorem statements (hr : r.Have P) (closing : Closing) : P anyToken (statements r closing) :=
  h.bind h.skipSeparators fun _ => h.moreStatements hr.statement closing _ _

theorem functionLiteral (hr : r.Have P) {t : Token} (ht : t.lexeme = .keyword .funcKw) :
    P (· = t) (functionLiteral r) := by
  rw [functionLiteral_eq]
  refine h.bind (h.advance (by simp [Token.isSymbol, ht])) fun start => h.bind ?_ fun params => ?_
  · unfold parameters
    refine h.acceptSymbol_bind (by decide) fun o => ?_
    cases o with
    | some _ => exact h.bracketed h.expectName (by decide) _ _
    | none => exact h.pure _
  · unfold functionBody
    refine h.acceptKeyword_bind fun o => ?_
    cases o with
    | some _ =>
      refine h.bind (h.statements hr .body) fun body => ?_
      exact h.bind (h.expectKeyword _ _) fun _ => h.pure _
    | none =>
      refine h.accept_bind (fun u hu => ?_) fun o => ?_
      · rw [Bool.or_eq_true] at hu
        rcases hu with hu | hu
        · have hlex : u.lexeme = .symbol .arrow := of_decide_eq_true hu
          simp [Token.isSymbol, hlex]
        · have hlex : u.lexeme = .symbol .thinArrow := of_decide_eq_true hu
          simp [Token.isSymbol, hlex]
      · cases o with
        | some _ => exact h.bind hr.expression fun e => h.pure _
        | none => exact h.current fun u => h.weaken (h.failAt _ _)

/-! ## Expressions -/

theorem tupleEntry (hr : r.Have P) : P anyToken (tupleEntry r) := by
  unfold Grammar.tupleEntry
  refine h.bind hr.expression fun e => ?_
  split
  · refine h.acceptSymbol_bind (by decide) fun o => ?_
    cases o with
    | some _ => exact h.bind hr.expression fun value => h.pure _
    | none => exact h.pure _
  · exact h.pure _

theorem primary (hr : r.Have P) : P anyToken (primary r) := by
  unfold Grammar.primary
  refine h.current fun t => ?_
  have hadvance : ∀ {lexeme : Lexeme}, t.lexeme = lexeme → lexeme ≠ .symbol .dot →
      P (· = t) Grammar.advance := by
    rintro _ rfl hne
    exact h.advance (decide_eq_false hne)
  split
  next hlex => exact h.bind (hadvance hlex (by simp)) fun _ => h.pure _
  next hlex => exact h.bind (hadvance hlex (by simp)) fun _ => h.pure _
  next hlex =>
    refine h.bind (hadvance hlex (by simp)) fun _ => h.bind h.skipNewlines fun _ => ?_
    refine h.bind hr.expression fun e => h.bind h.skipNewlines fun _ => ?_
    exact h.bind (h.expectSymbol (by decide) _) fun _ => h.pure _
  next hlex =>
    refine h.bind (hadvance hlex (by simp)) fun _ => ?_
    exact h.bind (h.bracketed hr.expression (by decide) _ _) fun elements => h.pure _
  next hlex =>
    refine h.bind (hadvance hlex (by simp)) fun _ => ?_
    exact h.bind (h.bracketed (h.tupleEntry hr) (by decide) _ _) fun entries => h.pure _
  next hlex => exact h.functionLiteral hr hlex
  next => exact h.weaken (h.failAt _ _)
  next => split <;> exact h.weaken (h.failAt _ _)

theorem indicator : P anyToken indicator := by
  unfold Grammar.indicator
  refine h.current fun t => ?_
  split
  next hword =>
    refine h.bind (h.advance ?_) fun _ => h.pure _
    cases hlex : t.lexeme with
    | symbol k => simp [isIndicatorWord, Token.isTypeWord, Token.isKeyword, hlex] at hword
    | _ => simp [Token.isSymbol, hlex]
  next =>
    refine h.weaken (h.acceptSymbol_bind (by decide) fun o => ?_)
    cases o with
    | some _ => exact h.bind (h.expectSymbol (by decide) _) fun _ => h.pure _
    | none =>
      refine h.acceptSymbol_bind (by decide) fun o => ?_
      cases o with
      | some _ => exact h.bind (h.expectSymbol (by decide) _) fun _ => h.pure _
      | none => exact h.failAt _ _

theorem trailers (hr : r.Have P) (rounds : Nat) (e : Expr) : P anyToken (trailers r rounds e) := by
  induction rounds generalizing e with
  | zero => exact h.tooDeep
  | succ rounds ih =>
    unfold Grammar.trailers
    refine h.current fun t => ?_
    split
    next hlex =>
      refine h.bind (h.advance (by simp [Token.isSymbol, hlex])) fun _ => ?_
      exact h.bind (h.bracketed hr.expression (by decide) _ _) fun args => ih _
    next hlex =>
      refine h.bind (h.advance (by simp [Token.isSymbol, hlex])) fun _ => ?_
      refine h.bind h.skipNewlines fun _ => h.bind hr.expression fun index => ?_
      refine h.bind h.skipNewlines fun _ => ?_
      exact h.bind (h.expectSymbol (by decide) _) fun _ => ih _
    next hlex =>
      -- The dot and the member behind it are one step.
      rw [← bind_assoc]
      exact h.bind (h.access e hlex) ih
    next hlex =>
      refine h.bind (h.advance (by simp [Token.isSymbol, hlex])) fun _ => ?_
      exact h.bind h.indicator fun text => ih _
    next => exact h.weaken (h.pure _)

theorem unary (hr : r.Have P) : P anyToken (unary r) := by
  unfold Grammar.unary
  refine h.current fun t => ?_
  split
  next hop =>
    refine h.bind (h.advance ?_) fun _ => h.bind hr.operand fun e => h.pure _
    simp only [isUnaryOp, Token.isSymbol, Token.isKeyword, Bool.or_eq_true, decide_eq_true_iff]
      at hop
    rcases hop with (hlex | hlex) | hlex <;> simp [Token.isSymbol, hlex]
  next => exact h.weaken (h.bind (h.primary hr) fun e => h.trailers hr _ e)

theorem joined {operand : Parser Expr} (hoperand : P anyToken operand) {isOp : Token → Bool}
    (hop : ∀ t, isOp t = true → t.isSymbol .dot = false) (rounds : Nat) :
    P anyToken (joined rounds isOp operand) := by
  refine h.bind hoperand fun left => ?_
  induction rounds generalizing left with
  | zero => exact h.tooDeep
  | succ rounds ih =>
    unfold Grammar.moreOperands
    refine h.accept_bind hop fun o => ?_
    cases o with
    | none => exact h.pure _
    | some op => exact h.bind hoperand fun right => ih _

theorem expression (hr : r.Have P) : P anyToken (expression r) := by
  have hdot : ∀ t : Token, t.isSymbol .dot = true → isLogicalOp t = false ∧
      isComparisonOp t = false ∧ isSumOp t = false ∧ isProductOp t = false := by
    intro t ht
    have hlex : t.lexeme = .symbol .dot := of_decide_eq_true ht
    simp [isLogicalOp, isComparisonOp, isSumOp, isProductOp, Token.isSymbol, Token.isKeyword, hlex]
  unfold Grammar.expression
  refine h.joined (h.joined (h.joined (h.joined (h.unary hr) ?_ _) ?_ _) ?_ _) ?_ _
  all_goals
    intro t ht
    refine Bool.eq_false_iff.mpr fun hsymbol => ?_
    simp [hdot t hsymbol] at ht

/-! ## Statements -/

theorem blockUntilEnd (hr : r.Have P) (opener : Token) : P anyToken (blockUntilEnd r opener) :=
  h.bind (h.statements hr .body) fun _ => h.pure _

theorem loopBody (hr : r.Have P) : P anyToken (loopBody r) := by
  unfold Grammar.loopBody
  refine h.bind (h.expectKeyword _ _) fun opener =>
    h.bind (h.blockUntilEnd hr opener) fun body => ?_
  exact h.bind (h.expectKeyword _ _) fun _ => h.pure _

theorem varDef (hr : r.Have P) : P anyToken (varDef r) := by
  unfold Grammar.varDef
  refine h.bind h.expectName fun name => h.acceptSymbol_bind (by decide) fun o => ?_
  cases o with
  | some _ => exact h.bind hr.expression fun e => h.pure _
  | none => exact h.pure _

theorem conditional (hr : r.Have P) {t : Token} (ht : t.isSymbol .dot = false) :
    P (· = t) (conditional r) := by
  unfold Grammar.conditional
  refine h.bind (h.advance ht) fun start => h.bind hr.expression fun condition => ?_
  refine h.acceptKeyword_bind fun o => ?_
  cases o with
  | some thenWord =>
    refine h.bind (h.statements hr .branch) fun body => h.acceptKeyword_bind fun o => ?_
    cases o with
    | some elseWord =>
      refine h.bind (h.blockUntilEnd hr elseWord) fun other => ?_
      exact h.bind (h.expectKeyword _ _) fun _ => h.pure _
    | none => exact h.bind (h.expectKeyword _ _) fun _ => h.pure _
  | none =>
    refine h.acceptSymbol_bind (by decide) fun o => ?_
    cases o with
    | some arrow => exact h.bind hr.statement fun s => h.pure _
    | none => exact h.current fun u => h.weaken (h.failAt _ _)

theorem loopSource (hr : r.Have P) : P anyToken (loopSource r) := by
  unfold Grammar.loopSource
  refine h.bind hr.expression fun e => ?_
  split
  · refine h.acceptKeyword_bind fun o => ?_
    cases o with
    | some _ => exact h.bind hr.expression fun source => h.pure _
    | none => exact h.pure _
  · exact h.pure _

theorem forLoop (hr : r.Have P) {t : Token} (ht : t.isSymbol .dot = false) :
    P (· = t) (forLoop r) := by
  unfold Grammar.forLoop
  refine h.bind (h.advance ht) fun start => h.current fun u => h.weaken ?_
  split
  · exact h.failAt _ _
  · refine h.bind (h.loopSource hr) fun o => ?_
    obtain ⟨loopVar, source⟩ := o
    refine h.acceptSymbol_bind (by decide) fun o => ?_
    cases o with
    | some _ =>
      refine h.bind hr.expression fun rangeEnd => ?_
      exact h.bind (h.loopBody hr) fun body => h.pure _
    | none => exact h.bind (h.loopBody hr) fun body => h.pure _

theorem returnStmt (hr : r.Have P) {t : Token} (ht : t.isSymbol .dot = false) :
    P (· = t) (returnStmt r) := by
  unfold Grammar.returnStmt
  refine h.bind (h.advance ht) fun start => h.current fun u => h.weaken ?_
  split
  · exact h.pure _
  · exact h.bind hr.expression fun e => h.pure _

theorem assignment (hr : r.Have P) : P anyToken (assignment r) := by
  unfold Grammar.assignment
  refine h.current fun start => h.weaken (h.bind hr.expression fun e => ?_)
  refine h.acceptSymbol_bind (by decide) fun o => ?_
  cases o with
  | some _ =>
    dsimp only
    split
    · exact h.bind hr.expression fun value => h.pure _
    · exact h.failAt _ _
  | none => exact h.pure _

theorem statement (hr : r.Have P) : P anyToken (statement r) := by
  unfold Grammar.statement
  refine h.current fun t => ?_
  have hword : ∀ {k : Keyword}, t.lexeme = .keyword k → t.isSymbol .dot = false := by
    intro k hlex
    simp [Token.isSymbol, hlex]
  split
  next hlex =>
    refine h.bind (h.advance (hword hlex)) fun start => ?_
    exact h.bind (h.items (h.pure _) (h.varDef hr) _) fun vars => h.pure _
  next hlex =>
    refine h.bind (h.advance (hword hlex)) fun start => ?_
    exact h.bind (h.items h.skipNewlines hr.expression _) fun values => h.pure _
  next hlex => exact h.conditional hr (hword hlex)
  next hlex =>
    refine h.bind (h.advance (hword hlex)) fun start => h.bind hr.expression fun condition => ?_
    exact h.bind (h.loopBody hr) fun body => h.pure _
  next hlex => exact h.forLoop hr (hword hlex)
  next =>
    exact h.weaken (h.current fun start => h.weaken (h.bind (h.loopBody hr) fun body => h.pure _))
  next hlex => exact h.returnStmt hr (hword hlex)
  next hlex => exact h.bind (h.advance (hword hlex)) fun _ => h.pure _
  next hlex => exact h.bind (h.advance (hword hlex)) fun _ => h.pure _
  next => exact h.weaken (h.assignment hr)

/-! ## All levels -/

/-- The rules of every level have a property that is kept. -/
theorem ofLevel (rounds level : Nat) : (Rules.ofLevel rounds level).Have P := by
  induction level with
  | zero => exact ⟨h.tooDeep, h.tooDeep, h.tooDeep⟩
  | succ level ih => exact ⟨h.expression ih, h.unary ih, h.statement ih⟩

end Compositional

end Dee.Grammar
