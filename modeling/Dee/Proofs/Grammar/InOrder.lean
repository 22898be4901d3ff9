import Dee.Proofs.Grammar.Blames
import Dee.Proofs.Grammar.Spells

/-!
# Parsing keeps what the text mentions

Every rule of the grammar takes tokens that mention what the tree mentions that it builds, in the
same order. So a parsed program mentions what its text mentions: nothing is lost, nothing is
mentioned twice and nothing changes places.

Main statement: `parse_keeps_mentions`.
-/

namespace Dee

namespace Grammar

variable {f : Feed} {r : Rules} {pre : Token → Prop} {before : List Mention}

/-- What the rules for nested parts take is what they build. -/
structure Rules.Spell (f : Feed) (r : Rules) : Prop where
  expression : Spells f anyToken .plain [] r.expression .plain Expr.mentions
  operand : Spells f anyToken .plain [] r.operand .plain Expr.mentions
  statement : Spells f anyToken .plain [] r.statement .plain Stmt.mentions

/-! ## Operators -/

theorem spells_moreOperands {isOp : Token → Bool} {operand : Parser Expr}
    (hop : ∀ t, isOp t = true → (isUnaryOp t || isProductOp t || isSumOp t ||
      isComparisonOp t || isLogicalOp t) = true)
    (hoperand : Spells f anyToken .plain [] operand .plain Expr.mentions) (rounds : Nat)
    (left : Expr) :
    Spells f pre .plain left.mentions (moreOperands isOp operand rounds left) .plain
      Expr.mentions := by
  induction rounds generalizing left pre with
  | zero => exact spells_throw
  | succ rounds ih =>
    unfold moreOperands
    refine spells_accept_bind (fun t ht => ?_) (spells_pure rfl)
    obtain ⟨hmentions, hnext, hne⟩ := Context.mentions_operator (hop t ht)
    refine spells_take_bind hne ?_
    rw [hmentions, hnext]
    refine Spells.bind hoperand fun right => ?_
    -- What was joined so far is the left operand of the next round.
    rw [← Expr.mentions_binary t.pos]
    exact ih _

theorem spells_joined {isOp : Token → Bool} {operand : Parser Expr}
    (hop : ∀ t, isOp t = true → (isUnaryOp t || isProductOp t || isSumOp t ||
      isComparisonOp t || isLogicalOp t) = true)
    (hoperand : Spells f anyToken .plain [] operand .plain Expr.mentions) (rounds : Nat) :
    Spells f pre .plain [] (joined rounds isOp operand) .plain Expr.mentions := by
  unfold joined
  exact Spells.bind hoperand.of_any fun left => spells_moreOperands hop hoperand rounds left

/-! ## Statement lists -/

theorem spells_moreStatements {statement : Parser Stmt} {closing : Closing}
    (hst : Spells f anyToken .plain [] statement .plain Stmt.mentions) (rounds : Nat)
    (seen : List Stmt) :
    Spells f pre .plain (before ++ seen.reverse.flatMap Stmt.mentions)
      (moreStatements statement closing rounds seen) .plain
      fun ss => before ++ ss.flatMap Stmt.mentions := by
  induction rounds generalizing seen pre with
  | zero => exact spells_throw
  | succ rounds ih =>
    unfold moreStatements
    refine spells_current_bind fun t _ _ _ => ?_
    split
    · exact spells_pure rfl
    · split
      · exact spells_failAt
      · refine Spells.bind hst.of_any fun s => ?_
        rw [flatMap_reverse_cons]
        refine spells_current_bind fun u _ _ _ => ?_
        split
        · exact ih (s :: seen)
        · split
          · exact Spells.skip spells_skipSeparators fun _ => ih (s :: seen)
          · exact spells_failAt

theorem spells_statements (hr : r.Spell f) (closing : Closing) :
    Spells f pre .plain [] (statements r closing) .plain Stmt.mentionsAll := by
  unfold statements
  refine Spells.skip spells_skipSeparators fun _ => ?_
  have hmore : Spells f anyToken .plain ([] ++ [].reverse.flatMap Stmt.mentions)
      (moreStatements r.statement closing r.rounds []) .plain
      fun ss => [] ++ ss.flatMap Stmt.mentions :=
    spells_moreStatements hr.statement r.rounds []
  exact hmore.congr fun ss => (Stmt.mentionsAll_eq ss).symm

/-! ## Functions and brackets -/

theorem spells_parameters :
    Spells f anyToken .head [] (parameters r) .head fun ts => (ts.map Token.text).map .name := by
  unfold parameters
  refine spells_acceptSymbol_bind (fun _ _ => ⟨rfl, rfl⟩) (fun t => ?_) (spells_pure rfl)
  have hparams : Spells f anyToken .params []
      (bracketed r.rounds .closeParen .closeParen expectName) .head
      fun ts => ts.flatMap fun t => [.name t.text] :=
    spells_bracketed (fun _ _ => ⟨rfl, rfl⟩) (fun _ _ => ⟨rfl, rfl⟩) (fun _ _ => ⟨rfl, rfl⟩)
      (spells_expectName (Or.inr rfl)) r.rounds
  refine hparams.congr fun ts => ?_
  rw [List.map_map, List.map_eq_flatMap]
  rfl

theorem spells_functionBody (hr : r.Spell f) (pos : Pos) (names : List String) :
    Spells f anyToken .head (names.map .name) (functionBody r pos names) .plain Expr.mentions := by
  unfold functionBody
  refine spells_acceptKeyword_bind (fun _ _ => ⟨rfl, rfl⟩) (fun t => ?_) ?_
  · refine Spells.bind (spells_statements hr .body) fun body => ?_
    refine spells_expectKeyword_bind (fun _ _ => ⟨rfl, rfl⟩) fun _ => spells_pure ?_
    rw [Expr.mentions_function_statements]
  · refine spells_accept_bind (fun t ht => ?_) ?_
    · have hsilent : t.isEof = false ∧ Context.head.Silent t.lexeme .plain := by
        rw [Bool.or_eq_true] at ht
        rcases ht with ht | ht
        · have hlex : t.lexeme = .symbol .arrow := of_decide_eq_true ht
          rw [Token.isEof, hlex]
          exact ⟨rfl, fun _ _ => ⟨rfl, rfl⟩⟩
        · have hlex : t.lexeme = .symbol .thinArrow := of_decide_eq_true ht
          rw [Token.isEof, hlex]
          exact ⟨rfl, fun _ _ => ⟨rfl, rfl⟩⟩
      refine spells_skip_bind hsilent.1 hsilent.2 ?_
      refine Spells.bind hr.expression fun e => spells_pure ?_
      rw [Expr.mentions_function_expression]
    · exact spells_current_bind fun t _ _ _ => spells_failAt

theorem spells_functionLiteral (hr : r.Spell f) {t : Token} (ht : t.lexeme = .keyword .funcKw) :
    Spells f (· = t) .plain [] (functionLiteral r) .plain Expr.mentions := by
  rw [functionLiteral_eq]
  obtain ⟨_, text, pos⟩ := t
  cases ht
  refine spells_skip_bind rfl (fun _ _ => ⟨rfl, rfl⟩) ?_
  exact Spells.bind spells_parameters fun params => spells_functionBody hr _ _

theorem spells_tupleEntry (hr : r.Spell f) :
    Spells f anyToken .plain [] (tupleEntry r) .plain TupleEntry.mentions := by
  unfold tupleEntry
  refine Spells.bind hr.expression fun e => ?_
  split
  next pos name =>
    refine spells_acceptSymbol_bind (fun _ _ => ⟨rfl, rfl⟩) (fun t => ?_) (spells_pure rfl)
    exact Spells.bind hr.expression fun value => spells_pure rfl
  next => exact spells_pure rfl

theorem spells_primary (hr : r.Spell f) :
    Spells f pre .plain [] (primary r) .plain Expr.mentions := by
  unfold primary
  refine spells_current_bind ?_
  rintro ⟨lexeme, text, pos⟩ - - -
  dsimp only
  split
  next value => exact spells_take_bind rfl (spells_pure rfl)
  next => exact spells_take_bind rfl (spells_pure rfl)
  next =>
    refine spells_skip_bind rfl (fun _ _ => ⟨rfl, rfl⟩) ?_
    refine Spells.skip (spells_skipNewlines fun _ _ => ⟨rfl, rfl⟩) fun _ => ?_
    refine Spells.bind hr.expression fun e => ?_
    refine Spells.skip (spells_skipNewlines fun _ _ => ⟨rfl, rfl⟩) fun _ => ?_
    exact spells_expectSymbol_bind (fun _ _ => ⟨rfl, rfl⟩) fun _ => spells_pure rfl
  next =>
    refine spells_skip_bind rfl (fun _ _ => ⟨rfl, rfl⟩) ?_
    refine Spells.bind (spells_bracketed (fun _ _ => ⟨rfl, rfl⟩) (fun _ _ => ⟨rfl, rfl⟩)
      (fun _ _ => ⟨rfl, rfl⟩) hr.expression _) fun elements => spells_pure ?_
    rw [Expr.mentions_array, List.nil_append]
  next =>
    refine spells_skip_bind rfl (fun _ _ => ⟨rfl, rfl⟩) ?_
    refine Spells.bind (spells_bracketed (fun _ _ => ⟨rfl, rfl⟩) (fun _ _ => ⟨rfl, rfl⟩)
      (fun _ _ => ⟨rfl, rfl⟩) (spells_tupleEntry hr) _) fun entries => spells_pure ?_
    rw [Expr.mentions_tuple, List.nil_append]
  next => exact spells_functionLiteral hr rfl
  next => exact spells_failAt
  next => split <;> exact spells_failAt

/-! ## Members and type checks -/

theorem spells_position_bind {α : Type} {c c' : Context} {ds : List Char} {g : Member → Parser α}
    {result : α → List Mention}
    (hg : Spells f anyToken c before (g (.position (Decimal.toNat ds))) c' result) :
    Spells f anyToken c before (position ds >>= g) c' result := by
  unfold position
  split
  · intro s a s' _ _ hx
    cases hx
  · exact hg

/-- Behind the dot, a real is two positions. -/
theorem spells_member (target : Expr) (dot : Token) :
    Spells f pre .dot target.mentions (member target dot) .plain Expr.mentions := by
  unfold member
  refine spells_current_bind ?_
  rintro ⟨lexeme, text, pos⟩ - hnumber -
  dsimp only
  split
  next => exact spells_take_bind rfl (spells_pure rfl)
  next n =>
    have hvalue : n = Decimal.toNat text.toList := hnumber
    subst hvalue
    exact spells_take_bind rfl (spells_position_bind (spells_pure rfl))
  next x =>
    refine spells_take_bind rfl (spells_position_bind (spells_position_bind (spells_pure ?_)))
    have hparts := aroundPoint_eq hnumber rfl
    show _ ++ halves text = _
    rw [halves, hparts, Expr.mentions_member, Expr.mentions_member, List.append_assoc]
    rfl
  next => split <;> exact spells_failAt

theorem spells_indicator : Spells f pre .check [] indicator .plain indicatorMentions := by
  unfold indicator
  refine spells_current_bind fun t hgenuine _ _ => ?_
  split
  next hword =>
    obtain ⟨hmentions, hnext, hne⟩ := Context.mentions_indicator hword
    refine spells_take_bind hne ?_
    rw [hmentions, hnext, ← indicatorMentions_of_word hgenuine hword]
    exact spells_pure rfl
  next =>
    refine spells_acceptSymbol_bind (fun _ _ => ⟨rfl, rfl⟩) (fun _ => ?_) ?_
    · exact spells_expectSymbol_bind (fun _ _ => ⟨rfl, rfl⟩) fun _ => spells_pure rfl
    · refine spells_acceptSymbol_bind (fun _ _ => ⟨rfl, rfl⟩) (fun _ => ?_) spells_failAt
      exact spells_expectSymbol_bind (fun _ _ => ⟨rfl, rfl⟩) fun _ => spells_pure rfl

/-! ## Whole expressions -/

theorem spells_trailers (hr : r.Spell f) (rounds : Nat) (e : Expr) :
    Spells f pre .plain e.mentions (trailers r rounds e) .plain Expr.mentions := by
  induction rounds generalizing e pre with
  | zero => exact spells_throw
  | succ rounds ih =>
    unfold trailers
    refine spells_current_bind ?_
    rintro ⟨lexeme, text, pos⟩ - - -
    dsimp only
    split
    next =>
      refine spells_skip_bind rfl (fun _ _ => ⟨rfl, rfl⟩) ?_
      refine Spells.bind (spells_bracketed (fun _ _ => ⟨rfl, rfl⟩) (fun _ _ => ⟨rfl, rfl⟩)
        (fun _ _ => ⟨rfl, rfl⟩) hr.expression _) fun args => ?_
      rw [← Expr.mentions_call]
      exact ih _
    next =>
      refine spells_skip_bind rfl (fun _ _ => ⟨rfl, rfl⟩) ?_
      refine Spells.skip (spells_skipNewlines fun _ _ => ⟨rfl, rfl⟩) fun _ => ?_
      refine Spells.bind hr.expression fun index => ?_
      refine Spells.skip (spells_skipNewlines fun _ _ => ⟨rfl, rfl⟩) fun _ => ?_
      refine spells_expectSymbol_bind (fun _ _ => ⟨rfl, rfl⟩) fun _ => ?_
      rw [← Expr.mentions_index]
      exact ih _
    next =>
      refine spells_skip_bind rfl (fun _ _ => ⟨rfl, rfl⟩) ?_
      exact Spells.chain (spells_member e _) ih
    next =>
      refine spells_skip_bind rfl (fun _ _ => ⟨rfl, rfl⟩) ?_
      refine Spells.bind spells_indicator fun indicator => ?_
      rw [← Expr.mentions_typeCheck]
      exact ih _
    next => exact spells_pure rfl

theorem spells_unary (hr : r.Spell f) :
    Spells f pre .plain [] (unary r) .plain Expr.mentions := by
  unfold unary
  refine spells_current_bind fun t _ _ _ => ?_
  split
  next hop =>
    have hoperator : (isUnaryOp t || isProductOp t || isSumOp t || isComparisonOp t ||
      isLogicalOp t) = true := by simp [hop]
    obtain ⟨hmentions, hnext, hne⟩ := Context.mentions_operator hoperator
    refine spells_take_bind hne ?_
    rw [hmentions, hnext]
    exact Spells.bind hr.operand fun e => spells_pure rfl
  next => exact Spells.chain (spells_primary hr) fun e => spells_trailers hr _ e

theorem spells_expression (hr : r.Spell f) :
    Spells f pre .plain [] (expression r) .plain Expr.mentions := by
  unfold expression
  refine spells_joined (fun t ht => by simp [ht]) ?_ _
  refine spells_joined (fun t ht => by simp [ht]) ?_ _
  refine spells_joined (fun t ht => by simp [ht]) ?_ _
  exact spells_joined (fun t ht => by simp [ht]) (spells_unary hr) _

/-! ## Statements -/

/-- What a block mentions. -/
abbrev blockMentions (b : Block) : List Mention := Stmt.mentionsAll b.statements

theorem spells_blockUntilEnd (hr : r.Spell f) (opener : Token) :
    Spells f pre .plain [] (blockUntilEnd r opener) .plain blockMentions := by
  unfold blockUntilEnd
  exact Spells.bind (spells_statements hr .body) fun body => spells_pure rfl

theorem spells_varDef (hr : r.Spell f) :
    Spells f anyToken .plain [] (varDef r) .plain VarDef.mentions := by
  unfold varDef
  refine spells_expectName_bind (Or.inl rfl) fun name => ?_
  refine spells_acceptSymbol_bind (fun _ _ => ⟨rfl, rfl⟩) (fun _ => ?_) (spells_pure rfl)
  exact Spells.bind hr.expression fun e => spells_pure rfl

theorem spells_declaration (hr : r.Spell f) {t : Token} (ht : t.lexeme = .keyword .varKw) :
    Spells f (· = t) .plain [] (declaration r) .plain Stmt.mentions := by
  obtain ⟨_, text, pos⟩ := t
  cases ht
  unfold declaration
  refine spells_skip_bind rfl (fun _ _ => ⟨rfl, rfl⟩) ?_
  refine Spells.bind (spells_items (spells_pure rfl) (spells_varDef hr) _) fun vars =>
    spells_pure ?_
  rw [Stmt.mentions_declaration, List.nil_append]

theorem spells_print (hr : r.Spell f) {t : Token} (ht : t.lexeme = .keyword .printKw) :
    Spells f (· = t) .plain [] (print r) .plain Stmt.mentions := by
  obtain ⟨_, text, pos⟩ := t
  cases ht
  unfold print
  refine spells_skip_bind rfl (fun _ _ => ⟨rfl, rfl⟩) ?_
  refine Spells.bind (spells_items (spells_skipNewlines fun _ _ => ⟨rfl, rfl⟩) hr.expression _)
    fun values => spells_pure ?_
  rw [Stmt.mentions_print, List.nil_append]

theorem spells_conditional (hr : r.Spell f) {t : Token} (ht : t.lexeme = .keyword .ifKw) :
    Spells f (· = t) .plain [] (conditional r) .plain Stmt.mentions := by
  obtain ⟨_, text, pos⟩ := t
  cases ht
  unfold conditional
  refine spells_skip_bind rfl (fun _ _ => ⟨rfl, rfl⟩) ?_
  refine Spells.bind hr.expression fun condition => ?_
  refine spells_acceptKeyword_bind (fun _ _ => ⟨rfl, rfl⟩) (fun thenWord => ?_) ?_
  · refine Spells.bind (spells_statements hr .branch) fun body => ?_
    refine spells_acceptKeyword_bind (fun _ _ => ⟨rfl, rfl⟩) (fun elseWord => ?_) ?_
    · refine Spells.bind (spells_blockUntilEnd hr elseWord) fun ⟨_, other⟩ => ?_
      exact spells_expectKeyword_bind (fun _ _ => ⟨rfl, rfl⟩) fun _ => spells_pure rfl
    · exact spells_expectKeyword_bind (fun _ _ => ⟨rfl, rfl⟩) fun _ => spells_pure rfl
  · refine spells_acceptSymbol_bind (fun _ _ => ⟨rfl, rfl⟩) (fun arrow => ?_) ?_
    · refine Spells.bind hr.statement fun s => spells_pure ?_
      rw [Stmt.mentions_conditional_one, List.nil_append]
    · exact spells_current_bind fun t _ _ _ => spells_failAt

theorem spells_loopBody (hr : r.Spell f) :
    Spells f pre .plain [] (loopBody r) .plain blockMentions := by
  unfold loopBody
  refine spells_expectKeyword_bind (fun _ _ => ⟨rfl, rfl⟩) fun opener => ?_
  refine Spells.bind (spells_blockUntilEnd hr opener) fun body => ?_
  exact spells_expectKeyword_bind (fun _ _ => ⟨rfl, rfl⟩) fun _ => spells_pure rfl

theorem spells_whileLoop (hr : r.Spell f) {t : Token} (ht : t.lexeme = .keyword .whileKw) :
    Spells f (· = t) .plain [] (whileLoop r) .plain Stmt.mentions := by
  obtain ⟨_, text, pos⟩ := t
  cases ht
  unfold whileLoop
  refine spells_skip_bind rfl (fun _ _ => ⟨rfl, rfl⟩) ?_
  refine Spells.bind hr.expression fun condition => ?_
  exact Spells.bind (spells_loopBody hr) fun ⟨_, body⟩ => spells_pure rfl

theorem spells_loopSource (hr : r.Spell f) :
    Spells f pre .plain [] (loopSource r) .plain
      fun o => o.1.toList.map .name ++ o.2.mentions := by
  unfold loopSource
  refine Spells.bind hr.expression.of_any fun e => ?_
  split
  next pos name =>
    refine spells_acceptKeyword_bind (fun _ _ => ⟨rfl, rfl⟩) (fun _ => ?_) (spells_pure rfl)
    exact Spells.bind hr.expression fun source => spells_pure rfl
  next => exact spells_pure rfl

theorem spells_forLoop (hr : r.Spell f) {t : Token} (ht : t.lexeme = .keyword .forKw) :
    Spells f (· = t) .plain [] (forLoop r) .plain Stmt.mentions := by
  obtain ⟨_, text, pos⟩ := t
  cases ht
  unfold forLoop
  refine spells_skip_bind rfl (fun _ _ => ⟨rfl, rfl⟩) ?_
  refine spells_current_bind fun t _ _ _ => ?_
  split
  · exact spells_failAt
  · refine Spells.bind (spells_loopSource hr) fun o => ?_
    obtain ⟨loopVar, source⟩ := o
    refine spells_acceptSymbol_bind (fun _ _ => ⟨rfl, rfl⟩) (fun _ => ?_) ?_
    · refine Spells.bind hr.expression fun rangeEnd => ?_
      refine Spells.bind (spells_loopBody hr) fun ⟨_, body⟩ => spells_pure ?_
      rw [Stmt.mentions_forLoop_range, List.nil_append]
    · refine Spells.bind (spells_loopBody hr) fun ⟨_, body⟩ => spells_pure ?_
      rw [Stmt.mentions_forLoop_elements, List.nil_append]

theorem spells_endlessLoop (hr : r.Spell f) :
    Spells f pre .plain [] (endlessLoop r) .plain Stmt.mentions := by
  unfold endlessLoop
  refine spells_current_bind fun start _ _ _ => ?_
  exact Spells.bind (spells_loopBody hr) fun ⟨_, body⟩ => spells_pure rfl

theorem spells_returnStmt (hr : r.Spell f) {t : Token} (ht : t.lexeme = .keyword .returnKw) :
    Spells f (· = t) .plain [] (returnStmt r) .plain Stmt.mentions := by
  obtain ⟨_, text, pos⟩ := t
  cases ht
  unfold returnStmt
  refine spells_skip_bind rfl (fun _ _ => ⟨rfl, rfl⟩) ?_
  refine spells_current_bind fun t _ _ _ => ?_
  split
  · exact spells_pure rfl
  · exact Spells.bind hr.expression.of_any fun e => spells_pure rfl

theorem spells_assignment (hr : r.Spell f) :
    Spells f pre .plain [] (assignment r) .plain Stmt.mentions := by
  unfold assignment
  refine spells_current_bind fun start _ _ _ => ?_
  refine Spells.bind hr.expression.of_any fun e => ?_
  refine spells_acceptSymbol_bind (fun _ _ => ⟨rfl, rfl⟩) (fun _ => ?_) (spells_pure rfl)
  dsimp only
  split
  · exact Spells.bind hr.expression fun value => spells_pure rfl
  · exact spells_failAt

theorem spells_statement (hr : r.Spell f) :
    Spells f pre .plain [] (statement r) .plain Stmt.mentions := by
  unfold statement
  refine spells_current_bind ?_
  rintro ⟨lexeme, text, pos⟩ - - -
  dsimp only
  split
  next => exact spells_declaration hr rfl
  next => exact spells_print hr rfl
  next => exact spells_conditional hr rfl
  next => exact spells_whileLoop hr rfl
  next => exact spells_forLoop hr rfl
  next => exact spells_endlessLoop hr
  next => exact spells_returnStmt hr rfl
  next => exact spells_skip_bind rfl (fun _ _ => ⟨rfl, rfl⟩) (spells_pure rfl)
  next => exact spells_skip_bind rfl (fun _ _ => ⟨rfl, rfl⟩) (spells_pure rfl)
  next => exact spells_assignment hr

/-! ## All levels -/

theorem spell_ofLevel (f : Feed) (rounds level : Nat) : (Rules.ofLevel rounds level).Spell f := by
  induction level with
  | zero => exact ⟨spells_throw, spells_throw, spells_throw⟩
  | succ level ih => exact ⟨spells_expression ih, spells_unary ih, spells_statement ih⟩

end Grammar

/-! ## Whole programs -/

/-- A program mentions what the tokens before the end of its text mention. -/
theorem mentions_of_parse {limits : Limits} {source : String} {p : Program}
    (h : parse source limits = .ok p) :
    ∃ eof, (Feed.ofText source).ending = .ok eof ∧ eof.isEof = true ∧
      mentionsOf (Feed.ofText source).tokens = p.mentions := by
  obtain ⟨s, s', hs, hrun⟩ := exists_of_parse h
  obtain ⟨hwithin, hfirst⟩ := Grammar.Stream.Within.ofFeed (Feed.clean_ofText source) hs
  obtain ⟨hwithin', hall⟩ :=
    Grammar.spells_statements (Grammar.spell_ofLevel _ _ _) .file s _ s' hwithin rfl hrun
  -- The statements of a file are read up to the end of the text, so no token is left over.
  obtain ⟨_, s₁, -, hmore⟩ := Grammar.bind_eq_ok.mp hrun
  have hstops := Grammar.isEof_of_moreStatements hmore
  obtain ⟨hending, hlast⟩ := hwithin'.atEnd hstops
  refine ⟨s'.current, hending, hstops, ?_⟩
  rw [hfirst, hlast, List.nil_append, List.append_nil] at hall
  exact hall

/-- Parsing loses nothing, adds nothing and changes no order: the names, literals, operators and
type indicators of an accepted text are, one by one, those of its program. -/
theorem parse_keeps_mentions (limits : Limits) (source : String) (p : Program)
    (h : parse source limits = .ok p) :
    ∃ tokens, tokenize source = .ok tokens ∧ mentionsOf tokens = p.mentions := by
  obtain ⟨eof, hending, heof, hmentions⟩ := mentions_of_parse h
  refine ⟨(Feed.ofText source).tokens ++ [eof], ?_, ?_⟩
  · rw [tokenize, Feed.toTokens, hending]
    rfl
  · rw [mentionsOf, Context.mentionsAll_append_eof .plain _ (of_decide_eq_true heof)]
    exact hmentions

/-- A text in which readings depend on what stands before: a member at two positions, words and
brackets behind type checks, and a body behind the head of a function. -/
theorem parse_keeps_mentions_reread :
    let source :=
      "for v in t.1.20 loop f := func (a, b) is return not a is func is none end; t.n is [] end"
    ∃ p, parse source = .ok p ∧
      (∃ tokens, tokenize source = .ok tokens ∧ mentionsOf tokens = p.mentions) ∧
      p.mentions = [.name "v", .name "t", .literal (.int 1), .literal (.int 20),
        .name "f", .name "a",
        .name "b", .operator "not", .name "a", .indicator "func", .indicator "none", .name "t",
        .name "n"] := by
  intro source
  have heval : (parse source).map Program.mentions = .ok [.name "v", .name "t", .literal (.int 1),
      .literal (.int 20), .name "f", .name "a", .name "b", .operator "not", .name "a",
      .indicator "func", .indicator "none", .name "t", .name "n"] := by
    decide +kernel
  cases hparse : parse source with
  | error e =>
    rw [hparse] at heval
    cases heval
  | ok p =>
    rw [hparse] at heval
    exact ⟨p, rfl, parse_keeps_mentions .standard source p hparse, Except.ok.inj heval⟩

end Dee
