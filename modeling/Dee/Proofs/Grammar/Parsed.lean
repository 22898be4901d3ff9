import Dee.Proofs.Grammar.Source

/-!
# What parsing gives

Statements, and whole programs: a program that was parsed is well-formed and written at places of
its text. `Program.Parsed` collects what the later stages rely on.
-/

namespace Dee

variable {okPos : Pos → Bool}

namespace Grammar

variable {r : Rules} {pre : Token → Prop}

/-! ## Statements -/

/-- A token that passes a test is at a position that passes the other test. -/
theorem okPos_of_keyword {t : Token} {k : Keyword} (h : t.At okPos ∧ t.isKeyword k = true) :
    okPos t.pos = true := by
  have hlex : t.lexeme = .keyword k := by simpa [Token.isKeyword] using h.2
  exact h.1.pos hlex (by simp)

theorem okPos_of_symbol {t : Token} {s : Symbol} (h : t.At okPos ∧ t.isSymbol s = true) :
    okPos t.pos = true := by
  have hlex : t.lexeme = .symbol s := by simpa [Token.isSymbol] using h.2
  exact h.1.pos hlex (by simp)

theorem gives_blockUntilEnd (hr : r.Builds okPos) (opener : Token) :
    Gives (Token.At okPos) pre (blockUntilEnd r opener) fun b => b.pos = opener.pos ∧
      Stmt.everywhereAll (Expr.isSource okPos) (Stmt.isSource okPos) b.statements = true := by
  unfold blockUntilEnd
  exact Gives.bind (gives_statements hr .body) fun body hbody => gives_pure ⟨rfl, hbody⟩

theorem gives_varDef (hr : r.Builds okPos) :
    Gives (Token.At okPos) anyToken (varDef r) fun v => isIdentifier v.name = true ∧
      Expr.everywhereOption (Expr.isSource okPos) (Stmt.isSource okPos) v.initializer = true := by
  unfold varDef
  refine Gives.bind gives_expectName fun name hname => ?_
  refine Gives.bind (gives_accept _) fun o _ => ?_
  cases o with
  | some _ =>
    exact Gives.bind hr.expression fun e he => gives_pure ⟨hname.1.name hname.2, he⟩
  | none => exact gives_pure ⟨hname.1.name hname.2, rfl⟩

/-- A statement that starts with a token before the end. -/
abbrev beforeEnd (t : Token) : Prop := t.isEof = false

theorem gives_declaration (hr : r.Builds okPos) :
    Gives (Token.At okPos) beforeEnd (declaration r) (Stmt.Source okPos) := by
  unfold declaration
  refine Gives.bind gives_advance fun start hstart => ?_
  refine Gives.bind (gives_items (gives_pure trivial) (gives_varDef hr) _) fun vars hvars => ?_
  refine gives_pure ?_
  refine Stmt.everywhere_declaration.mpr ⟨Stmt.isSource_iff.mpr ⟨?_, rfl, ?_⟩,
    VarDef.everywhereAll_iff.mpr fun v hv => (hvars.1 v hv).2⟩
  · rw [Stmt.isWellFormed, Bool.and_eq_true, List.all_eq_true]
    exact ⟨by simpa using hvars.2, fun v hv => (hvars.1 v hv).1⟩
  · simpa [Stmt.positions, Stmt.pos] using hstart.1.2 hstart.2

theorem gives_print (hr : r.Builds okPos) :
    Gives (Token.At okPos) beforeEnd (print r) (Stmt.Source okPos) := by
  unfold print
  refine Gives.bind gives_advance fun start hstart => ?_
  refine Gives.bind (gives_items (gives_skipWhile _) hr.expression _) fun values hvalues => ?_
  refine gives_pure ?_
  refine Stmt.everywhere_print.mpr
    ⟨Stmt.isSource_iff.mpr ⟨?_, rfl, ?_⟩, Expr.everywhereAll_iff.mpr hvalues.1⟩
  · simpa [Stmt.isWellFormed] using hvalues.2
  · simpa [Stmt.positions, Stmt.pos] using hstart.1.2 hstart.2

theorem gives_conditional (hr : r.Builds okPos) :
    Gives (Token.At okPos) beforeEnd (conditional r) (Stmt.Source okPos) := by
  unfold conditional
  refine Gives.bind gives_advance fun start hstart => ?_
  have hpos := hstart.1.2 hstart.2
  refine Gives.bind hr.expression fun condition hcondition => ?_
  refine Gives.bind (gives_accept _) fun o ho => ?_
  cases o with
  | some thenWord =>
    have hthen := okPos_of_keyword (ho thenWord rfl)
    refine Gives.bind (gives_statements hr .branch) fun body hbody => ?_
    refine Gives.bind (gives_accept _) fun o' ho' => ?_
    cases o' with
    | some elseWord =>
      have helse := okPos_of_keyword (ho' elseWord rfl)
      refine Gives.bind (gives_blockUntilEnd hr elseWord) fun other hother => ?_
      refine Gives.bind (gives_expect _ _) fun _ _ => gives_pure ?_
      obtain ⟨elsePos, other⟩ := other
      refine Stmt.everywhere_conditional_some.mpr
        ⟨Stmt.isSource_iff.mpr ⟨rfl, rfl, ?_⟩, hcondition, hbody, hother.2⟩
      have hsame : elsePos = elseWord.pos := hother.1
      simp [Stmt.positions, hpos, hthen, hsame, helse]
    | none =>
      refine Gives.bind (gives_expect _ _) fun _ _ => gives_pure ?_
      refine Stmt.everywhere_conditional_none.mpr
        ⟨Stmt.isSource_iff.mpr ⟨rfl, rfl, ?_⟩, hcondition, hbody⟩
      simp [Stmt.positions, hpos, hthen]
  | none =>
    refine Gives.bind (gives_accept _) fun o' ho' => ?_
    cases o' with
    | some arrow =>
      have harrow := okPos_of_symbol (ho' arrow rfl)
      refine Gives.bind hr.statement fun s hs => gives_pure ?_
      refine Stmt.everywhere_conditional_none.mpr
        ⟨Stmt.isSource_iff.mpr ⟨rfl, rfl, ?_⟩, hcondition, ?_⟩
      · simp [Stmt.positions, hpos, harrow]
      · exact Stmt.everywhereAll_iff.mpr (by simpa using hs)
    | none => exact gives_current_bind fun t _ _ => gives_failAt

theorem gives_loopBody (hr : r.Builds okPos) :
    Gives (Token.At okPos) pre (loopBody r) fun b => okPos b.pos = true ∧
      Stmt.everywhereAll (Expr.isSource okPos) (Stmt.isSource okPos) b.statements = true := by
  unfold loopBody
  refine Gives.bind (gives_expect _ _) fun opener hopener => ?_
  refine Gives.bind (gives_blockUntilEnd hr opener) fun body hbody => ?_
  refine Gives.bind (gives_expect _ _) fun _ _ => gives_pure ⟨?_, hbody.2⟩
  rw [hbody.1]
  exact okPos_of_keyword hopener

theorem gives_whileLoop (hr : r.Builds okPos) :
    Gives (Token.At okPos) beforeEnd (whileLoop r) (Stmt.Source okPos) := by
  unfold whileLoop
  refine Gives.bind gives_advance fun start hstart => ?_
  refine Gives.bind hr.expression fun condition hcondition => ?_
  refine Gives.bind (gives_loopBody hr) fun body hbody => gives_pure ?_
  obtain ⟨bodyPos, body⟩ := body
  refine Stmt.everywhere_whileLoop.mpr ⟨Stmt.isSource_iff.mpr ⟨rfl, rfl, ?_⟩, hcondition, hbody.2⟩
  have hbodyPos : okPos bodyPos = true := hbody.1
  simp [Stmt.positions, hstart.1.2 hstart.2, hbodyPos]

theorem gives_loopSource (hr : r.Builds okPos) :
    Gives (Token.At okPos) pre (loopSource r) fun o =>
      o.1.all isIdentifier = true ∧ o.2.Source okPos := by
  unfold loopSource
  refine Gives.bind hr.expression.of_any fun e he => ?_
  split
  next pos name =>
    refine Gives.bind (gives_accept _) fun o _ => ?_
    cases o with
    | some _ =>
      refine Gives.bind hr.expression fun source hsource => gives_pure ?_
      exact ⟨by simpa using isIdentifier_of_source he, hsource⟩
    | none => exact gives_pure ⟨rfl, he⟩
  next => exact gives_pure ⟨rfl, he⟩

theorem source_forLoop {pos : Pos} {loopVar : Option String} {body : Block}
    {iterable rangeEnd : Option Expr} (hpos : okPos pos = true)
    (hshape : (Stmt.forLoop pos loopVar body iterable rangeEnd).isWellFormed = true)
    (hbody : okPos body.pos = true ∧
      Stmt.everywhereAll (Expr.isSource okPos) (Stmt.isSource okPos) body.statements = true)
    (hiterable :
      Expr.everywhereOption (Expr.isSource okPos) (Stmt.isSource okPos) iterable = true)
    (hrange : Expr.everywhereOption (Expr.isSource okPos) (Stmt.isSource okPos) rangeEnd = true) :
    (Stmt.forLoop pos loopVar body iterable rangeEnd).Source okPos := by
  obtain ⟨bodyPos, body⟩ := body
  refine Stmt.everywhere_forLoop.mpr
    ⟨Stmt.isSource_iff.mpr ⟨hshape, rfl, ?_⟩, hiterable, hrange, hbody.2⟩
  have hbodyPos : okPos bodyPos = true := hbody.1
  simp [Stmt.positions, hpos, hbodyPos]

theorem gives_forLoop (hr : r.Builds okPos) :
    Gives (Token.At okPos) beforeEnd (forLoop r) (Stmt.Source okPos) := by
  unfold forLoop
  refine Gives.bind gives_advance fun start hstart => ?_
  have hpos := hstart.1.2 hstart.2
  refine gives_current_bind fun t _ _ => ?_
  split
  · exact gives_failAt
  · refine Gives.bind (gives_loopSource hr) fun o ho => ?_
    obtain ⟨loopVar, source⟩ := o
    refine Gives.bind (gives_accept _) fun o' _ => ?_
    cases o' with
    | some _ =>
      refine Gives.bind hr.expression fun rangeEnd hrange => ?_
      refine Gives.bind (gives_loopBody hr) fun body hbody => gives_pure ?_
      refine source_forLoop hpos ?_ hbody ho.2 hrange
      rw [Stmt.isWellFormed, ho.1]
      rfl
    | none =>
      refine Gives.bind (gives_loopBody hr) fun body hbody => gives_pure ?_
      refine source_forLoop hpos ?_ hbody ho.2 rfl
      rw [Stmt.isWellFormed, ho.1]
      rfl

theorem gives_endlessLoop (hr : r.Builds okPos) :
    Gives (Token.At okPos) beforeEnd (endlessLoop r) (Stmt.Source okPos) := by
  unfold endlessLoop
  refine gives_current_bind fun start hstart hbefore => ?_
  refine Gives.bind (gives_loopBody hr) fun body hbody => gives_pure ?_
  exact source_forLoop (hstart.2 hbefore) rfl hbody rfl rfl

theorem gives_returnStmt (hr : r.Builds okPos) :
    Gives (Token.At okPos) beforeEnd (returnStmt r) (Stmt.Source okPos) := by
  unfold returnStmt
  refine Gives.bind gives_advance fun start hstart => ?_
  have hpos := hstart.1.2 hstart.2
  refine gives_current_bind fun t _ _ => ?_
  split
  · refine gives_pure ?_
    exact Stmt.everywhere_returnStmt.mpr
      ⟨Stmt.isSource_iff.mpr ⟨rfl, rfl, by simp [Stmt.positions, Stmt.pos, hpos]⟩, rfl⟩
  · refine Gives.bind hr.expression.of_any fun e he => gives_pure ?_
    exact Stmt.everywhere_returnStmt.mpr
      ⟨Stmt.isSource_iff.mpr ⟨rfl, rfl, by simp [Stmt.positions, Stmt.pos, hpos]⟩, he⟩

theorem gives_assignment (hr : r.Builds okPos) :
    Gives (Token.At okPos) pre (assignment r) (Stmt.Source okPos) := by
  unfold assignment
  refine gives_current_bind fun start hstart _ => ?_
  -- An expression that was taken did not start at the end, so its first token is at a place.
  have hfirst : Gives (Token.At okPos) (· = start) r.expression fun e =>
      e.Source okPos ∧ okPos start.pos = true := by
    rintro s e s' hs rfl hx
    obtain ⟨hs', he⟩ := hr.expression s e s' hs trivial hx
    refine ⟨hs', he, hstart.2 ?_⟩
    cases hend : s.current.isEof with
    | false => rfl
    | true => exact absurd hx (hr.notAtEnd s e s' hend)
  refine Gives.bind hfirst fun e he => ?_
  refine Gives.bind (gives_accept _) fun o _ => ?_
  cases o with
  | none =>
    refine gives_pure ?_
    exact Stmt.everywhere_expr.mpr
      ⟨Stmt.isSource_iff.mpr ⟨rfl, rfl, by simp [Stmt.positions, Stmt.pos, he.2]⟩, he.1⟩
  | some _ =>
    dsimp only
    split
    next htarget =>
      refine Gives.bind hr.expression fun value hvalue => gives_pure ?_
      exact Stmt.everywhere_assign.mpr
        ⟨Stmt.isSource_iff.mpr ⟨htarget, rfl, by simp [Stmt.positions, Stmt.pos, he.2]⟩,
          he.1, hvalue⟩
    next => exact gives_failAt

/-- A jump without a value. -/
theorem source_jump {pos : Pos} (hpos : okPos pos = true) :
    (Stmt.exitStmt pos).Source okPos ∧ (Stmt.continueStmt pos).Source okPos := by
  constructor
  · exact Stmt.isSource_iff.mpr ⟨rfl, rfl, by simp [Stmt.positions, Stmt.pos, hpos]⟩
  · exact Stmt.isSource_iff.mpr ⟨rfl, rfl, by simp [Stmt.positions, Stmt.pos, hpos]⟩

theorem Gives.of_lexeme {α : Type} {x : Parser α} {ok : α → Prop} {t : Token} {k : Keyword}
    (h : Gives (Token.At okPos) beforeEnd x ok) (ht : t.lexeme = .keyword k) :
    Gives (Token.At okPos) (· = t) x ok := by
  rintro s a s' hs rfl hx
  refine h s a s' hs ?_ hx
  show s.current.isEof = false
  rw [Token.isEof, ht]
  rfl

theorem gives_statement (hr : r.Builds okPos) :
    Gives (Token.At okPos) pre (statement r) (Stmt.Source okPos) := by
  unfold statement
  refine gives_current_bind fun t ht _ => ?_
  split
  next hlex => exact (gives_declaration hr).of_lexeme hlex
  next hlex => exact (gives_print hr).of_lexeme hlex
  next hlex => exact (gives_conditional hr).of_lexeme hlex
  next hlex => exact (gives_whileLoop hr).of_lexeme hlex
  next hlex => exact (gives_forLoop hr).of_lexeme hlex
  next hlex => exact (gives_endlessLoop hr).of_lexeme hlex
  next hlex => exact (gives_returnStmt hr).of_lexeme hlex
  next hlex =>
    refine Gives.bind gives_advance fun _ _ => gives_pure ?_
    exact (source_jump (ht.pos hlex (by simp))).1
  next hlex =>
    refine Gives.bind gives_advance fun _ _ => gives_pure ?_
    exact (source_jump (ht.pos hlex (by simp))).2
  next => exact gives_assignment hr

/-! ## All levels -/

theorem builds_ofLevel (okPos : Pos → Bool) (rounds level : Nat) :
    (Rules.ofLevel rounds level).Builds okPos := by
  induction level with
  | zero =>
    refine ⟨gives_throw, gives_throw, gives_throw, ?_⟩
    intro s a s' _ h
    cases h
  | succ level ih =>
    exact ⟨gives_expression ih, gives_unary ih, gives_statement ih, expression_notAtEnd⟩

theorem Stream.all_ofFeed {T : Token → Prop} {f : Feed} {s : Stream}
    (htokens : ∀ t ∈ f.tokens, T t) (hending : ∀ t, f.ending = .ok t → T t)
    (h : Stream.ofFeed f = .ok s) : s.All T := by
  obtain ⟨tokens, ending⟩ := f
  cases tokens with
  | cons t rest =>
    cases h
    exact ⟨htokens t (by simp), fun u hu => htokens u (by simp [hu]), hending⟩
  | nil =>
    cases ending with
    | error e => cases h
    | ok eof =>
      cases h
      exact ⟨hending eof rfl, by simp, hending⟩

end Grammar

/-! ## Whole programs -/

/-- A parsed program is the list of statements that the text runs up to its end with. -/
theorem exists_of_parse {limits : Limits} {source : String} {p : Program}
    (h : parse source limits = .ok p) :
    ∃ s s', Grammar.Stream.ofFeed (Feed.ofText source) = .ok s ∧
      Grammar.statements (Grammar.Rules.ofLevel ((Feed.ofText source).tokens.length + 1)
        limits.nesting) .file s = .ok (p.statements, s') := by
  unfold parse Grammar.parseFeed at h
  cases hs : Grammar.Stream.ofFeed (Feed.ofText source) with
  | error e => rw [hs] at h; cases h
  | ok s =>
    rw [hs] at h
    cases hx : (Grammar.statements (Grammar.Rules.ofLevel
        ((Feed.ofText source).tokens.length + 1) limits.nesting) .file).run s with
    | error e =>
      simp only [bind, Except.bind, hx] at h
      cases h
    | ok result =>
      simp only [bind, Except.bind, hx] at h
      cases h
      exact ⟨s, result.2, rfl, hx⟩

/-- Every node of a parsed program can come out of a source text, at positions that the tokens of
the text before its end are at. -/
theorem source_of_parse (okPos : Pos → Bool) {limits : Limits} {source : String} {p : Program}
    (h : parse source limits = .ok p)
    (hpos : ∀ t ∈ (Feed.ofText source).tokens, okPos t.pos = true)
    (hend : ∀ t, (Feed.ofText source).ending = .ok t → t.isEof = false → okPos t.pos = true) :
    p.everywhere (Expr.isSource okPos) (Stmt.isSource okPos) = true := by
  obtain ⟨hgenuine, hgenuineEnd⟩ := Feed.genuine_ofText source
  obtain ⟨s, s', hs, hrun⟩ := exists_of_parse h
  have hall : s.All (Token.At okPos) :=
    Grammar.Stream.all_ofFeed (fun t ht => ⟨(hgenuine t ht).1, fun _ => hpos t ht⟩)
      (fun t ht => ⟨(hgenuineEnd t ht).1, hend t ht⟩) hs
  have hr := Grammar.builds_ofLevel okPos ((Feed.ofText source).tokens.length + 1)
    limits.nesting
  have hgives : Grammar.Gives (Token.At okPos) Grammar.anyToken _ _ :=
    Grammar.gives_statements hr .file
  exact (hgives s p.statements s' hall trivial hrun).2

/-- A parsed program is well-formed. -/
theorem wellFormed_of_parse {limits : Limits} {source : String} {p : Program}
    (h : parse source limits = .ok p) : p.WellFormed := by
  have hsource := source_of_parse (fun _ => true) h (fun _ _ => rfl) fun _ _ _ => rfl
  refine Stmt.everywhereAll_mono ?_ ?_ p.statements hsource
  · intro e he
    exact (Expr.isSource_iff.mp he).1
  · intro s hs
    exact (Stmt.isSource_iff.mp hs).1

end Dee
