import Dee.Proofs.Printing.Expressions

/-!
# Printed statements

Each form of statement is readable if its parts are: its first token tells the form, and no part
goes on beyond the piece that follows it.
-/

namespace Dee.Grammar

variable {S : Setting} {ps qs : List Piece} {p : Piece} {next : Token → Prop}
    {level : Nat} {pos : Pos}

/-! ## Tokens behind parts -/

/-- Before a keyword that goes on with nothing, an expression ends. -/
theorem stops_keyword {k : Keyword} (h : lexemeStrength (.keyword k) = 0) :
    ∀ t, Opens (.keyword k :: qs) next t → Stops 1 t := by
  intro t ht
  have hlexeme : t.lexeme = .keyword k := ht
  exact stops_of_strength (by rw [hlexeme, h]; decide)

/-- Before a symbol that goes on with nothing, an expression ends. -/
theorem stops_symbol {s : Symbol} (h : lexemeStrength (.symbol s) = 0) :
    ∀ t, Opens (.symbol s :: qs) next t → Stops 1 t := by
  intro t ht
  have hlexeme : t.lexeme = .symbol s := ht
  exact stops_of_strength (by rw [hlexeme, h]; decide)

theorem isKeyword_of_isToken {k : Keyword} : ∀ t, (Piece.keyword k).IsToken t →
    t.isKeyword k = true :=
  fun _ ht => decide_eq_true ht

/-- The tokens that may stand behind a statement. -/
theorem AfterStatement.lexeme {t : Token} (h : AfterStatement t) :
    t.lexeme = .newline ∨ t.lexeme = .symbol .semicolon ∨ t.lexeme = .keyword .endKw ∨
      t.lexeme = .keyword .elseKw ∨ t.lexeme = .eof := by
  rcases h with h | h
  · rw [Token.isSeparator, Bool.or_eq_true] at h
    rcases h with h | h
    · exact Or.inl (of_decide_eq_true h)
    · exact Or.inr (Or.inl (of_decide_eq_true h))
  · rw [endsStatement, Bool.or_eq_true, Bool.or_eq_true] at h
    rcases h with (h | h) | h
    · exact Or.inr (Or.inr (Or.inl (of_decide_eq_true h)))
    · exact Or.inr (Or.inr (Or.inr (Or.inl (of_decide_eq_true h))))
    · exact Or.inr (Or.inr (Or.inr (Or.inr (of_decide_eq_true h))))

theorem AfterStatement.stops {t : Token} (h : AfterStatement t) : Stops 1 t := by
  refine stops_of_strength ?_
  rcases h.lexeme with h | h | h | h | h <;> rw [h] <;> decide

theorem AfterStatement.isSymbol {t : Token} (h : AfterStatement t) {s : Symbol}
    (hs : s ≠ .semicolon) : t.isSymbol s = false := by
  refine decide_eq_false ?_
  rcases h.lexeme with h | h | h | h | h <;> rw [h] <;> simp [hs.symm]

/-- An item of a list that a statement ends with is followed by a comma, or by what follows the
statement. -/
theorem stops_afterItem {t : Token} (h : AfterItem AfterStatement t) : Stops 1 t := by
  rcases h with h | h
  · exact stops_of_strength (by rw [h]; decide)
  · exact h.stops

/-! ## Blocks -/

section Blocks

variable {body : List Stmt}

theorem reads_blockUntilEnd (h : ∀ s ∈ body, ReadableStmt S s)
    (hlevel : Stmt.nestingAll body ≤ level)
    (opener : Token) :
    Reads S (blockUntilEnd (S.rules level) opener) (Piece.lines (Stmt.piecesAll body))
      (Opens (.keyword .endKw :: qs) next)
      fun b => Stmt.eraseAll b.statements = Stmt.eraseAll body := by
  unfold blockUntilEnd
  exact (reads_statements h hlevel isKeyword_of_isToken).bind_pure fun ss hss => hss

theorem reads_loopBody (h : ∀ s ∈ body, ReadableStmt S s) (hlevel : Stmt.nestingAll body ≤ level) :
    Reads S (loopBody (S.rules level))
      (.keyword .loopKw :: (Piece.lines (Stmt.piecesAll body) ++ [.keyword .endKw])) next
      fun b => Stmt.eraseAll b.statements = Stmt.eraseAll body := by
  unfold loopBody expectEnd
  refine Reads.bind_cons (reads_expect isKeyword_of_isToken) fun opener _ => ?_
  refine Reads.bind (reads_blockUntilEnd h hlevel opener) fun b hb => ?_
  exact Reads.bind_pure (reads_expect isKeyword_of_isToken) fun _ _ => hb

/-! ## Conditionals -/

theorem readable_conditional_none {condition : Expr} {thenPos : Pos} (hc : Readable S condition)
    (h : ∀ s ∈ body, ReadableStmt S s) :
    ReadableStmt S (.conditional pos condition ⟨thenPos, body⟩ none) := by
  refine ⟨?_, fun level hlevel => ?_⟩
  · rw [Stmt.pieces]
    exact heads_of_lexeme (.keyword .ifKw) rfl fun _ ht => ht
  · rw [Stmt.nesting, Nat.max_le] at hlevel
    rw [Stmt.pieces]
    unfold statement
    refine reads_current_bind fun t ht => ?_
    have hlexeme : t.lexeme = .keyword .ifKw := ht
    simp only [hlexeme]
    unfold conditional
    refine Reads.bind_cons reads_advance fun start _ => ?_
    refine Reads.bind ((hc.nested hlevel.1).before (stops_keyword rfl)) fun c hc => ?_
    refine Reads.bind_cons (reads_accept isKeyword_of_isToken) fun o ho => ?_
    obtain ⟨thenWord, rfl, -⟩ := ho
    have hend : ∀ u, Opens [Piece.keyword .endKw] AfterStatement u →
        Closing.branch.stops u = true ∧ u.isKeyword .elseKw = false := by
      intro u hu
      have hu' : u.lexeme = .keyword .endKw := hu
      simp [Closing.stops, Token.isKeyword, hu']
    refine Reads.bind (reads_statements h hlevel.2 fun u hu => (hend u hu).1) fun ss hss => ?_
    refine Reads.bind_nil (reads_accept_none fun u hu => (hend u hu).2) fun o ho => ?_
    subst ho
    refine Reads.bind_pure (reads_expect isKeyword_of_isToken) fun _ _ => ?_
    simp only [Stmt.erase, hc, hss]

theorem readable_conditional_some {condition : Expr} {thenPos elsePos : Pos} {other : List Stmt}
    (hc : Readable S condition) (h : ∀ s ∈ body, ReadableStmt S s)
    (hother : ∀ s ∈ other, ReadableStmt S s) :
    ReadableStmt S (.conditional pos condition ⟨thenPos, body⟩ (some ⟨elsePos, other⟩)) := by
  refine ⟨?_, fun level hlevel => ?_⟩
  · rw [Stmt.pieces]
    exact heads_of_lexeme (.keyword .ifKw) rfl fun _ ht => ht
  · rw [Stmt.nesting, Nat.max_le, Nat.max_le] at hlevel
    rw [Stmt.pieces]
    unfold statement
    refine reads_current_bind fun t ht => ?_
    have hlexeme : t.lexeme = .keyword .ifKw := ht
    simp only [hlexeme]
    unfold conditional expectEnd
    refine Reads.bind_cons reads_advance fun start _ => ?_
    refine Reads.bind ((hc.nested hlevel.1).before (stops_keyword rfl)) fun c hc => ?_
    refine Reads.bind_cons (reads_accept isKeyword_of_isToken) fun o ho => ?_
    obtain ⟨thenWord, rfl, -⟩ := ho
    refine Reads.bind (reads_statements h hlevel.2.1 fun u hu => ?_) fun ss hss => ?_
    · rw [Closing.stops, isKeyword_of_isToken u hu, Bool.true_or]
    · refine Reads.bind_cons (reads_accept isKeyword_of_isToken) fun o ho => ?_
      obtain ⟨elseWord, rfl, -⟩ := ho
      refine Reads.bind (reads_blockUntilEnd hother hlevel.2.2 elseWord) fun b hb => ?_
      refine Reads.bind_pure (reads_expect isKeyword_of_isToken) fun _ _ => ?_
      obtain ⟨bpos, bs⟩ := b
      have hbs : Stmt.eraseAll bs = Stmt.eraseAll other := hb
      simp only [Stmt.erase, hc, hss, hbs]

/-! ## Loops -/

theorem readable_whileLoop {condition : Expr} {bodyPos : Pos} (hc : Readable S condition)
    (h : ∀ s ∈ body, ReadableStmt S s) :
    ReadableStmt S (.whileLoop pos condition ⟨bodyPos, body⟩) := by
  refine ⟨?_, fun level hlevel => ?_⟩
  · rw [Stmt.pieces]
    exact heads_of_lexeme (.keyword .whileKw) rfl fun _ ht => ht
  · rw [Stmt.nesting, Nat.max_le] at hlevel
    rw [Stmt.pieces]
    unfold statement
    refine reads_current_bind fun t ht => ?_
    have hlexeme : t.lexeme = .keyword .whileKw := ht
    simp only [hlexeme]
    unfold whileLoop
    refine Reads.bind_cons reads_advance fun start _ => ?_
    refine Reads.bind ((hc.nested hlevel.1).before (stops_keyword rfl)) fun c hc => ?_
    refine (reads_loopBody h hlevel.2).bind_pure fun b hb => ?_
    obtain ⟨bpos, bs⟩ := b
    have hbs : Stmt.eraseAll bs = Stmt.eraseAll body := hb
    simp only [Stmt.erase, hc, hbs]

theorem readable_endlessLoop {bodyPos : Pos} (h : ∀ s ∈ body, ReadableStmt S s) :
    ReadableStmt S (.forLoop pos none ⟨bodyPos, body⟩ none none) := by
  refine ⟨?_, fun level hlevel => ?_⟩
  · rw [Stmt.pieces]
    exact heads_of_lexeme (.keyword .loopKw) rfl fun _ ht => ht
  · rw [Stmt.nesting] at hlevel
    rw [Stmt.pieces]
    unfold statement
    refine reads_current_bind fun t ht => ?_
    have hlexeme : t.lexeme = .keyword .loopKw := ht
    simp only [hlexeme]
    unfold endlessLoop
    refine reads_current_bind fun start _ => ?_
    refine (reads_loopBody h hlevel).bind_pure fun b hb => ?_
    obtain ⟨bpos, bs⟩ := b
    have hbs : Stmt.eraseAll bs = Stmt.eraseAll body := hb
    simp only [Stmt.erase, Expr.eraseOption, hbs]

/-- A token behind what a loop runs over. -/
def AfterSource (t : Token) : Prop :=
  t.lexeme = .symbol .range ∨ t.lexeme = .keyword .loopKw

theorem AfterSource.stops {t : Token} (h : AfterSource t) : Stops 1 t := by
  refine stops_of_strength ?_
  rcases h with h | h <;> rw [h] <;> decide

/-- What stands before `in` is a variable only if it is a name, and then `in` tells. -/
theorem reads_loopSource {loopVar : Option String} {source : Expr} (h : Readable S source)
    (hlevel : source.nesting + 1 ≤ level) :
    Reads S (loopSource (S.rules level)) (Piece.ofLoopVar loopVar ++ source.pieces) AfterSource
      fun q => q.1 = loopVar ∧ q.2.erase = source.erase := by
  unfold loopSource
  cases loopVar with
  | none =>
    have hin : ∀ t, AfterSource t → t.isKeyword .inKw = false := by
      rintro t (ht | ht) <;> exact decide_eq_false (by rw [ht]; decide)
    refine Reads.bind_last ((h.nested hlevel).before fun t ht => ht.stops) fun e he => ?_
    split
    · refine Reads.bind_last (reads_accept_none hin) fun o ho => ?_
      subst ho
      exact reads_pure ⟨rfl, he⟩
    · exact reads_pure ⟨rfl, he⟩
  | some v =>
    have hname : Readable S (.reference .nowhere v) := readable_reference
    refine Reads.bind_cons ((hname.nested (by rw [Expr.nesting]; omega)).before
      (stops_keyword rfl)) fun e he => ?_
    obtain ⟨vpos, rfl⟩ := Expr.eq_reference_of_erase he
    refine Reads.bind_cons (reads_accept isKeyword_of_isToken) fun o ho => ?_
    obtain ⟨t, rfl, -⟩ := ho
    exact ((h.nested hlevel).before fun t ht => ht.stops).bind_pure fun e' he' => ⟨rfl, he'⟩

theorem heads_loopSource {loopVar : Option String} {source : Expr} (h : Readable S source) :
    Heads (Piece.ofLoopVar loopVar ++ source.pieces) fun t => startsExpression t.lexeme = true := by
  cases loopVar with
  | none => exact h.heads
  | some v => exact heads_of_lexeme .name rfl fun _ ht => ht.1

/-- No expression starts with a word for a type. -/
theorem isTypeWord_of_startsExpression {t : Token} (h : startsExpression t.lexeme = true) :
    t.isTypeWord = false := by
  unfold Token.isTypeWord
  split
  next k hk =>
    rw [hk] at h
    cases k <;> first | rfl | cases h
  next => rfl

theorem readable_forLoop_elements {loopVar : Option String} {source : Expr} {bodyPos : Pos}
    (hsource : Readable S source) (h : ∀ s ∈ body, ReadableStmt S s) :
    ReadableStmt S (.forLoop pos loopVar ⟨bodyPos, body⟩ (some source) none) := by
  refine ⟨?_, fun level hlevel => ?_⟩
  · rw [Stmt.pieces]
    exact heads_of_lexeme (.keyword .forKw) rfl fun _ ht => ht
  · rw [Stmt.nesting, Nat.max_le] at hlevel
    rw [Stmt.pieces, ← List.append_assoc]
    unfold statement
    refine reads_current_bind fun t ht => ?_
    have hlexeme : t.lexeme = .keyword .forKw := ht
    simp only [hlexeme]
    unfold forLoop
    refine Reads.bind_cons reads_advance fun start _ => ?_
    refine reads_current_bind fun u hu => ?_
    rw [isTypeWord_of_startsExpression ((heads_loopSource hsource).opens u hu),
      if_neg Bool.false_ne_true]
    refine Reads.bind ((reads_loopSource hsource hlevel.1).before fun v hv => Or.inr hv)
      fun q hq => ?_
    obtain ⟨q₁, q₂⟩ := q
    obtain ⟨hvar, he⟩ := hq
    refine Reads.bind_nil (reads_accept_none fun v hv => ?_) fun o ho => ?_
    · have hv' : v.lexeme = .keyword .loopKw := hv
      exact decide_eq_false (by rw [hv']; nofun)
    · subst ho
      refine (reads_loopBody h hlevel.2).bind_pure fun b hb => ?_
      obtain ⟨bpos, bs⟩ := b
      have hbs : Stmt.eraseAll bs = Stmt.eraseAll body := hb
      have hvar' : q₁ = loopVar := hvar
      have he' : q₂.erase = source.erase := he
      simp only [Stmt.erase, Expr.eraseOption, hbs, hvar', he']

theorem readable_forLoop_range {loopVar : Option String} {source rangeEnd : Expr} {bodyPos : Pos}
    (hsource : Readable S source) (hend : Readable S rangeEnd) (h : ∀ s ∈ body, ReadableStmt S s) :
    ReadableStmt S (.forLoop pos loopVar ⟨bodyPos, body⟩ (some source) (some rangeEnd)) := by
  refine ⟨?_, fun level hlevel => ?_⟩
  · rw [Stmt.pieces]
    exact heads_of_lexeme (.keyword .forKw) rfl fun _ ht => ht
  · rw [Stmt.nesting, Nat.max_le] at hlevel
    rw [Stmt.pieces, ← List.append_assoc]
    unfold statement
    refine reads_current_bind fun t ht => ?_
    have hlexeme : t.lexeme = .keyword .forKw := ht
    simp only [hlexeme]
    unfold forLoop
    refine Reads.bind_cons reads_advance fun start _ => ?_
    refine reads_current_bind fun u hu => ?_
    rw [isTypeWord_of_startsExpression ((heads_loopSource hsource).opens u hu),
      if_neg Bool.false_ne_true]
    refine Reads.bind ((reads_loopSource hsource (by omega)).before fun v hv => Or.inl hv)
      fun q hq => ?_
    obtain ⟨q₁, q₂⟩ := q
    obtain ⟨hvar, he⟩ := hq
    refine Reads.bind_cons (reads_accept fun v hv => isSymbol_of_lexeme hv) fun o ho => ?_
    obtain ⟨v, rfl, -⟩ := ho
    refine Reads.bind ((hend.nested (by omega)).before (stops_keyword rfl)) fun e' he' => ?_
    refine (reads_loopBody h hlevel.2).bind_pure fun b hb => ?_
    obtain ⟨bpos, bs⟩ := b
    have hbs : Stmt.eraseAll bs = Stmt.eraseAll body := hb
    have hvar' : q₁ = loopVar := hvar
    have hsource' : q₂.erase = source.erase := he
    simp only [Stmt.erase, Expr.eraseOption, hbs, hvar', hsource', he']

end Blocks

/-! ## Declarations and prints -/

/-- The initial value of a variable, if it has one, is readable. -/
def ReadableVar (S : Setting) (v : VarDef) : Prop :=
  ∀ e, v.initializer = some e → Readable S e

theorem reads_varDef {v : VarDef} (h : ReadableVar S v)
    (hlevel : ∀ e, v.initializer = some e → e.nesting < level) :
    Reads S (varDef (S.rules level)) v.pieces (AfterItem AfterStatement)
      fun v' => v'.erase = v.erase := by
  have hassign : ∀ t, AfterItem AfterStatement t → t.isSymbol .assign = false := by
    rintro t (ht | ht)
    · exact decide_eq_false (by rw [ht]; decide)
    · exact ht.isSymbol nofun
  unfold varDef
  obtain ⟨name, _ | e⟩ := v
  · refine Reads.bind_last reads_expectName fun t ht => ?_
    refine Reads.bind_last (reads_accept_none hassign) fun o ho => ?_
    subst ho
    refine reads_pure ?_
    simp only [VarDef.erase, ht, Expr.eraseOption]
  · refine Reads.bind_cons reads_expectName fun t ht => ?_
    refine Reads.bind_cons (reads_accept fun u hu => isSymbol_of_lexeme hu) fun o ho => ?_
    obtain ⟨u, rfl, -⟩ := ho
    refine Reads.bind_pure (((h e rfl).nested (hlevel e rfl)).before fun v hv => ?_)
      fun e' he' => ?_
    · exact stops_afterItem hv
    · simp only [VarDef.erase, ht, Expr.eraseOption, he']

theorem readable_declaration {vars : List VarDef} (hne : vars ≠ [])
    (h : ∀ v ∈ vars, ReadableVar S v) : ReadableStmt S (.declaration pos vars) := by
  refine ⟨?_, fun level hlevel => ?_⟩
  · rw [Stmt.pieces]
    exact heads_of_lexeme (.keyword .varKw) rfl fun _ ht => ht
  · rw [Stmt.nesting] at hlevel
    rw [Stmt.pieces]
    have hitems : List.Forall₂ (fun ps v => Heads ps (fun _ => True) ∧
        Reads S (varDef (S.rules level)) ps (AfterItem AfterStatement)
          fun v' => v'.erase = v.erase) (VarDef.piecesAll vars) vars := by
      rw [VarDef.piecesAll_eq_map, List.forall₂_map_left_iff, List.forall₂_same]
      intro v hv
      have hhead : Heads v.pieces fun _ => True := by
        obtain ⟨name, _ | e⟩ := v
        · exact ⟨_, _, rfl, fun _ _ => trivial⟩
        · exact ⟨_, _, rfl, fun _ _ => trivial⟩
      refine ⟨hhead, reads_varDef (h v hv) fun e he => ?_⟩
      exact Nat.lt_of_lt_of_le (VarDef.nesting_lt_nestingAll hv he) hlevel
    have hgroups : VarDef.piecesAll vars ≠ [] := by
      rw [VarDef.piecesAll_eq_map]
      exact fun hnil => hne (List.map_eq_nil_iff.mp hnil)
    unfold statement
    refine reads_current_bind fun t ht => ?_
    have hlexeme : t.lexeme = .keyword .varKw := ht
    simp only [hlexeme]
    unfold declaration
    refine Reads.bind_cons reads_advance fun start _ => ?_
    rw [rounds_rules]
    refine (reads_items (reads_pure trivial) (fun u hu => ?_) hitems hgroups).bind_pure
      fun vars' hvars' => ?_
    · exact hu.isSymbol nofun
    · simp only [Stmt.erase, VarDef.eraseAll_eq_map]
      rw [map_eq_of_forall₂ hvars']

theorem readable_print {values : List Expr} (hne : values ≠ [])
    (h : ∀ e ∈ values, Readable S e) : ReadableStmt S (.print pos values) := by
  refine ⟨?_, fun level hlevel => ?_⟩
  · rw [Stmt.pieces]
    exact heads_of_lexeme (.keyword .printKw) rfl fun _ ht => ht
  · rw [Stmt.nesting] at hlevel
    rw [Stmt.pieces]
    have hgroups : Expr.piecesAll values ≠ [] := by
      rw [Expr.piecesAll_eq_map]
      exact fun hnil => hne (List.map_eq_nil_iff.mp hnil)
    have hitems : List.Forall₂ (fun ps e => Heads ps (fun t => t.isNewline = false) ∧
        Reads S (S.rules level).expression ps (AfterItem AfterStatement)
          fun (e' : Expr) => e'.erase = e.erase) (Expr.piecesAll values) values := by
      refine readable_items h hlevel (fun t ht => ?_) fun t ht => stops_afterItem ht
      exact decide_eq_false (lexeme_ne ht rfl)
    unfold statement
    refine reads_current_bind fun t ht => ?_
    have hlexeme : t.lexeme = .keyword .printKw := ht
    simp only [hlexeme]
    unfold print
    refine Reads.bind_cons reads_advance fun start _ => ?_
    rw [rounds_rules]
    refine (reads_items (reads_skipWhile_none fun t ht => ht) (fun u hu => ?_) hitems
      hgroups).bind_pure fun values' hvalues' => ?_
    · exact hu.isSymbol nofun
    · simp only [Stmt.erase, eraseAll_of_forall₂ hvalues']

/-! ## Jumps -/

theorem readable_return_none : ReadableStmt S (.returnStmt pos none) := by
  refine ⟨?_, fun level _ => ?_⟩
  · exact heads_of_lexeme (.keyword .returnKw) rfl fun _ ht => ht
  · rw [Stmt.pieces]
    unfold statement
    refine reads_current_bind fun t ht => ?_
    have hlexeme : t.lexeme = .keyword .returnKw := ht
    simp only [hlexeme]
    unfold returnStmt
    refine Reads.bind_cons reads_advance fun start _ => ?_
    refine reads_current_bind fun u hu => ?_
    have hafter : (u.isSeparator || endsStatement u) = true := Bool.or_eq_true _ _ ▸ hu
    rw [hafter, if_pos rfl]
    exact reads_pure rfl

theorem readable_return_some {e : Expr} (h : Readable S e) :
    ReadableStmt S (.returnStmt pos (some e)) := by
  refine ⟨?_, fun level hlevel => ?_⟩
  · rw [Stmt.pieces]
    exact heads_of_lexeme (.keyword .returnKw) rfl fun _ ht => ht
  · rw [Stmt.nesting] at hlevel
    rw [Stmt.pieces]
    unfold statement
    refine reads_current_bind fun t ht => ?_
    have hlexeme : t.lexeme = .keyword .returnKw := ht
    simp only [hlexeme]
    unfold returnStmt
    refine Reads.bind_cons reads_advance fun start _ => ?_
    refine reads_current_bind fun u hu => ?_
    obtain ⟨-, -, hseparator, hends⟩ := not_stops_of_startsStatement
      (startsStatement_of_startsExpression (h.heads.opens_self u hu))
    rw [hseparator, hends, Bool.or_false, if_neg Bool.false_ne_true]
    refine ((h.nested hlevel).before fun v hv => AfterStatement.stops hv).bind_pure fun e' he' => ?_
    simp only [Stmt.erase, Expr.eraseOption, he']

theorem readable_exit : ReadableStmt S (.exitStmt pos) := by
  refine ⟨?_, fun level _ => ?_⟩
  · exact heads_of_lexeme (.keyword .exitKw) rfl fun _ ht => ht
  · rw [Stmt.pieces]
    unfold statement
    refine reads_current_bind fun t ht => ?_
    have hlexeme : t.lexeme = .keyword .exitKw := ht
    simp only [hlexeme]
    exact Reads.bind_pure reads_advance fun _ _ => rfl

theorem readable_continue : ReadableStmt S (.continueStmt pos) := by
  refine ⟨?_, fun level _ => ?_⟩
  · exact heads_of_lexeme (.keyword .continueKw) rfl fun _ ht => ht
  · rw [Stmt.pieces]
    unfold statement
    refine reads_current_bind fun t ht => ?_
    have hlexeme : t.lexeme = .keyword .continueKw := ht
    simp only [hlexeme]
    exact Reads.bind_pure reads_advance fun _ _ => rfl

/-! ## Assignments and expressions -/

/-- A statement that starts like an expression is an assignment or an expression. -/
theorem reads_statement_of_assignment {r : Rules} {ok : Stmt → Prop}
    (hhead : Heads ps fun t => startsExpression t.lexeme = true)
    (h : Reads S (assignment r) ps next ok) : Reads S (statement r) ps next ok := by
  unfold statement
  refine reads_current_bind fun t ht => ?_
  have hstart := hhead.opens_self t ht
  split
  all_goals first
    | exact h
    | exact absurd ‹t.lexeme = _› (lexeme_ne hstart rfl)

theorem isTarget_erase (e : Expr) : isTarget e.erase = isTarget e := by
  cases e <;> rw [Expr.erase] <;> rfl

theorem readable_assign {target value : Expr} (htarget : isTarget target = true)
    (ht : Readable S target) (hv : Readable S value) :
    ReadableStmt S (.assign pos target value) := by
  refine ⟨?_, fun level hlevel => ?_⟩
  · rw [Stmt.pieces]
    exact (ht.heads.mono fun t ht => startsStatement_of_startsExpression ht).append _
  · rw [Stmt.nesting] at hlevel
    rw [Stmt.pieces]
    refine reads_statement_of_assignment (ht.heads.append _) ?_
    unfold assignment
    refine reads_current_bind fun start _ => ?_
    refine Reads.bind ((ht.nested (by omega)).before (stops_symbol rfl)) fun e he => ?_
    refine Reads.bind_cons (reads_accept fun u hu => isSymbol_of_lexeme hu) fun o ho => ?_
    obtain ⟨u, rfl, -⟩ := ho
    have hassignable : isTarget e = true := by rw [← isTarget_erase, he, isTarget_erase, htarget]
    simp only [hassignable, if_true]
    refine ((hv.nested (by omega)).before fun w hw => AfterStatement.stops hw).bind_pure
      fun e' he' => ?_
    simp only [Stmt.erase, he, he']

theorem readable_expr {value : Expr} (h : Readable S value) : ReadableStmt S (.expr pos value) := by
  refine ⟨h.heads.mono fun t ht => startsStatement_of_startsExpression ht, fun level hlevel => ?_⟩
  rw [Stmt.nesting] at hlevel
  refine reads_statement_of_assignment h.heads ?_
  unfold assignment
  refine reads_current_bind fun start _ => ?_
  refine Reads.bind_last ((h.nested hlevel).before fun t ht => AfterStatement.stops ht)
    fun e he => ?_
  refine Reads.bind_last (reads_accept_none fun t ht => ht.isSymbol nofun) fun o ho => ?_
  subst ho
  refine reads_pure ?_
  simp only [Stmt.erase, he]

end Dee.Grammar
