import Dee.Proofs.Grammar.Source
import Dee.Proofs.Printing.Levels

/-!
# Printed expressions

`Readable` says of an expression that the rule of its strength reads its pieces, on every level with
enough room for its nesting. Each form of expression is readable if its parts are.
-/

namespace Dee.Grammar

variable {S : Setting} {ps qs : List Piece} {p : Piece} {next : Token → Prop} {level : Nat}

/-! ## First tokens -/

/-- Whether an expression may start with a meaning. -/
def startsExpression : Lexeme → Bool
  | .literal _ | .name => true
  | .symbol .openParen | .symbol .openBracket | .symbol .openBrace => true
  | .symbol .plus | .symbol .minus | .keyword .notKw | .keyword .funcKw => true
  | _ => false

/-- Whether a statement may start with a meaning. -/
def startsStatement : Lexeme → Bool
  | .keyword .varKw | .keyword .printKw | .keyword .ifKw | .keyword .whileKw => true
  | .keyword .forKw | .keyword .loopKw | .keyword .returnKw => true
  | .keyword .exitKw | .keyword .continueKw => true
  | lexeme => startsExpression lexeme

theorem startsStatement_of_startsExpression {lexeme : Lexeme} (h : startsExpression lexeme = true) :
    startsStatement lexeme = true := by
  unfold startsStatement
  split <;> first | rfl | exact h

/-- A meaning that passes a test is none that fails it. -/
theorem lexeme_ne {test : Lexeme → Bool} {t : Token} (h : test t.lexeme = true) {lexeme : Lexeme}
    (hlexeme : test lexeme = false) : t.lexeme ≠ lexeme := by
  intro heq
  rw [heq, hlexeme] at h
  cases h

theorem Heads.mono {good good' : Token → Prop} (h : Heads ps good)
    (himp : ∀ t, good t → good' t) : Heads ps good' := by
  obtain ⟨p, more, rfl, hp⟩ := h
  exact ⟨p, more, rfl, fun t ht => himp t (hp t ht)⟩

theorem Heads.append {good : Token → Prop} (h : Heads ps good) (qs : List Piece) :
    Heads (ps ++ qs) good := by
  obtain ⟨p, more, rfl, hp⟩ := h
  exact ⟨p, more ++ qs, rfl, hp⟩

theorem heads_of_lexeme {test : Lexeme → Bool} (lexeme : Lexeme) (h : test lexeme = true)
    (hp : ∀ t, p.IsToken t → t.lexeme = lexeme) :
    Heads (p :: qs) fun t => test t.lexeme = true := by
  refine ⟨p, qs, rfl, fun t ht => ?_⟩
  show test t.lexeme = true
  rwa [hp t ht]

theorem Heads.guarded {needed : Bool} (h : Heads ps fun t => startsExpression t.lexeme = true) :
    Heads (Piece.guarded needed ps) fun t => startsExpression t.lexeme = true := by
  unfold Piece.guarded
  split
  · exact heads_of_lexeme (.symbol .openParen) rfl fun _ ht => ht
  · exact h

/-! ## Rules and levels -/

/-- The rules that accept `level` levels of nesting. -/
def Setting.rules (S : Setting) (level : Nat) : Rules :=
  Rules.ofLevel S.rounds level

theorem rounds_rules (S : Setting) (level : Nat) : (S.rules level).rounds = S.rounds := by
  cases level <;> rfl

/-- Some rule of an expression reads its pieces, on every level that has room for them. -/
structure Readable (S : Setting) (e : Expr) : Prop where
  heads : Heads e.pieces fun t => startsExpression t.lexeme = true
  reads : ∀ level, e.nesting ≤ level →
    ReadsAt S (S.rules level) e.pieces e e.strength (e.strength + 1)

theorem strength_le (e : Expr) : e.strength ≤ 7 := by
  cases e with
  | binary pos op left right =>
    show operatorStrength op ≤ 7
    unfold operatorStrength
    cases BinaryOp.ofText? op with
    | none => exact Nat.zero_le _
    | some b =>
      show b.strength ≤ 7
      unfold BinaryOp.strength
      split <;> decide
  | _ => simp [Expr.strength, unaryStrength, postfixStrength]

section Parts

variable {e : Expr}

/-- An expression inside of another is read by the nested rule. -/
theorem Readable.nested (h : Readable S e) (hlevel : e.nesting + 1 ≤ level) :
    Reads S (S.rules level).expression e.pieces (Stops 1) fun e' => e'.erase = e.erase := by
  obtain ⟨level, rfl⟩ : ∃ n, level = n + 1 := ⟨level - 1, by omega⟩
  have hreads := h.reads level (by omega)
  exact hreads.expression (rounds_rules S level) (strength_le e) (Nat.le_refl _)
    (Nat.le_add_left 1 _)

/-- At a place of some strength, weaker expressions stand in parentheses. -/
theorem Readable.guarded (h : Readable S e) {needed : Bool} {k : Nat}
    (hneeded : needed = true ↔ e.strength < k) (hk : k ≤ 7)
    (hlevel : Piece.guardedNesting needed e.nesting ≤ level) :
    ReadsAt S (S.rules level) (Piece.guarded needed e.pieces) e k (k + 1) := by
  have hr := rounds_rules S level
  unfold Piece.guarded
  unfold Piece.guardedNesting at hlevel
  by_cases hstrength : e.strength < k
  · rw [if_pos (hneeded.mpr hstrength)] at hlevel ⊢
    have hparens := readsAt_parenthesized (h.nested hlevel)
      (h.heads.mono fun t ht => decide_eq_false (lexeme_ne ht rfl))
    have hplace := hparens.descend hr hk (Nat.le_refl _) (Nat.le_refl _)
    rwa [Nat.min_eq_right (by omega)] at hplace
  · have hnot : ¬needed = true := fun hn => hstrength (hneeded.mp hn)
    rw [if_neg hnot] at hlevel ⊢
    have hplace := (h.reads level hlevel).descend hr (Nat.not_lt.mp hstrength) (strength_le e)
      (Nat.le_refl _)
    rwa [Nat.min_eq_right (by omega)] at hplace

end Parts

/-! ## Statement lists -/

/-- A token behind a statement. -/
def AfterStatement (t : Token) : Prop :=
  t.isSeparator = true ∨ endsStatement t = true

/-- The rule of statements reads the pieces of a statement, on every level that has room for
them. -/
structure ReadableStmt (S : Setting) (s : Stmt) : Prop where
  heads : Heads s.pieces fun t => startsStatement t.lexeme = true
  reads : ∀ level, s.nesting ≤ level →
    Reads S (statement (S.rules level)) s.pieces AfterStatement fun s' => s'.erase = s.erase

/-- No statement starts with a token that closes a list of statements, or with a separator. -/
theorem not_stops_of_startsStatement {t : Token} (h : startsStatement t.lexeme = true) :
    (∀ closing : Closing, closing.stops t = false) ∧ t.isEof = false ∧ t.isSeparator = false ∧
      endsStatement t = false := by
  have hend : t.isKeyword .endKw = false := decide_eq_false (lexeme_ne h rfl)
  have helse : t.isKeyword .elseKw = false := decide_eq_false (lexeme_ne h rfl)
  have heof : t.isEof = false := decide_eq_false (lexeme_ne h rfl)
  have hnewline : t.isNewline = false := decide_eq_false (lexeme_ne h rfl)
  have hsemicolon : t.isSymbol .semicolon = false := decide_eq_false (lexeme_ne h rfl)
  refine ⟨?_, heof, by rw [Token.isSeparator, hnewline, hsemicolon]; rfl, ?_⟩
  · intro closing
    cases closing with
    | file => exact heof
    | branch => rw [Closing.stops, helse, hend]; rfl
    | body => exact hend
  · rw [endsStatement, hend, helse, heof]
    rfl

/-- What closes a list of statements may stand behind a statement, and is no separator. -/
theorem after_of_stops {closing : Closing} {t : Token} (h : closing.stops t = true) :
    endsStatement t = true ∧ t.isSeparator = false := by
  have hlexeme : t.lexeme = .eof ∨ t.lexeme = .keyword .elseKw ∨ t.lexeme = .keyword .endKw := by
    cases closing with
    | file => exact Or.inl (of_decide_eq_true h)
    | branch =>
      rw [Closing.stops, Bool.or_eq_true] at h
      rcases h with h | h
      · exact Or.inr (Or.inl (of_decide_eq_true h))
      · exact Or.inr (Or.inr (of_decide_eq_true h))
    | body => exact Or.inr (Or.inr (of_decide_eq_true h))
  rcases hlexeme with h | h | h <;>
    simp [endsStatement, Token.isSeparator, Token.isEof, Token.isNewline, Token.isKeyword,
      Token.isSymbol, h]

/-- A separator closes no list of statements. -/
theorem not_stops_of_separator {t : Token} (h : t.isSeparator = true) (closing : Closing) :
    (closing.stops t || endsStatement t) = false := by
  rw [Bool.eq_false_iff]
  intro hstops
  rw [Bool.or_eq_true] at hstops
  rcases hstops with hstops | hstops
  · rw [(after_of_stops hstops).2] at h
    cases h
  · simp only [endsStatement, Token.isSeparator, Token.isEof, Token.isNewline, Token.isKeyword,
      Token.isSymbol, Bool.or_eq_true, decide_eq_true_iff] at h hstops
    rcases h with h | h <;> rw [h] at hstops <;> simp at hstops

/-- Statements with separators between them, up to a token that closes the list. -/
theorem reads_moreStatements {stmt : Parser Stmt} {closing : Closing}
    {groups : List (List Piece)} {ss : List Stmt}
    (h : List.Forall₂ (fun ps s => Heads ps (fun t => startsStatement t.lexeme = true) ∧
      Reads S stmt ps AfterStatement fun s' => s'.erase = s.erase) groups ss)
    (hnext : ∀ t, next t → closing.stops t = true) {rounds : Nat} (hrounds : groups.length < rounds)
    (seen : List Stmt) :
    Reads S (moreStatements stmt closing rounds seen) (Piece.lines groups) next
      fun ss' => ∃ zs, ss' = seen.reverse ++ zs ∧
        List.Forall₂ (fun (s s' : Stmt) => s'.erase = s.erase) ss zs := by
  induction h generalizing rounds seen with
  | nil =>
    obtain ⟨rounds, rfl⟩ : ∃ n, rounds = n + 1 := ⟨rounds - 1, by simp at hrounds; omega⟩
    rw [moreStatements]
    refine reads_current_bind fun t ht => ?_
    rw [hnext t ht, if_pos rfl]
    exact reads_pure ⟨[], by simp, .nil⟩
  | @cons group s groups ss hgroup hrest ih =>
    obtain ⟨rounds, rfl⟩ : ∃ n, rounds = n + 1 := ⟨rounds - 1, by simp at hrounds; omega⟩
    obtain ⟨hhead, hreads⟩ := hgroup
    rw [Piece.lines, intercalate_cons_eq, moreStatements]
    refine reads_current_bind fun t ht => ?_
    obtain ⟨hstops, heof, -⟩ := not_stops_of_startsStatement (hhead.opens t ht)
    rw [hstops closing, heof, if_neg Bool.false_ne_true, if_neg Bool.false_ne_true]
    have hmore : ∀ s' : Stmt, s'.erase = s.erase →
        Reads S (moreStatements stmt closing rounds (s' :: seen)) (Piece.lines groups) next
          fun ss' => ∃ zs, ss' = seen.reverse ++ zs ∧
            List.Forall₂ (fun (s s' : Stmt) => s'.erase = s.erase) (s :: ss) zs := by
      intro s' hs'
      refine (ih (by simp at hrounds; omega) (s' :: seen)).mono fun ss' hss' => ?_
      obtain ⟨zs, rfl, hzs⟩ := hss'
      exact ⟨s' :: zs, by simp, .cons hs' hzs⟩
    cases hrest with
    | nil =>
      have hclose : ∀ u, next u → (closing.stops u || endsStatement u) = true :=
        fun u hu => by rw [hnext u hu, Bool.true_or]
      refine Reads.bind (hreads.before fun u hu => ?_) fun s' hs' => ?_
      · exact Or.inr (after_of_stops (hnext u hu)).1
      · refine reads_current_bind fun u hu => ?_
        rw [hclose u hu, if_pos rfl]
        exact hmore s' hs'
    | @cons second s₂ groups ss hsecond _ =>
      rw [List.flatMap_cons, List.cons_append]
      refine Reads.bind (hreads.before fun u hu => Or.inl hu) fun s' hs' => ?_
      refine reads_current_bind fun u hu => ?_
      have hseparator : u.isSeparator = true := hu
      rw [not_stops_of_separator hseparator closing, hseparator, if_neg Bool.false_ne_true,
        if_pos rfl]
      refine Reads.bind_cons (reads_skipWhile_one (fun v hv => hv) fun v hv => ?_) fun _ _ => ?_
      · exact (not_stops_of_startsStatement (hsecond.1.opens v hv)).2.2.1
      · rw [← intercalate_cons_eq]
        exact hmore s' hs'

theorem map_eq_of_forall₂ {α β : Type} {f : α → β} {xs ys : List α}
    (h : List.Forall₂ (fun x y => f y = f x) xs ys) : ys.map f = xs.map f := by
  induction h with
  | nil => rfl
  | cons hxy _ ih => rw [List.map_cons, List.map_cons, hxy, ih]

/-- A list of readable statements is read up to what closes it. -/
theorem reads_statements {ss : List Stmt} (h : ∀ s ∈ ss, ReadableStmt S s)
    (hlevel : Stmt.nestingAll ss ≤ level) {closing : Closing}
    (hnext : ∀ t, next t → closing.stops t = true) :
    Reads S (statements (S.rules level) closing) (Piece.lines (Stmt.piecesAll ss)) next
      fun ss' => Stmt.eraseAll ss' = Stmt.eraseAll ss := by
  have hall : List.Forall₂ (fun ps s => Heads ps (fun t => startsStatement t.lexeme = true) ∧
      Reads S (S.rules level).statement ps AfterStatement fun s' => s'.erase = s.erase)
      (Stmt.piecesAll ss) ss := by
    rw [Stmt.piecesAll_eq_map, List.forall₂_map_left_iff, List.forall₂_same]
    intro s hs
    have hlt := Stmt.nesting_lt_nestingAll hs
    obtain ⟨level, rfl⟩ : ∃ n, level = n + 1 := ⟨level - 1, by omega⟩
    exact ⟨(h s hs).heads, (h s hs).reads level (by omega)⟩
  have hseparator : ∀ t, Opens (Piece.lines (Stmt.piecesAll ss)) next t →
      t.isSeparator = false := by
    generalize Stmt.piecesAll ss = groups at hall
    cases hall with
    | nil => exact fun t ht => (after_of_stops (hnext t ht)).2
    | cons hfirst _ =>
      intro t ht
      rw [Piece.lines, intercalate_cons_eq] at ht
      exact (not_stops_of_startsStatement (hfirst.1.opens t ht)).2.2.1
  unfold statements
  refine Reads.bind_nil (reads_skipWhile_none hseparator) fun _ _ => ?_
  refine Reads.of_length fun hlength => ?_
  rw [rounds_rules]
  have hrounds : (Stmt.piecesAll ss).length < S.rounds := by
    refine Nat.lt_of_le_of_lt ?_ hlength
    generalize Stmt.piecesAll ss = groups at hall
    cases hall with
    | nil => exact Nat.zero_le _
    | @cons _ _ groups _ hfirst _ =>
      obtain ⟨p, more, rfl, -⟩ := hfirst.1
      have := length_le_flatMap_cons Piece.separator groups
      rw [Piece.lines, intercalate_cons_eq, List.length_append, List.length_cons, List.length_cons]
      omega
  refine (reads_moreStatements hall hnext hrounds []).mono fun ss' hss' => ?_
  obtain ⟨zs, rfl, hzs⟩ := hss'
  rw [Stmt.eraseAll_eq_map, Stmt.eraseAll_eq_map]
  exact map_eq_of_forall₂ hzs

/-! ## Lists of expressions -/

/-- Readable expressions are items of a list. -/
theorem readable_items {es : List Expr} (h : ∀ e ∈ es, Readable S e)
    (hlevel : Expr.nestingAll es ≤ level) {good follow : Token → Prop}
    (hgood : ∀ t, startsExpression t.lexeme = true → good t) (hfollow : ∀ t, follow t → Stops 1 t) :
    List.Forall₂ (fun ps e => Heads ps good ∧
      Reads S (S.rules level).expression ps follow fun (e' : Expr) => e'.erase = e.erase)
      (Expr.piecesAll es) es := by
  rw [Expr.piecesAll_eq_map, List.forall₂_map_left_iff, List.forall₂_same]
  intro e he
  have hlt := Expr.nesting_lt_nestingAll he
  exact ⟨(h e he).heads.mono hgood, ((h e he).nested (by omega)).before hfollow⟩

theorem eraseAll_of_forall₂ {es es' : List Expr}
    (h : List.Forall₂ (fun e e' => Expr.erase e' = e.erase) es es') :
    Expr.eraseAll es' = Expr.eraseAll es := by
  rw [Expr.eraseAll_eq_map, Expr.eraseAll_eq_map]
  exact map_eq_of_forall₂ h

/-- What closes a list in brackets starts no item and goes on with no expression. -/
def IsClosing (closing : Symbol) : Prop :=
  closing = .closeParen ∨ closing = .closeBracket ∨ closing = .closeBrace

theorem IsClosing.ne_comma {closing : Symbol} (h : IsClosing closing) : closing ≠ .comma := by
  rcases h with rfl | rfl | rfl <;> decide

theorem IsClosing.startsItem {closing : Symbol} (h : IsClosing closing) {t : Token}
    (ht : startsExpression t.lexeme = true) : startsItem closing t := by
  refine ⟨decide_eq_false (lexeme_ne ht rfl), decide_eq_false (lexeme_ne ht ?_)⟩
  rcases h with rfl | rfl | rfl <;> rfl

theorem IsClosing.stops {closing : Symbol} (h : IsClosing closing) {t : Token}
    (ht : AfterItem (·.lexeme = .symbol closing) t) : Stops 1 t := by
  refine stops_of_strength ?_
  rcases ht with ht | ht
  · rw [ht]
    decide
  · rw [ht]
    rcases h with rfl | rfl | rfl <;> decide

/-- Readable expressions in brackets are read as a list. -/
theorem reads_bracketedExpressions {closing : Symbol} (hclosing : IsClosing closing)
    {wanted : Wanted} {es : List Expr} (h : ∀ e ∈ es, Readable S e)
    (hlevel : Expr.nestingAll es ≤ level) :
    Reads S (bracketed (S.rules level).rounds closing wanted (S.rules level).expression)
      (Piece.commas (Expr.piecesAll es) ++ [.symbol closing]) next
      fun es' => Expr.eraseAll es' = Expr.eraseAll es := by
  rw [rounds_rules]
  refine (reads_bracketed hclosing.ne_comma (readable_items h hlevel ?_ ?_)).mono
    fun es' hes' => eraseAll_of_forall₂ hes'
  · exact fun t ht => hclosing.startsItem ht
  · exact fun t ht => hclosing.stops ht

/-! ## Operators -/

/-- The meaning of a binary operator goes on with an expression by the strength of the operator. -/
theorem strength_ofOperator {op : String} {b : BinaryOp} (h : BinaryOp.ofText? op = some b) :
    lexemeStrength (Lexeme.ofOperator op) = b.strength ∧ 1 ≤ b.strength ∧ b.strength ≤ 4 := by
  unfold BinaryOp.ofText? at h
  split at h <;> first | cases h; done | (cases h; decide)

theorem isUnaryOp_ofOperator {op : String} (h : (UnaryOp.ofText? op).isSome = true) {t : Token}
    (ht : t.lexeme = .ofOperator op) : isUnaryOp t = true ∧ startsExpression t.lexeme = true := by
  have hlexeme : Lexeme.ofOperator op = .symbol .plus ∨ Lexeme.ofOperator op = .symbol .minus ∨
      Lexeme.ofOperator op = .keyword .notKw := by
    unfold UnaryOp.ofText? at h
    split at h
    · exact Or.inl (by decide)
    · exact Or.inr (Or.inl (by decide))
    · exact Or.inr (Or.inr (by decide))
    · cases h
  rcases hlexeme with hlexeme | hlexeme | hlexeme <;>
    simp [isUnaryOp, startsExpression, Token.isSymbol, Token.isKeyword, ht, hlexeme]

theorem readable_binary {pos : Pos} {op : String} {left right : Expr}
    (hop : (BinaryOp.ofText? op).isSome = true) (hleft : Readable S left)
    (hright : Readable S right) : Readable S (.binary pos op left right) := by
  obtain ⟨b, hb⟩ := Option.isSome_iff_exists.mp hop
  obtain ⟨hlexeme, hstrength⟩ := strength_ofOperator hb
  have hvalue : operatorStrength op = b.strength := by
    rw [operatorStrength, hb]
    rfl
  refine ⟨?_, fun level hlevel => ?_⟩
  · rw [Expr.pieces]
    exact hleft.heads.guarded.append _
  · rw [Expr.nesting, Nat.max_le, hvalue] at hlevel
    rw [Expr.pieces, Expr.strength, hvalue]
    refine ReadsAt.binary hstrength pos (fun t ht => ?_) ?_ ?_
    · have hlex : lexemeStrength t.lexeme = b.strength := by rw [ht.1, hlexeme]
      exact ⟨continues_iff.mpr ⟨by omega, hlex⟩, stops_of_strength (by omega)⟩
    · exact hleft.guarded decide_eq_true_iff (by omega) hlevel.1
    · refine hright.guarded ?_ (by omega) hlevel.2
      rw [decide_eq_true_iff]
      exact Nat.lt_succ_iff.symm

theorem readable_unary {pos : Pos} {op : String} {operand : Expr}
    (hop : (UnaryOp.ofText? op).isSome = true) (hoperand : Readable S operand) :
    Readable S (.unary pos op operand) := by
  refine ⟨?_, fun level hlevel => ?_⟩
  · rw [Expr.pieces]
    exact ⟨_, _, rfl, fun t ht => (isUnaryOp_ofOperator hop ht.1).2⟩
  · rw [Expr.nesting] at hlevel
    rw [Expr.pieces]
    obtain ⟨level, rfl⟩ : ∃ n, level = n + 1 := ⟨level - 1, by omega⟩
    refine readsAt_unary pos (fun t ht => (isUnaryOp_ofOperator hop ht.1).1) ?_
    have hplace := hoperand.guarded decide_eq_true_iff (by decide) (Nat.le_of_succ_le_succ hlevel)
    exact reads_iff_leads.mpr hplace

/-! ## Calls, indices, members, type checks -/

theorem readable_call {pos : Pos} {func : Expr} {args : List Expr} (hfunc : Readable S func)
    (hargs : ∀ e ∈ args, Readable S e) : Readable S (.call pos func args) := by
  refine ⟨?_, fun level hlevel => ?_⟩
  · rw [Expr.pieces]
    exact hfunc.heads.guarded.append _
  · rw [Expr.nesting, Nat.max_le] at hlevel
    rw [Expr.pieces]
    refine ReadsAt.trailer (e := func) ?_ ?_ fun base t hbase ht => ?_
    · intro t ht
      rw [isTrailer, isSymbol_of_lexeme ht]
      rfl
    · exact hfunc.guarded decide_eq_true_iff (by decide) hlevel.1
    · have hlexeme : t.lexeme = .symbol .openParen := ht
      unfold trailer
      simp only [hlexeme]
      refine Reads.bind_cons reads_advance fun _ _ => ?_
      refine (reads_bracketedExpressions (Or.inl rfl) hargs hlevel.2).bind_pure
        fun args' hargs' => ?_
      simp only [Expr.erase, hbase, hargs']

theorem readable_index {pos : Pos} {value index : Expr} (hvalue : Readable S value)
    (hindex : Readable S index) : Readable S (.index pos value index) := by
  refine ⟨?_, fun level hlevel => ?_⟩
  · rw [Expr.pieces]
    exact hvalue.heads.guarded.append _
  · rw [Expr.nesting, Nat.max_le] at hlevel
    rw [Expr.pieces]
    refine ReadsAt.trailer (e := value) ?_ ?_ fun base t hbase ht => ?_
    · intro t ht
      rw [isTrailer, isSymbol_of_lexeme ht, Bool.or_true]
      rfl
    · exact hvalue.guarded decide_eq_true_iff (by decide) hlevel.1
    · have hlexeme : t.lexeme = .symbol .openBracket := ht
      have hclose : ∀ u, Opens [Piece.symbol .closeBracket] (fun _ => True) u →
          AfterItem (·.lexeme = .symbol .closeBracket) u := fun u hu => Or.inr hu
      unfold trailer
      simp only [hlexeme]
      refine Reads.bind_cons reads_advance fun _ _ => ?_
      refine Reads.bind_nil (reads_skipWhile_none fun u hu => ?_) fun _ _ => ?_
      · exact decide_eq_false (lexeme_ne (hindex.heads.opens u hu) rfl)
      · refine Reads.bind ((hindex.nested hlevel.2).before fun u hu => ?_) fun i hi => ?_
        · exact IsClosing.stops (Or.inr (Or.inl rfl)) (hclose u hu)
        · refine Reads.bind_nil (reads_skipWhile_none fun u hu => ?_) fun _ _ => ?_
          · exact isNewline_afterItem (hclose u hu)
          · refine Reads.bind_pure (reads_expect fun u hu => isSymbol_of_lexeme hu) fun _ _ => ?_
            simp only [Expr.erase, hbase, hi]

theorem reads_indicator (text : String) :
    Reads S indicator (Piece.ofIndicator text) next fun s => s = text := by
  unfold indicator Piece.ofIndicator
  refine reads_current_bind fun t ht => ?_
  by_cases hbrackets : text = Kind.arrayBrackets
  · rw [if_pos hbrackets] at ht ⊢
    have hlexeme : t.lexeme = .symbol .openBracket := ht
    have hword : isIndicatorWord t = false := by
      simp [isIndicatorWord, Token.isTypeWord, Token.isKeyword, hlexeme]
    rw [hword, if_neg Bool.false_ne_true]
    refine Reads.bind_cons (reads_accept fun u hu => isSymbol_of_lexeme hu) fun o ho => ?_
    obtain ⟨u, rfl, -⟩ := ho
    exact Reads.bind_pure (reads_expect fun v hv => isSymbol_of_lexeme hv) fun _ _ => hbrackets.symm
  · rw [if_neg hbrackets] at ht ⊢
    by_cases hbraces : text = Kind.tupleBrackets
    · rw [if_pos hbraces] at ht ⊢
      have hlexeme : t.lexeme = .symbol .openBrace := ht
      have hword : isIndicatorWord t = false := by
        simp [isIndicatorWord, Token.isTypeWord, Token.isKeyword, hlexeme]
      rw [hword, if_neg Bool.false_ne_true]
      refine Reads.bind_nil (reads_accept_none fun u hu => ?_) fun o ho => ?_
      · have hu' : u.lexeme = .symbol .openBrace := hu
        exact decide_eq_false (by rw [hu']; decide)
      · subst ho
        refine Reads.bind_cons (reads_accept fun u hu => isSymbol_of_lexeme hu) fun o ho => ?_
        obtain ⟨u, rfl, -⟩ := ho
        exact Reads.bind_pure (reads_expect fun v hv => isSymbol_of_lexeme hv) fun _ _ =>
          hbraces.symm
    · rw [if_neg hbraces] at ht ⊢
      rw [ht.1, if_pos rfl]
      exact Reads.bind_pure reads_advance fun _ _ => ht.2

theorem readable_typeCheck {pos : Pos} {value : Expr} {text : String} (hvalue : Readable S value) :
    Readable S (.typeCheck pos value text) := by
  refine ⟨?_, fun level hlevel => ?_⟩
  · rw [Expr.pieces]
    exact hvalue.heads.guarded.append _
  · rw [Expr.nesting] at hlevel
    rw [Expr.pieces]
    refine ReadsAt.trailer (e := value) ?_ ?_ fun base t hbase ht => ?_
    · intro t ht
      have hlexeme : t.lexeme = .keyword .isKw := ht
      rw [isTrailer, Token.isKeyword, hlexeme]
      simp
    · exact hvalue.guarded decide_eq_true_iff (by decide) hlevel
    · have hlexeme : t.lexeme = .keyword .isKw := ht
      unfold trailer
      simp only [hlexeme]
      refine Reads.bind_cons reads_advance fun _ _ => ?_
      refine (reads_indicator text).bind_pure fun text' htext' => ?_
      simp only [Expr.erase, hbase, htext']

/-- What follows the dot of a member is read as the member. -/
theorem reads_member {base target : Expr} (hbase : base.erase = target.erase) (dot : Token)
    (pos : Pos) (m : Member) :
    Reads S (member base dot) [.ofMember m] next
      fun e => e.erase = (Expr.member pos target m).erase := by
  unfold member
  refine reads_current_bind fun t ht => ?_
  cases m with
  | named name =>
    have hlexeme : t.lexeme = .name := ht.1
    have htext : t.text = name := ht.2
    simp only [hlexeme]
    refine Reads.bind_pure reads_advance fun _ _ => ?_
    simp only [Expr.erase, hbase, htext]
  | position index =>
    obtain ⟨⟨n, hlexeme⟩, hlength, hindex⟩ := ht
    have hposition : position t.text.toList = pure (.position index) := by
      rw [position, if_neg (by omega), hindex]
    simp only [hlexeme]
    refine Reads.bind_cons reads_advance fun _ _ => ?_
    rw [hposition]
    refine reads_pure ?_
    simp only [Expr.erase, hbase]

theorem readable_member {pos : Pos} {value : Expr} {m : Member} (hvalue : Readable S value) :
    Readable S (.member pos value m) := by
  refine ⟨?_, fun level hlevel => ?_⟩
  · rw [Expr.pieces]
    exact hvalue.heads.guarded.append _
  · rw [Expr.nesting] at hlevel
    rw [Expr.pieces]
    refine ReadsAt.trailer (e := value) ?_ ?_ fun base t hbase ht => ?_
    · intro t ht
      rw [isTrailer, isSymbol_of_lexeme (s := .dot) ht, Bool.or_true]
      rfl
    · exact hvalue.guarded decide_eq_true_iff (by decide) hlevel
    · have hlexeme : t.lexeme = .symbol .dot := ht
      unfold trailer
      simp only [hlexeme]
      refine Reads.bind_cons reads_advance fun _ _ => ?_
      exact reads_member hbase t pos m

/-! ## Primary expressions -/

theorem readable_literal {pos : Pos} {value : Scalar} {kind : Kind} (hkind : kind = value.kind) :
    Readable S (.literal pos value kind) := by
  refine ⟨?_, fun level _ => readsAt_primary ?_⟩
  · exact heads_of_lexeme (.literal value) rfl fun _ ht => ht
  · unfold primary
    refine reads_current_bind fun t ht => ?_
    have hlexeme : t.lexeme = .literal value := ht
    simp only [hlexeme]
    refine Reads.bind_pure reads_advance fun _ _ => ?_
    simp only [Expr.ofScalar, Expr.erase, hkind]

theorem readable_reference {pos : Pos} {name : String} : Readable S (.reference pos name) := by
  refine ⟨?_, fun level _ => readsAt_primary ?_⟩
  · exact heads_of_lexeme .name rfl fun _ ht => ht.1
  · unfold primary
    refine reads_current_bind fun t ht => ?_
    have hlexeme : t.lexeme = .name := ht.1
    have htext : t.text = name := ht.2
    simp only [hlexeme]
    refine Reads.bind_pure reads_advance fun _ _ => ?_
    simp only [Expr.erase, htext]

theorem readable_array {pos : Pos} {elements : List Expr} (h : ∀ e ∈ elements, Readable S e) :
    Readable S (.array pos elements) := by
  refine ⟨?_, fun level hlevel => readsAt_primary ?_⟩
  · rw [Expr.pieces]
    exact heads_of_lexeme (.symbol .openBracket) rfl fun _ ht => ht
  · rw [Expr.nesting] at hlevel
    rw [Expr.pieces]
    unfold primary
    refine reads_current_bind fun t ht => ?_
    have hlexeme : t.lexeme = .symbol .openBracket := ht
    simp only [hlexeme]
    refine Reads.bind_cons reads_advance fun _ _ => ?_
    refine (reads_bracketedExpressions (Or.inr (Or.inl rfl)) h hlevel).bind_pure fun es hes => ?_
    simp only [Expr.erase, hes]

/-- An entry of a tuple is read up to the comma or the brace behind it. -/
theorem reads_tupleEntry {entry : TupleEntry} (h : Readable S entry.value)
    (hlevel : entry.value.nesting + 1 ≤ level) :
    Reads S (tupleEntry (S.rules level)) entry.pieces (AfterItem (·.lexeme = .symbol .closeBrace))
      fun entry' => entry'.erase = entry.erase := by
  obtain ⟨_ | name, e⟩ := entry
  · have hassign : ∀ t, AfterItem (·.lexeme = .symbol .closeBrace) t →
        t.isSymbol .assign = false := by
      rintro t (ht | ht) <;> exact decide_eq_false (by rw [ht]; decide)
    have hstops : ∀ t, AfterItem (·.lexeme = .symbol .closeBrace) t → Stops 1 t :=
      fun t ht => IsClosing.stops (Or.inr (Or.inr rfl)) ht
    unfold tupleEntry
    refine Reads.bind_last ((h.nested hlevel).before hstops) fun e' he' => ?_
    have hentry : (TupleEntry.mk none e').erase = (TupleEntry.mk none e).erase := by
      rw [TupleEntry.erase, he']
      rfl
    split
    · refine Reads.bind_last (reads_accept_none hassign) fun o ho => ?_
      subst ho
      exact reads_pure hentry
    · exact reads_pure hentry
  · have hname : Readable S (.reference .nowhere name) := readable_reference
    unfold tupleEntry
    refine Reads.bind_cons ((hname.nested (by rw [Expr.nesting]; omega)).before fun t ht => ?_)
      fun e' he' => ?_
    · have hlexeme : t.lexeme = .symbol .assign := ht
      exact stops_of_strength (by rw [hlexeme]; decide)
    · obtain ⟨pos, rfl⟩ := Expr.eq_reference_of_erase he'
      refine Reads.bind_cons (reads_accept fun t ht => isSymbol_of_lexeme ht) fun o ho => ?_
      obtain ⟨t, rfl, -⟩ := ho
      refine Reads.bind_pure ((h.nested hlevel).before fun t ht => ?_) fun value hvalue => ?_
      · exact IsClosing.stops (Or.inr (Or.inr rfl)) ht
      · rw [TupleEntry.erase, hvalue]
        rfl

theorem heads_tupleEntry {entry : TupleEntry} (h : Readable S entry.value) :
    Heads entry.pieces fun t => startsExpression t.lexeme = true := by
  obtain ⟨_ | name, e⟩ := entry
  · exact h.heads
  · exact heads_of_lexeme .name rfl fun _ ht => ht.1

theorem readable_tuple {pos : Pos} {entries : List TupleEntry}
    (h : ∀ entry ∈ entries, Readable S entry.value) : Readable S (.tuple pos entries) := by
  have hclosing : IsClosing .closeBrace := Or.inr (Or.inr rfl)
  refine ⟨?_, fun level hlevel => readsAt_primary ?_⟩
  · rw [Expr.pieces]
    exact heads_of_lexeme (.symbol .openBrace) rfl fun _ ht => ht
  · rw [Expr.nesting] at hlevel
    rw [Expr.pieces]
    unfold primary
    refine reads_current_bind fun t ht => ?_
    have hlexeme : t.lexeme = .symbol .openBrace := ht
    simp only [hlexeme]
    have hitems : List.Forall₂ (fun ps entry => Heads ps (startsItem .closeBrace) ∧
        Reads S (tupleEntry (S.rules level)) ps (AfterItem (·.lexeme = .symbol .closeBrace))
          fun entry' => entry'.erase = entry.erase) (TupleEntry.piecesAll entries) entries := by
      rw [TupleEntry.piecesAll_eq_map, List.forall₂_map_left_iff, List.forall₂_same]
      intro entry hentry
      have hlt := TupleEntry.nesting_lt_nestingAll hentry
      exact ⟨(heads_tupleEntry (h entry hentry)).mono fun u hu => hclosing.startsItem hu,
        reads_tupleEntry (h entry hentry) (by omega)⟩
    refine Reads.bind_cons reads_advance fun _ _ => ?_
    rw [rounds_rules]
    refine (reads_bracketed hclosing.ne_comma hitems).bind_pure fun entries' hentries' => ?_
    simp only [Expr.erase, TupleEntry.eraseAll_eq_map]
    rw [map_eq_of_forall₂ hentries']

/-! ## Functions -/

theorem reads_parameters {params : List String} :
    Reads S (parameters (S.rules level)) (.symbol .openParen ::
      (Piece.commas (params.map fun q => [.name q]) ++ [.symbol .closeParen])) next
      fun ts => ts.map Token.text = params := by
  have hclosing : IsClosing .closeParen := Or.inl rfl
  have hitems : List.Forall₂ (fun ps q => Heads ps (startsItem .closeParen) ∧
      Reads S expectName ps (AfterItem (·.lexeme = .symbol .closeParen)) fun t => t.text = q)
      (params.map fun q => [.name q]) params := by
    rw [List.forall₂_map_left_iff, List.forall₂_same]
    intro q _
    have hhead : Heads [.name q] fun t => startsExpression t.lexeme = true :=
      heads_of_lexeme .name rfl fun _ ht => ht.1
    exact ⟨hhead.mono fun t ht => hclosing.startsItem ht, reads_expectName⟩
  unfold parameters
  refine Reads.bind_cons (reads_accept fun t ht => isSymbol_of_lexeme ht) fun o ho => ?_
  obtain ⟨t, rfl, -⟩ := ho
  rw [rounds_rules]
  refine (reads_bracketed hclosing.ne_comma hitems).mono fun ts hts => ?_
  clear hitems
  induction hts with
  | nil => rfl
  | cons ht _ ih => rw [List.map_cons, ht, ih]

/-- A function is read if its body is, in whatever form. -/
theorem readable_function {pos : Pos} {params : List String} {statements : List Stmt}
    {expression : Option Expr} (body : List Piece)
    (hpieces : (Expr.function pos params statements expression).pieces =
      .keyword .funcKw :: ((.symbol .openParen ::
        (Piece.commas (params.map fun q => [.name q]) ++ [.symbol .closeParen])) ++ body))
    (hbody : ∀ level, (Expr.function pos params statements expression).nesting ≤ level →
      ∀ start, Reads S (functionBody (S.rules level) start params) body (Stops 1)
        fun e => e.erase = (Expr.function pos params statements expression).erase) :
    Readable S (.function pos params statements expression) := by
  refine ⟨?_, fun level hlevel => ?_⟩
  · rw [hpieces]
    exact heads_of_lexeme (.keyword .funcKw) rfl fun _ ht => ht
  · have hprimary : Reads S (primary (S.rules level)) (Expr.function pos params statements
        expression).pieces (Stops 1)
        fun e => e.erase = (Expr.function pos params statements expression).erase := by
      rw [hpieces]
      unfold primary
      refine reads_current_bind fun t ht => ?_
      have hlexeme : t.lexeme = .keyword .funcKw := ht
      simp only [hlexeme, functionLiteral_eq]
      refine Reads.bind_cons reads_advance fun start _ => ?_
      refine Reads.bind reads_parameters fun ts hts => ?_
      rw [hts]
      exact hbody level hlevel start.pos
    -- The body takes all that follows, so a function is read only where nothing goes on with it.
    exact (readsAt_primary hprimary).descend (rounds_rules S level) (Nat.zero_le 7) (Nat.le_refl 7)
      (by decide)

theorem readable_function_statements {pos : Pos} {params : List String} {ss : List Stmt}
    (h : ∀ s ∈ ss, ReadableStmt S s) : Readable S (.function pos params ss none) := by
  refine readable_function (.keyword .isKw :: (Piece.lines (Stmt.piecesAll ss) ++
    [.keyword .endKw])) ?_ fun level hlevel start => ?_
  · rw [Expr.pieces, List.cons_append, List.append_assoc]
    rfl
  · have hkeyword : ∀ t, (Piece.keyword .isKw).IsToken t → t.isKeyword .isKw = true :=
      fun t ht => decide_eq_true ht
    rw [Expr.nesting] at hlevel
    unfold functionBody
    refine Reads.bind_cons (reads_accept hkeyword) fun o ho => ?_
    obtain ⟨t, rfl, -⟩ := ho
    have hend : ∀ t, Opens [Piece.keyword .endKw] (Stops 1) t → Closing.body.stops t = true :=
      fun t ht => decide_eq_true ht
    refine Reads.bind (reads_statements h hlevel hend) fun ss' hss' => ?_
    refine Reads.bind_pure (reads_expect fun t ht => decide_eq_true ht) fun _ _ => ?_
    simp only [Expr.erase, hss', Expr.eraseOption]

theorem readable_function_expression {pos : Pos} {params : List String} {e : Expr}
    (h : Readable S e) : Readable S (.function pos params [] (some e)) := by
  refine readable_function (.bodyArrow :: e.pieces) ?_ fun level hlevel start => ?_
  · rw [Expr.pieces, List.cons_append, List.append_assoc]
    rfl
  · rw [Expr.nesting] at hlevel
    have hsymbols : ∀ t, Piece.bodyArrow.IsToken t → t.isKeyword .isKw = false ∧
        (t.isSymbol .arrow || t.isSymbol .thinArrow) = true := by
      rintro t (ht | ht) <;> simp [Token.isKeyword, Token.isSymbol, ht]
    unfold functionBody
    refine Reads.bind_nil (reads_accept_none fun t ht => (hsymbols t ht).1) fun o ho => ?_
    subst ho
    refine Reads.bind_cons (reads_accept fun t ht => (hsymbols t ht).2) fun o ho => ?_
    obtain ⟨t, rfl, -⟩ := ho
    refine (h.nested hlevel).bind_pure fun e' he' => ?_
    simp only [Expr.erase, Expr.eraseOption, he']

end Dee.Grammar
