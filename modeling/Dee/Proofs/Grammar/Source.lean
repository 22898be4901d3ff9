import Dee.Grammar.Program
import Dee.Proofs.Decimal.Value
import Dee.Proofs.Grammar.Gives
import Dee.Proofs.Program.Placed
import Dee.Proofs.Token.Genuine

/-!
# What the grammar builds

Every rule of the grammar builds well-formed trees out of genuine tokens, and gives them positions
of tokens. The positions are left open: `okPos` is any test that the tokens before the end pass.
-/

namespace Dee

/-! ## Trees of a source text -/

/-- Whether an expression can come out of a source text, its parts aside. -/
def Expr.isSource (okPos : Pos → Bool) (e : Expr) : Bool :=
  e.isWellFormed && e.isWritten && okPos e.pos

/-- Whether a statement can come out of a source text, its parts aside. -/
def Stmt.isSource (okPos : Pos → Bool) (s : Stmt) : Bool :=
  s.isWellFormed && s.isWritten && s.positions.all okPos

/-- Every node of an expression can come out of a source text. -/
abbrev Expr.Source (okPos : Pos → Bool) (e : Expr) : Prop :=
  e.everywhere (Expr.isSource okPos) (Stmt.isSource okPos) = true

/-- Every node of a statement can come out of a source text. -/
abbrev Stmt.Source (okPos : Pos → Bool) (s : Stmt) : Prop :=
  s.everywhere (Expr.isSource okPos) (Stmt.isSource okPos) = true

variable {okPos : Pos → Bool}

theorem Expr.isSource_iff {e : Expr} :
    e.isSource okPos = true ↔ e.isWellFormed = true ∧ e.isWritten = true ∧ okPos e.pos = true := by
  rw [Expr.isSource, Bool.and_eq_true, Bool.and_eq_true, and_assoc]

theorem Stmt.isSource_iff {s : Stmt} :
    s.isSource okPos = true ↔
      s.isWellFormed = true ∧ s.isWritten = true ∧ s.positions.all okPos = true := by
  rw [Stmt.isSource, Bool.and_eq_true, Bool.and_eq_true, and_assoc]

/-- A genuine token, at a position that passes the test if it is not the end. -/
def Token.At (okPos : Pos → Bool) (t : Token) : Prop :=
  t.Genuine ∧ (t.isEof = false → okPos t.pos = true)

theorem Token.At.pos {t : Token} (h : t.At okPos) {lexeme : Lexeme} (ht : t.lexeme = lexeme)
    (hne : lexeme ≠ .eof) : okPos t.pos = true := by
  refine h.2 ?_
  rw [Token.isEof, ht]
  exact decide_eq_false hne

theorem Token.At.name {t : Token} (h : t.At okPos) (ht : t.lexeme = .name) :
    isIdentifier t.text = true := by
  have hgenuine := h.1
  rw [Token.Genuine, ht] at hgenuine
  exact hgenuine

/-! ## Operators -/

theorem isSpelled_binary {s : Symbol} {text : String} (h : s.IsSpelled text)
    (hs : s ∈ [Symbol.plus, .minus, .star, .slash, .equal, .notEqual, .less, .lessEqual, .greater,
      .greaterEqual]) : (BinaryOp.ofText? text).isSome = true := by
  rcases h with ⟨a, b, hpair, rfl⟩ | ⟨a, hchar, rfl⟩
  · unfold Symbol.ofPair? at hpair
    split at hpair <;> cases hpair <;> first | (simp at hs; done) | decide +kernel
  · unfold Symbol.ofChar? at hchar
    split at hchar <;> cases hchar <;> first | (simp at hs; done) | decide +kernel

theorem isSpelled_unary {s : Symbol} {text : String} (h : s.IsSpelled text)
    (hs : s ∈ [Symbol.plus, .minus]) : (UnaryOp.ofText? text).isSome = true := by
  rcases h with ⟨a, b, hpair, rfl⟩ | ⟨a, hchar, rfl⟩
  · unfold Symbol.ofPair? at hpair
    split at hpair <;> cases hpair <;> simp at hs
  · unfold Symbol.ofChar? at hchar
    split at hchar <;> cases hchar <;> first | (simp at hs; done) | decide +kernel

/-- An operator token of a binary operator has the text of one. -/
theorem Token.At.binaryOp {t : Token} (h : t.At okPos)
    (ht : Grammar.isProductOp t = true ∨ Grammar.isSumOp t = true ∨
      Grammar.isComparisonOp t = true ∨ Grammar.isLogicalOp t = true) :
    (BinaryOp.ofText? t.text).isSome = true ∧ okPos t.pos = true := by
  have hgenuine := h.1
  simp only [Grammar.isProductOp, Grammar.isSumOp, Grammar.isComparisonOp, Grammar.isLogicalOp,
    Token.isSymbol, Token.isKeyword, Bool.or_eq_true, decide_eq_true_iff] at ht
  cases hlex : t.lexeme with
  | symbol s =>
    rw [Token.Genuine, hlex] at hgenuine
    refine ⟨isSpelled_binary hgenuine ?_, h.pos hlex (by simp)⟩
    simp only [hlex, Lexeme.symbol.injEq, reduceCtorEq, or_false] at ht
    simp only [List.mem_cons, List.not_mem_nil, or_false]
    grind
  | keyword k =>
    rw [Token.Genuine, hlex] at hgenuine
    refine ⟨?_, h.pos hlex (by simp)⟩
    simp only [hlex, Lexeme.keyword.injEq, reduceCtorEq, or_false, false_or] at ht
    rw [hgenuine]
    rcases ht with (rfl | rfl) | rfl <;> decide +kernel
  | literal v => simp [hlex] at ht
  | name => simp [hlex] at ht
  | newline => simp [hlex] at ht
  | eof => simp [hlex] at ht

theorem Token.At.unaryOp {t : Token} (h : t.At okPos) (ht : Grammar.isUnaryOp t = true) :
    (UnaryOp.ofText? t.text).isSome = true ∧ okPos t.pos = true := by
  have hgenuine := h.1
  simp only [Grammar.isUnaryOp, Token.isSymbol, Token.isKeyword, Bool.or_eq_true,
    decide_eq_true_iff] at ht
  rcases ht with (hlex | hlex) | hlex <;> rw [Token.Genuine, hlex] at hgenuine
  · exact ⟨isSpelled_unary hgenuine (by simp), h.pos hlex (by simp)⟩
  · exact ⟨isSpelled_unary hgenuine (by simp), h.pos hlex (by simp)⟩
  · refine ⟨?_, h.pos hlex (by simp)⟩
    rw [hgenuine]
    decide +kernel

namespace Grammar

/-! ## Expressions -/

/-- What the rules for nested parts build. -/
structure Rules.Builds (okPos : Pos → Bool) (r : Rules) : Prop where
  expression : Gives (Token.At okPos) anyToken r.expression (Expr.Source okPos)
  operand : Gives (Token.At okPos) anyToken r.operand (Expr.Source okPos)
  statement : Gives (Token.At okPos) anyToken r.statement (Stmt.Source okPos)
  /-- No expression starts at the end of the text. -/
  notAtEnd : ∀ s a s', s.current.isEof = true → r.expression s ≠ .ok (a, s')

variable {r : Rules} {pre : Token → Prop}

theorem gives_moreOperands {isOp : Token → Bool} {operand : Parser Expr}
    (hop : ∀ t : Token, t.At okPos → isOp t = true →
      (BinaryOp.ofText? t.text).isSome = true ∧ okPos t.pos = true)
    (hoperand : Gives (Token.At okPos) anyToken operand (Expr.Source okPos)) (rounds : Nat)
    {left : Expr} (hleft : left.Source okPos) :
    Gives (Token.At okPos) pre (moreOperands isOp operand rounds left) (Expr.Source okPos) := by
  induction rounds generalizing left pre with
  | zero => exact gives_throw
  | succ rounds ih =>
    unfold moreOperands
    refine Gives.bind (gives_accept _) fun o ho => ?_
    cases o with
    | none => exact gives_pure hleft
    | some t =>
      obtain ⟨ht, htest⟩ := ho t rfl
      obtain ⟨hsome, hpos⟩ := hop t ht htest
      refine Gives.bind hoperand fun right hright => ?_
      refine ih ?_
      exact Expr.everywhere_binary.mpr ⟨Expr.isSource_iff.mpr ⟨hsome, rfl, hpos⟩, hleft, hright⟩

theorem gives_joined {isOp : Token → Bool} {operand : Parser Expr}
    (hop : ∀ t : Token, t.At okPos → isOp t = true →
      (BinaryOp.ofText? t.text).isSome = true ∧ okPos t.pos = true)
    (hoperand : Gives (Token.At okPos) anyToken operand (Expr.Source okPos)) (rounds : Nat) :
    Gives (Token.At okPos) pre (joined rounds isOp operand) (Expr.Source okPos) := by
  unfold joined
  exact Gives.bind hoperand.of_any fun left hleft => gives_moreOperands hop hoperand rounds hleft

/-! ## Statement lists -/

theorem gives_moreStatements {statement : Parser Stmt} {closing : Closing}
    (hst : Gives (Token.At okPos) anyToken statement (Stmt.Source okPos)) (rounds : Nat)
    {seen : List Stmt} (hseen : ∀ s ∈ seen, s.Source okPos) :
    Gives (Token.At okPos) pre (moreStatements statement closing rounds seen)
      fun ss => ∀ s ∈ ss, s.Source okPos := by
  induction rounds generalizing seen pre with
  | zero => exact gives_throw
  | succ rounds ih =>
    unfold moreStatements
    refine gives_current_bind fun t _ _ => ?_
    split
    · exact gives_pure fun s hs => hseen s (List.mem_reverse.mp hs)
    · split
      · exact gives_failAt
      · refine Gives.bind hst.of_any fun s hs => ?_
        have hmore : ∀ s' ∈ s :: seen, s'.Source okPos := by
          intro s' hs'
          rcases List.mem_cons.mp hs' with rfl | hs'
          · exact hs
          · exact hseen s' hs'
        refine gives_current_bind fun u _ _ => ?_
        split
        · exact ih hmore
        · split
          · exact Gives.bind (gives_skipWhile _) fun _ _ => ih hmore
          · exact gives_failAt

theorem gives_statements (hr : r.Builds okPos) (closing : Closing) :
    Gives (Token.At okPos) pre (statements r closing) fun ss =>
      Stmt.everywhereAll (Expr.isSource okPos) (Stmt.isSource okPos) ss = true := by
  unfold statements
  refine Gives.bind (gives_skipWhile _) fun _ _ => ?_
  exact (gives_moreStatements hr.statement _ (by simp)).mono
    fun ss hss => Stmt.everywhereAll_iff.mpr hss

/-! ## Functions and brackets -/

/-- Takes the parameters of a function, if there are any. -/
def parameters (r : Rules) : Parser (List Token) := do
  match ← acceptSymbol .openParen with
  | some _ => bracketed r.rounds .closeParen .closeParen expectName
  | none => pure []

/-- Takes the body of a function. -/
def functionBody (r : Rules) (pos : Pos) (names : List String) : Parser Expr := do
  match ← acceptKeyword .isKw with
  | some _ =>
    let body ← statements r .body
    let _ ← expect (·.isKeyword .endKw) .endWord
    return .function pos names body none
  | none =>
    match ← accept fun t => t.isSymbol .arrow || t.isSymbol .thinArrow with
    | some _ =>
      let e ← r.expression
      return .function pos names [] (some e)
    | none =>
      let t ← current
      failAt t (.expected .functionBody t)

/-- A function is its keyword, its parameters and its body. -/
theorem functionLiteral_eq (r : Rules) : functionLiteral r = (do
    let start ← advance
    let params ← parameters r
    functionBody r start.pos (params.map Token.text)) := by
  unfold functionLiteral parameters
  refine bind_congr fun start => ?_
  rw [bind_assoc]
  refine bind_congr fun o => ?_
  cases o <;> rfl

theorem gives_parameters :
    Gives (Token.At okPos) anyToken (parameters r)
      fun ts => (ts.map Token.text).all isIdentifier = true := by
  unfold parameters
  refine Gives.bind (gives_accept _) fun o _ => ?_
  cases o with
  | some _ =>
    refine (gives_bracketed gives_expectName _ _ _).mono fun ts hts => ?_
    rw [List.all_map, List.all_eq_true]
    exact fun t ht => (hts t ht).1.name (hts t ht).2
  | none => exact gives_pure rfl

theorem gives_functionBody (hr : r.Builds okPos) {pos : Pos} (hpos : okPos pos = true)
    {names : List String} (hnames : names.all isIdentifier = true) :
    Gives (Token.At okPos) anyToken (functionBody r pos names) (Expr.Source okPos) := by
  unfold functionBody
  refine Gives.bind (gives_accept _) fun o _ => ?_
  cases o with
  | some _ =>
    refine Gives.bind (gives_statements hr .body) fun body hbody => ?_
    refine Gives.bind (gives_expect _ _) fun _ _ => gives_pure ?_
    refine Expr.everywhere_function.mpr ⟨Expr.isSource_iff.mpr ⟨?_, rfl, hpos⟩, hbody, rfl⟩
    rw [Expr.isWellFormed, hnames, Option.isNone_none, Bool.or_true]
    rfl
  | none =>
    refine Gives.bind (gives_accept _) fun o _ => ?_
    cases o with
    | some _ =>
      refine Gives.bind hr.expression fun e he => gives_pure ?_
      refine Expr.everywhere_function.mpr ⟨Expr.isSource_iff.mpr ⟨?_, rfl, hpos⟩, rfl, he⟩
      rw [Expr.isWellFormed, hnames]
      rfl
    | none => exact gives_current_bind fun t _ _ => gives_failAt

theorem gives_functionLiteral (hr : r.Builds okPos) :
    Gives (Token.At okPos) (fun t => t.isEof = false) (functionLiteral r)
      (Expr.Source okPos) := by
  rw [functionLiteral_eq]
  refine Gives.bind gives_advance fun start hstart => ?_
  refine Gives.bind gives_parameters fun params hparams => ?_
  exact gives_functionBody hr (hstart.1.2 hstart.2) hparams

/-- A reference in a source text has an identifier as its name. -/
theorem isIdentifier_of_source {pos : Pos} {name : String}
    (h : (Expr.reference pos name).Source okPos) : isIdentifier name = true :=
  (Expr.isSource_iff.mp h).1

theorem gives_tupleEntry (hr : r.Builds okPos) :
    Gives (Token.At okPos) anyToken (tupleEntry r)
      fun entry => entry.value.Source okPos ∧ entry.name.all isIdentifier = true := by
  unfold tupleEntry
  refine Gives.bind hr.expression fun e he => ?_
  split
  next pos name =>
    refine Gives.bind (gives_accept _) fun o _ => ?_
    cases o with
    | some _ =>
      refine Gives.bind hr.expression fun value hvalue => gives_pure ?_
      exact ⟨hvalue, by simpa using isIdentifier_of_source he⟩
    | none => exact gives_pure ⟨he, rfl⟩
  next => exact gives_pure ⟨he, rfl⟩

theorem source_ofScalar {t : Token} (ht : t.At okPos) {value : Scalar}
    (hlex : t.lexeme = .literal value) : (Expr.ofScalar t.pos value).Source okPos := by
  have hgenuine := ht.1
  rw [Token.Genuine, hlex] at hgenuine
  refine Expr.isSource_iff.mpr ⟨by simp [Expr.isWellFormed], ?_, ht.pos hlex (by simp)⟩
  cases value with
  | int n => simpa [Expr.isWritten] using hgenuine.1
  | _ => rfl

theorem gives_primary (hr : r.Builds okPos) :
    Gives (Token.At okPos) pre (primary r) (Expr.Source okPos) := by
  unfold primary
  refine gives_current_bind fun t ht _ => ?_
  split
  next value hlex =>
    exact Gives.bind gives_advance fun _ _ => gives_pure (source_ofScalar ht hlex)
  next hlex =>
    refine Gives.bind gives_advance fun _ _ => gives_pure ?_
    exact Expr.isSource_iff.mpr ⟨ht.name hlex, rfl, ht.pos hlex (by simp)⟩
  next hlex =>
    refine Gives.bind gives_advance fun _ _ => ?_
    refine Gives.bind (gives_skipWhile _) fun _ _ => ?_
    refine Gives.bind hr.expression fun e he => ?_
    refine Gives.bind (gives_skipWhile _) fun _ _ => ?_
    exact Gives.bind (gives_expect _ _) fun _ _ => gives_pure he
  next hlex =>
    refine Gives.bind gives_advance fun _ _ => ?_
    refine Gives.bind (gives_bracketed hr.expression _ _ _) fun elements helements => ?_
    refine gives_pure ?_
    exact Expr.everywhere_array.mpr ⟨Expr.isSource_iff.mpr ⟨rfl, rfl, ht.pos hlex (by simp)⟩,
      Expr.everywhereAll_iff.mpr helements⟩
  next hlex =>
    refine Gives.bind gives_advance fun _ _ => ?_
    refine Gives.bind (gives_bracketed (gives_tupleEntry hr) _ _ _) fun entries hentries => ?_
    refine gives_pure ?_
    refine Expr.everywhere_tuple.mpr ⟨Expr.isSource_iff.mpr ⟨?_, rfl, ht.pos hlex (by simp)⟩,
      TupleEntry.everywhereAll_iff.mpr fun entry hentry => (hentries entry hentry).1⟩
    rw [Expr.isWellFormed, List.all_eq_true]
    exact fun entry hentry => (hentries entry hentry).2
  next hlex =>
    intro s e s' hs hcurrent hx
    refine gives_functionLiteral hr s e s' hs ?_ hx
    show s.current.isEof = false
    rw [hcurrent, Token.isEof, hlex]
    rfl
  next => exact gives_failAt
  next => split <;> exact gives_failAt

/-! ## Members and type checks -/

theorem gives_position {ds : List Char} (hds : ds.all Decimal.isDigit = true) :
    Gives (Token.At okPos) pre (position ds) fun m => m.isWellFormed = true := by
  unfold position
  split
  · exact gives_throw
  next hlen =>
    refine gives_pure ?_
    rw [Member.isWellFormed, Bool.and_eq_true, decide_eq_true_iff, decide_eq_true_iff]
    exact ⟨Int.natCast_nonneg _,
      Int.ofNat_lt.mpr (Decimal.toNat_lt hds (Nat.le_of_not_lt hlen))⟩

theorem source_member {pos : Pos} {e : Expr} {m : Member} (he : e.Source okPos)
    (hm : m.isWellFormed = true) (hpos : okPos pos = true) :
    (Expr.member pos e m).Source okPos := by
  exact Expr.everywhere_member.mpr ⟨Expr.isSource_iff.mpr ⟨hm, rfl, hpos⟩, he⟩

theorem gives_member {target : Expr} (htarget : target.Source okPos) {dot : Token}
    (hdot : okPos dot.pos = true) :
    Gives (Token.At okPos) pre (member target dot) (Expr.Source okPos) := by
  unfold member
  refine gives_current_bind fun t ht _ => ?_
  have hgenuine := ht.1
  split
  next hlex =>
    refine Gives.bind gives_advance fun _ _ => gives_pure ?_
    exact source_member htarget (ht.name hlex) hdot
  next n hlex =>
    rw [Token.Genuine, hlex] at hgenuine
    refine Gives.bind gives_advance fun _ _ => ?_
    exact Gives.bind (gives_position hgenuine.2) fun m hm =>
      gives_pure (source_member htarget hm hdot)
  next x hlex =>
    rw [Token.Genuine, hlex] at hgenuine
    refine Gives.bind gives_advance fun _ _ => ?_
    refine Gives.bind (gives_position List.all_takeWhile) fun first hfirst => ?_
    refine Gives.bind (gives_position hgenuine) fun second hsecond => gives_pure ?_
    exact source_member (source_member htarget hfirst hdot) hsecond (ht.pos hlex (by simp))
  next => split <;> exact gives_failAt

theorem isIndicator_of_word {t : Token} (ht : t.At okPos) (hword : isIndicatorWord t = true) :
    isIndicator t.text = true := by
  have hgenuine := ht.1
  simp only [isIndicatorWord, Bool.or_eq_true, decide_eq_true_iff, Token.isTypeWord,
    Token.isKeyword] at hword
  unfold isIndicator
  rw [Bool.or_eq_true]
  rcases hword with ((hword | hlex) | hlex) | hlex
  · left
    cases hlex : t.lexeme with
    | keyword k =>
      rw [Token.Genuine, hlex] at hgenuine
      rw [hlex] at hword
      rw [hgenuine]
      cases k <;> first | (cases hword; done) | decide +kernel
    | _ =>
      rw [hlex] at hword
      cases hword
  · left
    rw [Token.Genuine, hlex] at hgenuine
    rw [hgenuine]
    decide +kernel
  · left
    rw [Token.Genuine, hlex] at hgenuine
    have htext : t.text = Kind.none.name := hgenuine
    rw [htext, Kind.ofIndicator?_name]
    rfl
  · exact Or.inr (ht.name hlex)

theorem gives_indicator :
    Gives (Token.At okPos) pre indicator fun text => isIndicator text = true := by
  unfold indicator
  refine gives_current_bind fun t ht _ => ?_
  split
  next hword =>
    exact Gives.bind gives_advance fun _ _ => gives_pure (isIndicator_of_word ht hword)
  next =>
    refine Gives.bind (gives_accept _) fun o _ => ?_
    cases o with
    | some _ =>
      refine Gives.bind (gives_expect _ _) fun _ _ => gives_pure ?_
      decide +kernel
    | none =>
      refine Gives.bind (gives_accept _) fun o _ => ?_
      cases o with
      | some _ =>
        refine Gives.bind (gives_expect _ _) fun _ _ => gives_pure ?_
        decide +kernel
      | none => exact gives_failAt

/-! ## Whole expressions -/

theorem gives_trailers (hr : r.Builds okPos) (rounds : Nat) {e : Expr} (he : e.Source okPos) :
    Gives (Token.At okPos) pre (trailers r rounds e) (Expr.Source okPos) := by
  induction rounds generalizing e pre with
  | zero => exact gives_throw
  | succ rounds ih =>
    unfold trailers
    refine gives_current_bind fun t ht _ => ?_
    split
    next hlex =>
      refine Gives.bind gives_advance fun _ _ => ?_
      refine Gives.bind (gives_bracketed hr.expression _ _ _) fun args hargs => ih ?_
      exact Expr.everywhere_call.mpr ⟨Expr.isSource_iff.mpr ⟨rfl, rfl, ht.pos hlex (by simp)⟩, he,
        Expr.everywhereAll_iff.mpr hargs⟩
    next hlex =>
      refine Gives.bind gives_advance fun _ _ => ?_
      refine Gives.bind (gives_skipWhile _) fun _ _ => ?_
      refine Gives.bind hr.expression fun index hindex => ?_
      refine Gives.bind (gives_skipWhile _) fun _ _ => ?_
      refine Gives.bind (gives_expect _ _) fun _ _ => ih ?_
      exact Expr.everywhere_index.mpr
        ⟨Expr.isSource_iff.mpr ⟨rfl, rfl, ht.pos hlex (by simp)⟩, he, hindex⟩
    next hlex =>
      refine Gives.bind gives_advance fun _ _ => ?_
      exact Gives.bind (gives_member he (ht.pos hlex (by simp))) fun e' he' => ih he'
    next hlex =>
      refine Gives.bind gives_advance fun _ _ => ?_
      refine Gives.bind gives_indicator fun text htext => ih ?_
      exact Expr.everywhere_typeCheck.mpr
        ⟨Expr.isSource_iff.mpr ⟨htext, rfl, ht.pos hlex (by simp)⟩, he⟩
    next => exact gives_pure he

theorem gives_unary (hr : r.Builds okPos) :
    Gives (Token.At okPos) pre (unary r) (Expr.Source okPos) := by
  unfold unary
  refine gives_current_bind fun t ht _ => ?_
  split
  next hop =>
    obtain ⟨hsome, hpos⟩ := ht.unaryOp hop
    refine Gives.bind gives_advance fun _ _ => ?_
    refine Gives.bind hr.operand fun e he => gives_pure ?_
    exact Expr.everywhere_unary.mpr ⟨Expr.isSource_iff.mpr ⟨hsome, rfl, hpos⟩, he⟩
  next =>
    exact Gives.bind (gives_primary hr) fun e he => gives_trailers hr _ he

theorem gives_expression (hr : r.Builds okPos) :
    Gives (Token.At okPos) pre (expression r) (Expr.Source okPos) := by
  unfold expression
  refine gives_joined (fun t ht h => ht.binaryOp (by simp [h])) ?_ _
  refine gives_joined (fun t ht h => ht.binaryOp (by simp [h])) ?_ _
  refine gives_joined (fun t ht h => ht.binaryOp (by simp [h])) ?_ _
  exact gives_joined (fun t ht h => ht.binaryOp (by simp [h])) (gives_unary hr) _

theorem joined_notAtEnd {rounds : Nat} {isOp : Token → Bool} {operand : Parser Expr}
    (h : ∀ s a s', s.current.isEof = true → operand s ≠ .ok (a, s')) (s : Stream) (a : Expr)
    (s' : Stream) (hs : s.current.isEof = true) : joined rounds isOp operand s ≠ .ok (a, s') := by
  intro hx
  obtain ⟨left, s₁, hleft, -⟩ := bind_eq_ok.mp hx
  exact h s left s₁ hs hleft

theorem unary_notAtEnd (s : Stream) (a : Expr) (s' : Stream) (hs : s.current.isEof = true) :
    unary r s ≠ .ok (a, s') := by
  intro hx
  have hlex : s.current.lexeme = .eof := by simpa [Token.isEof] using hs
  obtain ⟨t, s₁, ht, hx⟩ := bind_eq_ok.mp hx
  obtain ⟨rfl, rfl⟩ := current_eq_ok.mp ht
  rw [if_neg (by simp [isUnaryOp, Token.isSymbol, Token.isKeyword, hlex])] at hx
  obtain ⟨e, s₂, he, -⟩ := bind_eq_ok.mp hx
  obtain ⟨t, s₃, ht, he⟩ := bind_eq_ok.mp he
  obtain ⟨rfl, rfl⟩ := current_eq_ok.mp ht
  rw [hlex] at he
  exact failAt_ne_ok he

theorem expression_notAtEnd (s : Stream) (a : Expr) (s' : Stream)
    (hs : s.current.isEof = true) : expression r s ≠ .ok (a, s') :=
  joined_notAtEnd (joined_notAtEnd (joined_notAtEnd (joined_notAtEnd unary_notAtEnd))) s a s' hs

end Grammar

end Dee
