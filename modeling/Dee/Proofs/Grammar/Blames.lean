import Dee.Proofs.Grammar.Parsed

/-!
# What parsers blame

A parser fails at a token that it has looked at, or with the failure that stopped the scan. `Blames
T E x` says so of the parser `x`: from a stream of tokens that satisfy `T`, which ends well or with
a failure that satisfies `E`, it leaves such a stream, or it fails at a token that satisfies `T` or
with a failure that satisfies `E`. The lemmas follow the ways in which parsers are put together,
then the rules.

Main statement: `blames_parseFeed`.
-/

namespace Dee.Grammar

variable {α β : Type} {T : Token → Prop} {E : Located LexError → Prop}

/-! ## Streams and failures -/

/-- All tokens are good, and so is the failure that ends the stream, if one does. -/
structure Stream.Sound (T : Token → Prop) (E : Located LexError → Prop) (s : Stream) : Prop where
  tokens : s.All T
  failure : ∀ e, s.ending = .error e → E e

/-- A failure of the scan is good, and a failure of parsing lies at a good token. -/
def Failure.Blames (T : Token → Prop) (E : Located LexError → Prop) : Failure → Prop
  | .scan e => E e
  | .parse e => ∃ t, T t ∧ e.pos = t.pos
  | .tooDeep => True
  | .longPosition _ => True

/-- The ending stays as it is when a token is taken. -/
theorem Stream.tail_eq_ok {s s' : Stream} (h : s.tail = .ok s') : s'.ending = s.ending := by
  obtain ⟨current, rest, ending⟩ := s
  cases rest with
  | cons t rest =>
    cases h
    rfl
  | nil =>
    cases ending with
    | ok eof =>
      cases h
      rfl
    | error e => cases h

theorem Stream.tail_eq_error {s : Stream} {f : Failure} (h : s.tail = .error f) :
    ∃ e, s.ending = .error e ∧ f = .scan e := by
  obtain ⟨current, rest, ending⟩ := s
  cases rest with
  | cons t rest => cases h
  | nil =>
    cases ending with
    | ok eof => cases h
    | error e =>
      cases h
      exact ⟨e, rfl, rfl⟩

namespace Stream.Sound

variable {s : Stream}

theorem tail (h : s.Sound T E) {s' : Stream} (ht : s.tail = .ok s') : s'.Sound T E := by
  refine ⟨h.tokens.tail ht, ?_⟩
  rw [Stream.tail_eq_ok ht]
  exact h.failure

theorem blames_tail (h : s.Sound T E) {f : Failure} (ht : s.tail = .error f) : f.Blames T E := by
  obtain ⟨e, he, rfl⟩ := Stream.tail_eq_error ht
  exact h.failure e he

end Stream.Sound

/-! ## Parsers -/

/-- From a good stream, a parser leaves a good stream or fails at something good. -/
def Blames (T : Token → Prop) (E : Located LexError → Prop) (x : Parser α) : Prop :=
  ∀ s, s.Sound T E →
    (∀ a s', x s = .ok (a, s') → s'.Sound T E) ∧ ∀ f, x s = .error f → f.Blames T E

variable {x : Parser α}

theorem blames_pure (a : α) : Blames T E (pure a : Parser α) := by
  intro s hs
  constructor
  · intro b s' h
    cases h
    exact hs
  · intro f h
    cases h

theorem blames_throw {f : Failure} (hf : f.Blames T E) : Blames T E (throw f : Parser α) := by
  intro s _
  constructor
  · intro b s' h
    cases h
  · intro g h
    cases h
    exact hf

theorem blames_failAt {t : Token} (ht : T t) (cause : ParseError) :
    Blames T E (failAt t cause : Parser α) :=
  blames_throw ⟨t, ht, rfl⟩

theorem Blames.bind {f : α → Parser β} (hx : Blames T E x) (hf : ∀ a, Blames T E (f a)) :
    Blames T E (x >>= f) := by
  intro s hs
  obtain ⟨hok, herror⟩ := hx s hs
  constructor
  · intro b s' hb
    obtain ⟨a, s₁, ha, hb⟩ := bind_eq_ok.mp hb
    exact (hf a s₁ (hok a s₁ ha)).1 b s' hb
  · intro g hg
    change (x s >>= fun p => f p.1 p.2) = .error g at hg
    cases hxs : x s with
    | error e =>
      rw [hxs] at hg
      cases hg
      exact herror _ hxs
    | ok p =>
      rw [hxs] at hg
      exact (hf p.1 p.2 (hok p.1 p.2 hxs)).2 g hg

/-- The token that is looked at is good. -/
theorem blames_current_bind {f : Token → Parser β} (hf : ∀ t, T t → Blames T E (f t)) :
    Blames T E (current >>= f) := by
  intro s hs
  exact hf s.current hs.tokens.1 s hs

theorem blames_advance : Blames T E advance := by
  intro s hs
  unfold advance
  split
  · constructor
    · intro t s' h
      cases h
      exact hs
    · intro f h
      cases h
  · cases htail : s.tail with
    | ok s₁ =>
      constructor
      · intro t s' h
        cases h
        exact hs.tail htail
      · intro f h
        cases h
    | error e =>
      constructor
      · intro t s' h
        cases h
      · intro f h
        cases h
        exact hs.blames_tail htail

theorem blames_accept (test : Token → Bool) : Blames T E (accept test) := by
  unfold accept
  refine blames_current_bind fun t _ => ?_
  split
  · exact blames_advance.bind fun _ => blames_pure _
  · exact blames_pure _

theorem blames_expect (test : Token → Bool) (wanted : Wanted) :
    Blames T E (expect test wanted) := by
  unfold expect
  refine blames_current_bind fun t ht => ?_
  split
  · exact blames_advance
  · exact blames_failAt ht _

theorem blames_expectName : Blames T E expectName := by
  unfold expectName
  refine blames_current_bind fun t ht => ?_
  split
  · exact blames_failAt ht _
  · exact blames_expect _ _

theorem blames_skipWhile (test : Token → Bool) : Blames T E (skipWhile test) := by
  -- One token is taken at a time, so the induction is on the tokens that are left.
  have key : ∀ (rest : List Token) (t : Token) (ending : Except (Located LexError) Token),
      (⟨t, rest, ending⟩ : Stream).Sound T E →
      (∀ s', Stream.skipFrom test ending t rest = .ok s' → s'.Sound T E) ∧
        ∀ f, Stream.skipFrom test ending t rest = .error f → f.Blames T E := by
    intro rest
    induction rest with
    | nil =>
      intro t ending hs
      unfold Stream.skipFrom
      split
      · exact ⟨fun s' h => hs.tail h, fun f h => hs.blames_tail h⟩
      · refine ⟨fun s' h => ?_, fun f h => ?_⟩
        · cases h
          exact hs
        · cases h
    | cons next rest ih =>
      intro t ending hs
      unfold Stream.skipFrom
      split
      · exact ih next ending (hs.tail rfl)
      · refine ⟨fun s' h => ?_, fun f h => ?_⟩
        · cases h
          exact hs
        · cases h
  intro s hs
  obtain ⟨hok, herror⟩ := key s.rest s.current s.ending hs
  unfold skipWhile
  cases hk : Stream.skipFrom test s.ending s.current s.rest with
  | ok s₁ =>
    constructor
    · intro a s' h
      cases h
      exact hok s₁ hk
    · intro f h
      cases h
  | error e =>
    constructor
    · intro a s' h
      cases h
    · intro f h
      cases h
      exact herror e hk

/-! ## Lists -/

theorem blames_moreItems {between : Parser Unit} {item : Parser α} (hbetween : Blames T E between)
    (hitem : Blames T E item) (rounds : Nat) (seen : List α) :
    Blames T E (moreItems between item rounds seen) := by
  induction rounds generalizing seen with
  | zero => exact blames_throw trivial
  | succ rounds ih =>
    unfold moreItems
    refine (blames_accept _).bind fun o => ?_
    cases o with
    | none => exact blames_pure _
    | some t => exact hbetween.bind fun _ => hitem.bind fun a => ih (a :: seen)

theorem blames_items {between : Parser Unit} {item : Parser α} (hbetween : Blames T E between)
    (hitem : Blames T E item) (rounds : Nat) : Blames T E (items rounds between item) :=
  hitem.bind fun a => blames_moreItems hbetween hitem rounds [a]

theorem blames_bracketedItems {item : Parser α} (hitem : Blames T E item) (closing : Symbol)
    (wanted : Wanted) (rounds : Nat) (seen : List α) :
    Blames T E (bracketedItems closing wanted item rounds seen) := by
  induction rounds generalizing seen with
  | zero => exact blames_throw trivial
  | succ rounds ih =>
    unfold bracketedItems
    refine hitem.bind fun a => (blames_skipWhile _).bind fun _ => ?_
    refine (blames_accept _).bind fun o => ?_
    cases o with
    | some t => exact (blames_skipWhile _).bind fun _ => ih (a :: seen)
    | none => exact (blames_expect _ _).bind fun _ => blames_pure _

theorem blames_bracketed {item : Parser α} (hitem : Blames T E item) (rounds : Nat)
    (closing : Symbol) (wanted : Wanted) : Blames T E (bracketed rounds closing wanted item) := by
  unfold bracketed
  refine (blames_skipWhile _).bind fun _ => (blames_accept _).bind fun o => ?_
  cases o with
  | some t => exact blames_pure _
  | none => exact blames_bracketedItems hitem closing wanted rounds []

/-! ## Expressions -/

/-- The rules for nested parts blame what is good. -/
structure Rules.Blame (T : Token → Prop) (E : Located LexError → Prop) (r : Rules) : Prop where
  expression : Blames T E r.expression
  operand : Blames T E r.operand
  statement : Blames T E r.statement

variable {r : Rules}

theorem blames_moreStatements {statement : Parser Stmt} (hst : Blames T E statement)
    (closing : Closing) (rounds : Nat) (seen : List Stmt) :
    Blames T E (moreStatements statement closing rounds seen) := by
  induction rounds generalizing seen with
  | zero => exact blames_throw trivial
  | succ rounds ih =>
    unfold moreStatements
    refine blames_current_bind fun t ht => ?_
    split
    · exact blames_pure _
    · split
      · exact blames_failAt ht _
      · refine hst.bind fun s => blames_current_bind fun u hu => ?_
        split
        · exact ih (s :: seen)
        · split
          · exact (blames_skipWhile _).bind fun _ => ih (s :: seen)
          · exact blames_failAt hu _

/-- A list of statements fails at one of its tokens, or where the scan failed. -/
theorem blames_statements (hr : r.Blame T E) (closing : Closing) :
    Blames T E (statements r closing) :=
  (blames_skipWhile _).bind fun _ => blames_moreStatements hr.statement closing _ _

theorem blames_parameters : Blames T E (parameters r) := by
  unfold parameters
  refine (blames_accept _).bind fun o => ?_
  cases o with
  | some _ => exact blames_bracketed blames_expectName _ _ _
  | none => exact blames_pure _

theorem blames_functionBody (hr : r.Blame T E) (pos : Pos) (names : List String) :
    Blames T E (functionBody r pos names) := by
  unfold functionBody
  refine (blames_accept _).bind fun o => ?_
  cases o with
  | some _ =>
    refine (blames_statements hr .body).bind fun body => ?_
    exact (blames_expect _ _).bind fun _ => blames_pure _
  | none =>
    refine (blames_accept _).bind fun o => ?_
    cases o with
    | some _ => exact hr.expression.bind fun e => blames_pure _
    | none => exact blames_current_bind fun t ht => blames_failAt ht _

theorem blames_functionLiteral (hr : r.Blame T E) : Blames T E (functionLiteral r) := by
  rw [functionLiteral_eq]
  refine blames_advance.bind fun start => blames_parameters.bind fun params => ?_
  exact blames_functionBody hr _ _

theorem blames_tupleEntry (hr : r.Blame T E) : Blames T E (tupleEntry r) := by
  unfold tupleEntry
  refine hr.expression.bind fun e => ?_
  split
  · refine (blames_accept _).bind fun o => ?_
    cases o with
    | some _ => exact hr.expression.bind fun value => blames_pure _
    | none => exact blames_pure _
  · exact blames_pure _

theorem blames_primary (hr : r.Blame T E) : Blames T E (primary r) := by
  unfold primary
  refine blames_current_bind fun t ht => ?_
  split
  · exact blames_advance.bind fun _ => blames_pure _
  · exact blames_advance.bind fun _ => blames_pure _
  · refine blames_advance.bind fun _ => (blames_skipWhile _).bind fun _ => ?_
    refine hr.expression.bind fun e => (blames_skipWhile _).bind fun _ => ?_
    exact (blames_expect _ _).bind fun _ => blames_pure _
  · refine blames_advance.bind fun _ => ?_
    exact (blames_bracketed hr.expression _ _ _).bind fun elements => blames_pure _
  · refine blames_advance.bind fun _ => ?_
    exact (blames_bracketed (blames_tupleEntry hr) _ _ _).bind fun entries => blames_pure _
  · exact blames_functionLiteral hr
  · exact blames_failAt ht _
  · split
    · exact blames_failAt ht _
    · exact blames_failAt ht _

theorem blames_position (ds : List Char) : Blames T E (position ds) := by
  unfold position
  split
  · exact blames_throw trivial
  · exact blames_pure _

theorem blames_member (target : Expr) (dot : Token) : Blames T E (member target dot) := by
  unfold member
  refine blames_current_bind fun t ht => ?_
  split
  · exact blames_advance.bind fun _ => blames_pure _
  · exact blames_advance.bind fun _ => (blames_position _).bind fun _ => blames_pure _
  · refine blames_advance.bind fun _ => (blames_position _).bind fun _ => ?_
    exact (blames_position _).bind fun _ => blames_pure _
  · split
    · exact blames_failAt ht _
    · exact blames_failAt ht _

theorem blames_indicator : Blames T E indicator := by
  unfold indicator
  refine blames_current_bind fun t ht => ?_
  split
  · exact blames_advance.bind fun _ => blames_pure _
  · refine (blames_accept _).bind fun o => ?_
    cases o with
    | some _ => exact (blames_expect _ _).bind fun _ => blames_pure _
    | none =>
      refine (blames_accept _).bind fun o => ?_
      cases o with
      | some _ => exact (blames_expect _ _).bind fun _ => blames_pure _
      | none => exact blames_failAt ht _

theorem blames_trailers (hr : r.Blame T E) (rounds : Nat) (e : Expr) :
    Blames T E (trailers r rounds e) := by
  induction rounds generalizing e with
  | zero => exact blames_throw trivial
  | succ rounds ih =>
    unfold trailers
    refine blames_current_bind fun t _ => ?_
    split
    · refine blames_advance.bind fun _ => ?_
      exact (blames_bracketed hr.expression _ _ _).bind fun args => ih _
    · refine blames_advance.bind fun _ => (blames_skipWhile _).bind fun _ => ?_
      refine hr.expression.bind fun index => (blames_skipWhile _).bind fun _ => ?_
      exact (blames_expect _ _).bind fun _ => ih _
    · exact blames_advance.bind fun _ => (blames_member e t).bind fun e' => ih e'
    · exact blames_advance.bind fun _ => blames_indicator.bind fun text => ih _
    · exact blames_pure _

theorem blames_unary (hr : r.Blame T E) : Blames T E (unary r) := by
  unfold unary
  refine blames_current_bind fun t _ => ?_
  split
  · exact blames_advance.bind fun _ => hr.operand.bind fun e => blames_pure _
  · exact (blames_primary hr).bind fun e => blames_trailers hr _ e

theorem blames_joined {operand : Parser Expr} (hoperand : Blames T E operand)
    (isOp : Token → Bool) (rounds : Nat) : Blames T E (joined rounds isOp operand) := by
  have hmore : ∀ (rounds : Nat) (left : Expr),
      Blames T E (moreOperands isOp operand rounds left) := by
    intro rounds
    induction rounds with
    | zero =>
      intro left
      exact blames_throw trivial
    | succ rounds ih =>
      intro left
      unfold moreOperands
      refine (blames_accept _).bind fun o => ?_
      cases o with
      | none => exact blames_pure _
      | some op => exact hoperand.bind fun right => ih _
  exact hoperand.bind fun left => hmore rounds left

theorem blames_expression (hr : r.Blame T E) : Blames T E (expression r) :=
  blames_joined (blames_joined (blames_joined (blames_joined (blames_unary hr) _ _) _ _) _ _) _ _

/-! ## Statements -/

theorem blames_blockUntilEnd (hr : r.Blame T E) (opener : Token) :
    Blames T E (blockUntilEnd r opener) :=
  (blames_statements hr .body).bind fun _ => blames_pure _

theorem blames_loopBody (hr : r.Blame T E) : Blames T E (loopBody r) := by
  unfold loopBody
  refine (blames_expect _ _).bind fun opener => ?_
  refine (blames_blockUntilEnd hr opener).bind fun body => ?_
  exact (blames_expect _ _).bind fun _ => blames_pure _

theorem blames_varDef (hr : r.Blame T E) : Blames T E (varDef r) := by
  unfold varDef
  refine blames_expectName.bind fun name => (blames_accept _).bind fun o => ?_
  cases o with
  | some _ => exact hr.expression.bind fun e => blames_pure _
  | none => exact blames_pure _

theorem blames_declaration (hr : r.Blame T E) : Blames T E (declaration r) := by
  unfold declaration
  refine blames_advance.bind fun start => ?_
  exact (blames_items (blames_pure _) (blames_varDef hr) _).bind fun vars => blames_pure _

theorem blames_print (hr : r.Blame T E) : Blames T E (print r) := by
  unfold print
  refine blames_advance.bind fun start => ?_
  exact (blames_items (blames_skipWhile _) hr.expression _).bind fun values => blames_pure _

theorem blames_conditional (hr : r.Blame T E) : Blames T E (conditional r) := by
  unfold conditional
  refine blames_advance.bind fun start => hr.expression.bind fun condition => ?_
  refine (blames_accept _).bind fun o => ?_
  cases o with
  | some thenWord =>
    refine (blames_statements hr .branch).bind fun body => (blames_accept _).bind fun o => ?_
    cases o with
    | some elseWord =>
      refine (blames_blockUntilEnd hr elseWord).bind fun other => ?_
      exact (blames_expect _ _).bind fun _ => blames_pure _
    | none => exact (blames_expect _ _).bind fun _ => blames_pure _
  | none =>
    refine (blames_accept _).bind fun o => ?_
    cases o with
    | some arrow => exact hr.statement.bind fun s => blames_pure _
    | none => exact blames_current_bind fun t ht => blames_failAt ht _

theorem blames_whileLoop (hr : r.Blame T E) : Blames T E (whileLoop r) := by
  unfold whileLoop
  refine blames_advance.bind fun start => hr.expression.bind fun condition => ?_
  exact (blames_loopBody hr).bind fun body => blames_pure _

theorem blames_loopSource (hr : r.Blame T E) : Blames T E (loopSource r) := by
  unfold loopSource
  refine hr.expression.bind fun e => ?_
  split
  · refine (blames_accept _).bind fun o => ?_
    cases o with
    | some _ => exact hr.expression.bind fun source => blames_pure _
    | none => exact blames_pure _
  · exact blames_pure _

theorem blames_forLoop (hr : r.Blame T E) : Blames T E (forLoop r) := by
  unfold forLoop
  refine blames_advance.bind fun start => blames_current_bind fun t ht => ?_
  split
  · exact blames_failAt ht _
  · refine (blames_loopSource hr).bind fun o => ?_
    obtain ⟨loopVar, source⟩ := o
    refine (blames_accept _).bind fun o => ?_
    cases o with
    | some _ =>
      refine hr.expression.bind fun rangeEnd => ?_
      exact (blames_loopBody hr).bind fun body => blames_pure _
    | none => exact (blames_loopBody hr).bind fun body => blames_pure _

theorem blames_endlessLoop (hr : r.Blame T E) : Blames T E (endlessLoop r) := by
  unfold endlessLoop
  exact blames_current_bind fun start _ => (blames_loopBody hr).bind fun body => blames_pure _

theorem blames_returnStmt (hr : r.Blame T E) : Blames T E (returnStmt r) := by
  unfold returnStmt
  refine blames_advance.bind fun start => blames_current_bind fun t _ => ?_
  split
  · exact blames_pure _
  · exact hr.expression.bind fun e => blames_pure _

theorem blames_assignment (hr : r.Blame T E) : Blames T E (assignment r) := by
  unfold assignment
  refine blames_current_bind fun start hstart => hr.expression.bind fun e => ?_
  refine (blames_accept _).bind fun o => ?_
  cases o with
  | some _ =>
    dsimp only
    split
    · exact hr.expression.bind fun value => blames_pure _
    · -- The target has been read by now; what is blamed is its first token.
      exact blames_failAt hstart _
  | none => exact blames_pure _

theorem blames_statement (hr : r.Blame T E) : Blames T E (statement r) := by
  unfold statement
  refine blames_current_bind fun t _ => ?_
  split
  · exact blames_declaration hr
  · exact blames_print hr
  · exact blames_conditional hr
  · exact blames_whileLoop hr
  · exact blames_forLoop hr
  · exact blames_endlessLoop hr
  · exact blames_returnStmt hr
  · exact blames_advance.bind fun _ => blames_pure _
  · exact blames_advance.bind fun _ => blames_pure _
  · exact blames_assignment hr

/-! ## All levels -/

theorem blame_ofLevel (rounds level : Nat) : (Rules.ofLevel rounds level).Blame T E := by
  induction level with
  | zero =>
    -- At the deepest level every rule gives up, and blames nothing in the text.
    exact ⟨blames_throw trivial, blames_throw trivial, blames_throw trivial⟩
  | succ level ih => exact ⟨blames_expression ih, blames_unary ih, blames_statement ih⟩

/-! ## Whole texts -/

/-- A list of statements that runs up to the end of the text stops there. -/
theorem isEof_of_moreStatements {statement : Parser Stmt} {rounds : Nat} {seen ss : List Stmt}
    {s s' : Stream} (h : moreStatements statement .file rounds seen s = .ok (ss, s')) :
    s'.current.isEof = true := by
  induction rounds generalizing seen s with
  | zero => cases h
  | succ rounds ih =>
    unfold moreStatements at h
    obtain ⟨t, s₁, ht, h⟩ := bind_eq_ok.mp h
    obtain ⟨rfl, rfl⟩ := current_eq_ok.mp ht
    split at h
    next hstops =>
      obtain ⟨-, rfl⟩ := pure_eq_ok.mp h
      exact hstops
    · split at h
      · exact absurd h failAt_ne_ok
      · obtain ⟨st, s₂, -, h⟩ := bind_eq_ok.mp h
        obtain ⟨u, s₃, -, h⟩ := bind_eq_ok.mp h
        split at h
        · exact ih h
        · split at h
          · obtain ⟨_, s₄, -, h⟩ := bind_eq_ok.mp h
            exact ih h
          · exact absurd h failAt_ne_ok

/-- The stream of a feed, or the failure of a feed without tokens. -/
theorem Stream.sound_ofFeed {f : Feed} (htokens : ∀ t ∈ f.tokens, T t)
    (hending : ∀ t, f.ending = .ok t → T t) (hfailure : ∀ e, f.ending = .error e → E e) :
    (∀ s, Stream.ofFeed f = .ok s → s.Sound T E) ∧
      ∀ g, Stream.ofFeed f = .error g → g.Blames T E := by
  constructor
  · intro s hs
    refine ⟨Stream.all_ofFeed htokens hending hs, ?_⟩
    obtain ⟨tokens, ending⟩ := f
    cases tokens with
    | cons t rest =>
      cases hs
      exact hfailure
    | nil =>
      cases ending with
      | ok eof =>
        cases hs
        exact hfailure
      | error e => cases hs
  · intro g hg
    obtain ⟨tokens, ending⟩ := f
    cases tokens with
    | cons t rest => cases hg
    | nil =>
      cases ending with
      | ok eof => cases hg
      | error e =>
        cases hg
        exact hfailure e rfl

/-- Parsing fails at a token of the text, at its end, or where the scan failed. A text that is read
as a program is read up to a token that stands for its end. -/
theorem blames_parseFeed {f : Feed} (htokens : ∀ t ∈ f.tokens, T t)
    (hending : ∀ t, f.ending = .ok t → T t) (hfailure : ∀ e, f.ending = .error e → E e)
    (nesting : Nat) :
    (∀ g, parseFeed nesting f = .error g → g.Blames T E) ∧
      ∀ p, parseFeed nesting f = .ok p → ∃ t, T t ∧ t.isEof = true := by
  obtain ⟨hsound, hblames⟩ := Stream.sound_ofFeed htokens hending hfailure
  unfold parseFeed
  cases hs : Stream.ofFeed f with
  | error e =>
    constructor
    · intro g hg
      cases hg
      exact hblames _ hs
    · intro p hp
      cases hp
  | ok s =>
    have hx := blames_statements (blame_ofLevel (f.tokens.length + 1) nesting) .file s (hsound s hs)
    cases hrun : statements (Rules.ofLevel (f.tokens.length + 1) nesting) .file s with
    | error e =>
      simp only [bind, Except.bind, StateT.run, hrun]
      constructor
      · intro g hg
        cases hg
        exact hx.2 _ hrun
      · intro p hp
        cases hp
    | ok result =>
      obtain ⟨ss, s'⟩ := result
      simp only [bind, Except.bind, StateT.run, hrun]
      constructor
      · intro g hg
        cases hg
      · intro p hp
        obtain ⟨_, s₁, -, hmore⟩ := bind_eq_ok.mp hrun
        exact ⟨s'.current, (hx.1 ss s' hrun).tokens.1, isEof_of_moreStatements hmore⟩

end Dee.Grammar
