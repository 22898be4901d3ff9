import Dee.Grammar.Expression
import Dee.Proofs.Program.Mentions
import Dee.Proofs.Token.Genuine

/-!
# What tokens mention

A list of tokens mentions its names, literals and operators, in their order. Two tokens are read
differently by what stands before them: a real behind a dot is two positions, and a word behind a
type check indicates a type. The word `is` is a type check unless it opens the body of a function,
so the reading also knows whether it stands behind the head of one.

The reading looks at one token at a time and knows nothing of the grammar's nesting.
-/

namespace Dee

/-- What a token mentions when it stands for itself. -/
def Token.mentions (t : Token) : List Mention :=
  match t.lexeme with
  | .name => [.name t.text]
  | .literal value => [.literal value]
  | _ =>
    if Grammar.isUnaryOp t || Grammar.isProductOp t || Grammar.isSumOp t ||
      Grammar.isComparisonOp t || Grammar.isLogicalOp t then [.operator t.text]
    else []

/-- The characters before the point of a real, and those behind it. -/
def aroundPoint (text : String) : List (List Char) :=
  [text.toList.takeWhile (· ≠ '.'), (text.toList.dropWhile (· ≠ '.')).drop 1]

/-- The integers before and behind the point of a real. -/
def halves (text : String) : List Mention :=
  (aroundPoint text).map fun ds => .literal (.int (Decimal.toNat ds))

/-! ## Contexts -/

/-- What stands before a token, as far as its reading depends on it. -/
inductive Context where
  | plain
  /-- Behind the dot of a member. -/
  | dot
  /-- Behind the word of a type check. -/
  | check
  /-- Behind the keyword of a function or behind its parameters. -/
  | head
  /-- In the parameters of a function. -/
  | params
deriving Repr, DecidableEq

namespace Context

/-- What a token mentions in a context. -/
def mentions (c : Context) (t : Token) : List Mention :=
  match c, t.lexeme with
  | .dot, .literal (.real _) => halves t.text
  | .check, _ => if Grammar.isIndicatorWord t then [.indicator t.text] else t.mentions
  | _, _ => t.mentions

/-- The context behind a token. -/
def next : Context → Lexeme → Context
  | .params, .symbol .closeParen => .head
  | .params, _ => .params
  | .head, .symbol .openParen => .params
  | .head, .keyword .isKw => .plain
  | .check, .keyword .funcKw => .plain
  | _, .symbol .dot => .dot
  | _, .keyword .isKw => .check
  | _, .keyword .funcKw => .head
  | _, _ => .plain

/-- What some tokens mention, the first of them in a context. -/
def mentionsAll (c : Context) : List Token → List Mention
  | [] => []
  | t :: rest => c.mentions t ++ (c.next t.lexeme).mentionsAll rest

end Context

/-- What the tokens of a text mention. -/
def mentionsOf (tokens : List Token) : List Mention :=
  Context.plain.mentionsAll tokens

/-! ## Tokens that mention nothing -/

/-- A lexeme is silent between two contexts: its tokens lead from the one to the other and mention
nothing. -/
def Context.Silent (c : Context) (lexeme : Lexeme) (c' : Context) : Prop :=
  ∀ text pos, c.mentions ⟨lexeme, text, pos⟩ = [] ∧ c.next lexeme = c'

theorem Context.Silent.mentions_eq {c c' : Context} {t : Token} (h : c.Silent t.lexeme c') :
    c.mentions t = [] ∧ c.next t.lexeme = c' :=
  h t.text t.pos

/-- The end of the text mentions nothing. -/
theorem Context.mentions_eof (c : Context) {t : Token} (h : t.lexeme = .eof) :
    c.mentions t = [] := by
  obtain ⟨_, text, pos⟩ := t
  cases h
  cases c <;> rfl

/-- A name mentions itself. In the parameters of a function and outside of heads, names leave the
context. -/
theorem Context.mentions_name {c : Context} (hc : c = .plain ∨ c = .params) {t : Token}
    (h : t.lexeme = .name) : c.mentions t = [.name t.text] ∧ c.next t.lexeme = c := by
  obtain ⟨_, text, pos⟩ := t
  cases h
  rcases hc with rfl | rfl <;> exact ⟨rfl, rfl⟩

theorem Context.mentionsAll_append_eof (c : Context) (tokens : List Token) {t : Token}
    (h : t.lexeme = .eof) : c.mentionsAll (tokens ++ [t]) = c.mentionsAll tokens := by
  induction tokens generalizing c with
  | nil => simp [Context.mentionsAll, Context.mentions_eof c h]
  | cons u rest ih => simp [Context.mentionsAll, ih]

/-- An operator mentions itself. -/
theorem Context.mentions_operator {t : Token}
    (h : (Grammar.isUnaryOp t || Grammar.isProductOp t || Grammar.isSumOp t ||
      Grammar.isComparisonOp t || Grammar.isLogicalOp t) = true) :
    Context.plain.mentions t = [.operator t.text] ∧ Context.plain.next t.lexeme = .plain ∧
      t.isEof = false := by
  obtain ⟨lexeme, text, pos⟩ := t
  cases lexeme with
  | symbol s => cases s <;> first | exact ⟨rfl, rfl, rfl⟩ | exact absurd h Bool.false_ne_true
  | keyword k => cases k <;> first | exact ⟨rfl, rfl, rfl⟩ | exact absurd h Bool.false_ne_true
  | literal _ => exact absurd h Bool.false_ne_true
  | name => exact absurd h Bool.false_ne_true
  | newline => exact absurd h Bool.false_ne_true
  | eof => exact absurd h Bool.false_ne_true

/-- A word that indicates a type is read as such behind a type check. -/
theorem Context.mentions_indicator {t : Token} (h : Grammar.isIndicatorWord t = true) :
    Context.check.mentions t = [.indicator t.text] ∧ Context.check.next t.lexeme = .plain ∧
      t.isEof = false := by
  refine ⟨if_pos h, ?_⟩
  obtain ⟨lexeme, text, pos⟩ := t
  cases lexeme with
  | keyword k => cases k <;> first | exact ⟨rfl, rfl⟩ | exact absurd h Bool.false_ne_true
  | symbol s => exact absurd h Bool.false_ne_true
  | literal value => exact ⟨rfl, rfl⟩
  | name => exact ⟨rfl, rfl⟩
  | newline => exact absurd h Bool.false_ne_true
  | eof => exact absurd h Bool.false_ne_true

/-! ## Numbers -/

/-- A number spells its value: an integer by its digits, and a real by digits around a point. -/
def Token.SpellsNumber (t : Token) : Prop :=
  match t.lexeme with
  | .literal (.int n) => n = Decimal.toNat t.text.toList
  | .literal (.real _) => ∃ whole fraction, t.text.toList = whole ++ '.' :: fraction ∧
      whole.all Decimal.isDigit = true ∧ fraction.all Decimal.isDigit = true
  | _ => True

theorem spellsNumber_read (s : List Char) (pos : Pos) :
    (⟨.literal (Numeric.read s).value, String.ofList (Numeric.read s).taken, pos⟩ :
      Token).SpellsNumber := by
  obtain ⟨hwhole, hfraction⟩ := Numeric.all_isDigit_read s
  unfold Token.SpellsNumber Numeric.value Numeric.taken
  by_cases hf : (Numeric.read s).fraction.isEmpty = true
  · rw [if_pos hf, if_pos hf]
    show _ = (Decimal.toNat (String.ofList _).toList : Int)
    rw [String.toList_ofList]
  · rw [if_neg hf, if_neg hf]
    exact ⟨_, _, String.toList_ofList, hwhole, hfraction⟩

/-- No word is a number. -/
theorem spellsNumber_ofWord (word : String) (pos : Pos) :
    (⟨.ofWord word, word, pos⟩ : Token).SpellsNumber := by
  unfold Token.SpellsNumber
  generalize hlex : Lexeme.ofWord word = lexeme
  unfold Lexeme.ofWord at hlex
  repeat' split at hlex
  all_goals
    subst hlex
    trivial

/-- What stands around the point of a real is its digits before the point and behind it. -/
theorem aroundPoint_eq {t : Token} {x : Float} (h : t.SpellsNumber)
    (hlex : t.lexeme = .literal (.real x)) :
    aroundPoint t.text = [t.text.toList.takeWhile Decimal.isDigit,
      (t.text.toList.dropWhile Decimal.isDigit).drop 1] := by
  rw [Token.SpellsNumber, hlex] at h
  obtain ⟨whole, fraction, htext, hwhole, -⟩ := h
  have hdigits : ∀ c ∈ whole, Decimal.isDigit c = true := List.all_eq_true.mp hwhole
  have hpoint : ∀ c ∈ whole, decide (c ≠ '.') = true := by
    intro c hc
    rw [decide_eq_true_iff]
    rintro rfl
    exact absurd (hdigits '.' hc) (by decide)
  unfold aroundPoint
  rw [htext, List.takeWhile_append_of_pos hpoint, List.dropWhile_append_of_pos hpoint,
    List.takeWhile_append_of_pos hdigits, List.dropWhile_append_of_pos hdigits,
    List.takeWhile_cons_of_neg (by decide), List.dropWhile_cons_of_neg (by decide),
    List.takeWhile_cons_of_neg (by decide), List.dropWhile_cons_of_neg (by decide)]

theorem Cursor.spellsNumber_of_next {c c' : Cursor} {t : Token} (h : c.next = (.ok t, c')) :
    t.SpellsNumber := by
  unfold next at h
  split at h
  · cases h
  · unfold token at h
    repeat' split at h
    all_goals first
      | (cases h; done)
      | (cases h; trivial)
      | (cases h; exact spellsNumber_read _ _)
      | (cases h; exact spellsNumber_ofWord _ _)

/-- The numbers of a text spell their values. -/
theorem Feed.spellsNumber_ofText (source : String) :
    ∀ t ∈ (Feed.ofText source).tokens, t.SpellsNumber := by
  refine (Feed.scan_all (fun _ => True) ?_ ?_ _ trivial (by simp)).1
  · intro c c' t _ h
    exact ⟨Cursor.spellsNumber_of_next h, trivial⟩
  · intro c _
    trivial

/-! ## Indicators -/

/-- A word that indicates a type is mentioned. -/
theorem indicatorMentions_of_word {t : Token} (hgenuine : t.Genuine)
    (hword : Grammar.isIndicatorWord t = true) :
    indicatorMentions t.text = [.indicator t.text] := by
  have hname : ∀ text : String, isIdentifier text = true →
      ¬(text = Kind.arrayBrackets ∨ text = Kind.tupleBrackets) := by
    rintro text htext (rfl | rfl)
    · exact absurd htext (by decide)
    · exact absurd htext (by decide)
  refine if_neg ?_
  simp only [Grammar.isIndicatorWord, Bool.or_eq_true, decide_eq_true_iff, Token.isTypeWord,
    Token.isKeyword] at hword
  cases hlex : t.lexeme with
  | keyword k =>
    rw [Token.Genuine, hlex] at hgenuine
    rw [hgenuine]
    cases k <;> decide
  | name =>
    rw [Token.Genuine, hlex] at hgenuine
    exact hname _ hgenuine
  | literal value =>
    simp only [hlex, reduceCtorEq, or_false, false_or, Lexeme.literal.injEq, Bool.false_eq_true]
      at hword
    subst hword
    rw [Token.Genuine, hlex] at hgenuine
    have htext : t.text = Kind.none.name := hgenuine
    rw [htext]
    decide
  | symbol s => simp [hlex] at hword
  | newline => simp [hlex] at hword
  | eof => simp [hlex] at hword

end Dee
