import Dee.Grammar.Expression
import Dee.Proofs.Spacing.Follows

/-!
# Lists of statements side by side

Behind a statement the parser stands either at separators, which it skips, or at the word that
closes the list. Between two statements of texts that resemble each other it stands at the same of
the two; only behind the last statement there may be separators in one text and none in the other,
and then both go on at the end.

Main statement: `SideBySide.follows_statements`.
-/

namespace Dee.Grammar

/-! ## Where expressions and statements start -/

/-- Whether an expression or a statement may start with a token, as far as separators and the words
that close blocks are concerned. -/
def startsPart (t : Token) : Bool := t.isMark && !endsStatement t

/-- A parser succeeds only where an expression or a statement may start. -/
def NeedsPart {α : Type} (x : Parser α) : Prop :=
  ∀ s a s', x s = .ok (a, s') → startsPart s.current = true

theorem startsPart_iff {t : Token} :
    startsPart t = true ↔ t.isMark = true ∧ endsStatement t = false := by
  simp [startsPart]

theorem NeedsPart.bind {α β : Type} {x : Parser α} (h : NeedsPart x) (f : α → Parser β) :
    NeedsPart (x >>= f) := by
  intro s b s' hx
  obtain ⟨a, s₁, ha, -⟩ := bind_eq_ok.mp hx
  exact h s a s₁ ha

/-! ## Going on behind a statement -/

/-- Goes on behind a statement: at the word that closes the list, or behind separators. -/
def goOn (statement : Parser Stmt) (closing : Closing) (rounds : Nat) (seen : List Stmt) :
    Parser (List Stmt) := do
  let t ← current
  if closing.stops t || endsStatement t then moreStatements statement closing rounds seen
  else if t.isSeparator then
    skipSeparators
    moreStatements statement closing rounds seen
  else failAt t (.expected .separator t)

variable {statement : Parser Stmt} {closing : Closing} {rounds : Nat}
    {seen : List Stmt} {s : Stream}

theorem moreStatements_of_stops (h : closing.stops s.current = true) :
    moreStatements statement closing (rounds + 1) seen s = .ok (seen.reverse, s) := by
  unfold moreStatements
  rw [bind_of_ok (current_eq_ok.mpr ⟨rfl, rfl⟩), if_pos h]
  rfl

theorem moreStatements_of_statement (hstops : closing.stops s.current = false)
    (heof : s.current.isEof = false) :
    moreStatements statement closing (rounds + 1) seen s =
      (statement >>= fun a => goOn statement closing rounds (a :: seen)) s := by
  conv => lhs; unfold moreStatements
  rw [bind_of_ok (current_eq_ok.mpr ⟨rfl, rfl⟩), if_neg (by simp [hstops]), if_neg (by simp [heof])]
  rfl

/-- Only a closing token ends a list, and only a statement goes on with it. -/
theorem stops_or_startsPart {r : List Stmt × Stream} (hst : NeedsPart statement)
    (h : moreStatements statement closing rounds seen s = .ok r) :
    closing.stops s.current = true ∨ startsPart s.current = true := by
  cases rounds with
  | zero => cases h
  | succ rounds =>
    cases hstops : closing.stops s.current with
    | true => exact Or.inl rfl
    | false =>
      cases heof : s.current.isEof with
      | true =>
        unfold moreStatements at h
        rw [bind_of_ok (current_eq_ok.mpr ⟨rfl, rfl⟩), if_neg (by simp [hstops]), if_pos heof] at h
        exact absurd h failAt_ne_ok
      | false =>
        rw [moreStatements_of_statement hstops heof] at h
        exact Or.inr (hst.bind _ s r.1 r.2 h)

/-- At a pause the list goes on behind the separators, if there are any. -/
theorem goOn_of_pause {S : Setting} (hS : S.eof.isEof = true) {ts : List Token}
    (h : ∀ t ∈ ts.head?, t.isSeparator = true) :
    goOn statement closing rounds seen (S.stream ts) =
      moreStatements statement closing rounds seen (S.stream (ts.dropWhile Token.isSeparator)) := by
  unfold goOn
  rw [bind_of_ok (current_eq_ok.mpr ⟨rfl, rfl⟩)]
  cases ts with
  | nil => exact congrFun (if_pos (by simp [Setting.stream, endsStatement, hS])) _
  | cons t ts =>
    have ht : t.isSeparator = true := h t rfl
    have hword : (closing.stops t || endsStatement t) = false := by
      rcases Token.isSeparator_iff_lexeme.mp ht with hlex | hlex <;> cases closing <;>
        simp [Closing.stops, endsStatement, Token.isEof, Token.isKeyword, hlex]
    show (if closing.stops t || endsStatement t then _ else _ : Parser (List Stmt)) _ = _
    rw [hword, if_neg Bool.false_ne_true]
    show (if t.isSeparator then _ else _ : Parser (List Stmt)) _ = _
    rw [ht, if_pos rfl]
    unfold skipSeparators
    exact bind_of_ok (SideBySide.skipWhile_stream (Token.isSeparator_of_isEof hS) _)

namespace SideBySide

variable {D : SideBySide} {n : Nat}

/-- Neither of the current tokens is a separator. -/
def Trimmed (t t' : Token) : Prop := t.isSeparator = false ∧ t'.isSeparator = false

theorem stops_eq {V : View} {t t' : Token} (h : V.token t = V.token t') (closing : Closing) :
    closing.stops t' = closing.stops t := by
  cases closing <;> simp [Closing.stops, Token.isEof, Token.isKeyword, View.lexeme_eq h]

theorem endsStatement_eq {V : View} {t t' : Token} (h : V.token t = V.token t') :
    endsStatement t' = endsStatement t := by
  simp [endsStatement, Token.isEof, Token.isKeyword, View.lexeme_eq h]

/-- Behind all separators stands no separator. -/
theorem isSeparator_current_dropWhile {S : Setting} (hS : S.eof.isEof = true) (ts : List Token) :
    (S.stream (ts.dropWhile Token.isSeparator)).current.isSeparator = false := by
  cases hdrop : ts.dropWhile Token.isSeparator with
  | nil => exact Token.isSeparator_of_isEof hS
  | cons t rest =>
    have ht := List.head?_dropWhile_not Token.isSeparator ts
    rw [hdrop] at ht
    simpa [Setting.stream] using ht

/-- Where neither current token is a separator, both texts stand at marks that look the same or at
the end. -/
theorem stops_eq_of_trimmed {ts ts' : List Token} (hts : Resembles D.view ts ts')
    (h : Trimmed (D.left.stream ts).current (D.right.stream ts').current) (closing : Closing) :
    closing.stops (D.right.stream ts').current = closing.stops (D.left.stream ts).current := by
  have hend : ∀ t : Token, t.isMark = false → t.isSeparator = false → t.lexeme = .eof := by
    intro t hmark hseparator
    simpa [Token.isMark, hseparator, Token.isEof] using hmark
  rcases current_cases hts with ⟨-, hsame⟩ | ⟨hpause, hpause'⟩
  · exact stops_eq hsame closing
  · cases closing <;>
      simp [Closing.stops, Token.isEof, Token.isKeyword, hend _ hpause h.1, hend _ hpause' h.2]

section Statements

variable {st st' : Parser Stmt} (hpart : NeedsPart st) {closing : Closing} {rounds rounds' : Nat}
  {seen seen' : List Stmt} (hseen : seen.map D.view.stmt = seen'.map D.view.stmt)
include hpart hseen

theorem follows_goOn (hpos : 0 < rounds')
    (hmore : D.Follows rounds' Trimmed (moreStatements st closing rounds seen)
      (moreStatements st' closing rounds' seen') (List.map D.view.stmt)) :
    D.Follows (rounds' + 1) anyTokens (goOn st closing rounds seen) (goOn st' closing rounds' seen')
      (List.map D.view.stmt) := by
  intro ts ts' a s hts _ hn hx
  cases hts.head with
  | pause h h' =>
    rw [goOn_of_pause D.left_isEof h] at hx
    rw [goOn_of_pause D.right_isEof h']
    have hlength : (ts'.dropWhile Token.isSeparator).length < rounds' := by
      cases ts' with
      | nil => exact hpos
      | cons t' rest =>
        have hdrop := List.length_dropWhile_le Token.isSeparator rest
        rw [List.length_cons] at hn
        rw [List.dropWhile_cons, if_pos (h' t' rfl)]
        omega
    have htrimmed : Trimmed _ _ := ⟨isSeparator_current_dropWhile D.left_isEof ts,
      isSeparator_current_dropWhile D.right_isEof ts'⟩
    obtain ⟨k, b, k', hs, hy, hview, hk, hle⟩ :=
      hmore _ _ a s hts.dropSeparators htrimmed hlength hx
    exact ⟨k, b, k', hs, hy, hview, hk, hle.trans (List.length_dropWhile_le _ _)⟩
  | @mark t t' k k' ht hsame more =>
    unfold goOn at hx ⊢
    rw [bind_of_ok (current_eq_ok.mpr ⟨rfl, rfl⟩)] at hx ⊢
    have hx : (if closing.stops t || endsStatement t then _ else if t.isSeparator then _ else _ :
      Parser (List Stmt)) _ = _ := hx
    show ∃ l b l', _ ∧
      (if closing.stops t' || endsStatement t' then _ else _ : Parser (List Stmt)) _ = _ ∧ _
    cases hstops : closing.stops t with
    | true =>
      obtain ⟨rounds', rfl⟩ := Nat.exists_eq_add_of_le' hpos
      cases rounds with
      | zero =>
        rw [hstops, Bool.true_or, if_pos rfl] at hx
        cases hx
      | succ rounds =>
        rw [hstops, Bool.true_or, if_pos rfl, moreStatements_of_stops hstops] at hx
        rw [stops_eq hsame, hstops, Bool.true_or, if_pos rfl,
          moreStatements_of_stops ((stops_eq hsame closing).trans hstops)]
        cases hx
        refine ⟨_, _, _, rfl, rfl, ?_, hts, Nat.le_refl _⟩
        rw [List.map_reverse, List.map_reverse, hseen]
    | false =>
      -- The word ends a block, but not this one: no statement starts with it.
      have hword : endsStatement t = false := by
        cases h : endsStatement t with
        | false => rfl
        | true =>
          rw [h, Bool.or_true, if_pos rfl] at hx
          rcases stops_or_startsPart hpart hx with hstops' | hstarts
          · cases hstops.symm.trans hstops'
          · cases h.symm.trans (startsPart_iff.mp hstarts).2
      rw [hstops, hword, Bool.or_false, if_neg Bool.false_ne_true, (Token.isMark_iff.mp ht).1,
        if_neg Bool.false_ne_true] at hx
      exact absurd hx failAt_ne_ok

end Statements

section Statements

variable {st st' : Parser Stmt} (hpart : NeedsPart st)
    (hst : D.Follows n anyTokens st st' D.view.stmt)
include hpart hst

theorem follows_moreStatements (closing : Closing) (rounds : Nat) {rounds' : Nat}
    (hrounds : rounds' ≤ n)
    {seen seen' : List Stmt} (hseen : seen.map D.view.stmt = seen'.map D.view.stmt) :
    D.Follows rounds' Trimmed (moreStatements st closing rounds seen)
      (moreStatements st' closing rounds' seen') (List.map D.view.stmt) := by
  induction rounds generalizing rounds' seen seen' with
  | zero => exact follows_throw
  | succ rounds ih =>
    cases rounds' with
    | zero => exact follows_zero
    | succ rounds' =>
      intro ts ts' a s hts hpre hn hx
      have hstops' := stops_eq_of_trimmed hts hpre closing
      cases hstops : closing.stops (D.left.stream ts).current with
      | true =>
        rw [moreStatements_of_stops hstops] at hx
        cases hx
        refine ⟨ts, _, ts', rfl, moreStatements_of_stops (hstops'.trans hstops), ?_, hts,
          Nat.le_refl _⟩
        rw [List.map_reverse, List.map_reverse, hseen]
      | false =>
        rcases stops_or_startsPart hpart hx with hstops'' | hstarts
        · cases hstops.symm.trans hstops''
        · have hmark := (startsPart_iff.mp hstarts).1
          rcases current_cases hts with ⟨-, hsame⟩ | ⟨hpause, -⟩
          · have hmark' := (Token.isMark_eq hsame).trans hmark
            have hpos : 0 < rounds' := by
              cases ts' with
              | nil => cases isMark_eof_right.symm.trans hmark'
              | cons t' rest =>
                rw [List.length_cons] at hn
                omega
            rw [moreStatements_of_statement hstops (Token.isMark_iff.mp hmark).2] at hx
            rw [moreStatements_of_statement (hstops'.trans hstops) (Token.isMark_iff.mp hmark').2]
            have hnext : ∀ a b, D.view.stmt a = D.view.stmt b →
                D.Follows (rounds' + 1) anyTokens (goOn st closing rounds (a :: seen))
                  (goOn st' closing rounds' (b :: seen')) (List.map D.view.stmt) := by
              intro a b hab
              have hmore : (a :: seen).map D.view.stmt = (b :: seen').map D.view.stmt := by
                rw [List.map_cons, List.map_cons, hab, hseen]
              exact follows_goOn hpart hmore hpos (ih (Nat.le_of_succ_le hrounds) hmore)
            exact (hst.mono hrounds).bind hnext ts ts' a s hts trivial hn hx
          · cases hpause.symm.trans hmark

end Statements

/-- Rules for nested parts of which the second ones follow the first. -/
structure RulesFollow (D : SideBySide) (r r' : Rules) : Prop where
  expression : D.Follows r'.rounds anyTokens r.expression r'.expression D.view.expr
  operand : D.Follows r'.rounds anyTokens r.operand r'.operand D.view.expr
  statement : D.Follows r'.rounds anyTokens r.statement r'.statement D.view.stmt
  expressionNeeds : NeedsPart r.expression
  statementNeeds : NeedsPart r.statement

variable {r r' : Rules} (hr : D.RulesFollow r r')
include hr

/-- A list of statements is read alike from lists that resemble each other behind the separators at
their start. -/
theorem statements_alike (closing : Closing) {ts ts' : List Token}
    (hts : Resembles D.view (ts.dropWhile Token.isSeparator) (ts'.dropWhile Token.isSeparator))
    (hn : ts'.length < r'.rounds) {a : List Stmt} {s : Stream}
    (hx : statements r closing (D.left.stream ts) = .ok (a, s)) :
    ∃ k b k', s = D.left.stream k ∧ statements r' closing (D.right.stream ts') =
      .ok (b, D.right.stream k') ∧
      a.map D.view.stmt = b.map D.view.stmt ∧ Resembles D.view k k' ∧ k'.length ≤ ts'.length := by
  have hdrop := List.length_dropWhile_le Token.isSeparator ts'
  have htrimmed : Trimmed _ _ := ⟨isSeparator_current_dropWhile D.left_isEof ts,
    isSeparator_current_dropWhile D.right_isEof ts'⟩
  unfold statements skipSeparators at hx ⊢
  rw [bind_of_ok (skipWhile_stream (Token.isSeparator_of_isEof D.left_isEof) ts)] at hx
  rw [bind_of_ok (skipWhile_stream (Token.isSeparator_of_isEof D.right_isEof) ts')]
  obtain ⟨k, b, k', hs, hy, hview, hk, hle⟩ :=
    follows_moreStatements hr.statementNeeds hr.statement closing
    r.rounds (Nat.le_refl _) rfl _ _ a s hts htrimmed (by omega) hx
  exact ⟨k, b, k', hs, hy, hview, hk, by omega⟩

theorem follows_statements (closing : Closing) :
    D.Follows r'.rounds anyTokens (statements r closing) (statements r' closing)
      (List.map D.view.stmt) :=
  fun _ _ _ _ hts _ hn hx => statements_alike hr closing hts.dropSeparators hn hx

end SideBySide

end Dee.Grammar
