import Dee.Proofs.Spacing.View
import Mathlib.Data.List.DropRight

/-!
# Tokens between separators

Line ends and semicolons separate the other tokens of a text. Two lists of tokens *resemble* each
other if their other tokens look the same in a view, and if the separators between them do the same
for a parser: it can tell whether there are any, and whether there is a semicolon among them. The
separators at the end do not matter.

Resembling lists go on resembling each other behind the line ends, or behind all separators, at
their start.

Main statements: `Resembles.dropNewlines` and `Resembles.dropSeparators`.
-/

namespace Dee

/-! ## Marks -/

namespace Token

/-- Whether a token is neither a separator nor the end of the text. -/
def isMark (t : Token) : Bool := !t.isSeparator && !t.isEof

variable {t t' : Token} {V : View}

theorem isMark_iff : t.isMark = true ↔ t.isSeparator = false ∧ t.isEof = false := by
  simp [isMark]

theorem isMark_iff_lexeme :
    t.isMark = true ↔ t.lexeme ≠ .newline ∧ t.lexeme ≠ .symbol .semicolon ∧ t.lexeme ≠ .eof := by
  simp [isMark, isSeparator, isNewline, isSymbol, isEof, and_assoc]

theorem lexeme_of_not_isMark (h : t.isMark = false) :
    t.lexeme = .newline ∨ t.lexeme = .symbol .semicolon ∨ t.lexeme = .eof := by
  by_contra hnone
  simp only [not_or] at hnone
  cases h.symm.trans (isMark_iff_lexeme.mpr hnone)

theorem isMark_eq (h : V.token t = V.token t') : t'.isMark = t.isMark := by
  rw [Bool.eq_iff_iff, isMark_iff_lexeme, isMark_iff_lexeme, View.lexeme_eq h]

theorem isSeparator_iff_lexeme :
    t.isSeparator = true ↔ t.lexeme = .newline ∨ t.lexeme = .symbol .semicolon := by
  simp [isSeparator, isNewline, isSymbol]

theorem isEof_of_isSeparator (h : t.isSeparator = true) : t.isEof = false := by
  rcases isSeparator_iff_lexeme.mp h with hlex | hlex <;> simp [isEof, hlex]

theorem isSeparator_of_isEof (h : t.isEof = true) : t.isSeparator = false := by
  cases hseparator : t.isSeparator with
  | false => rfl
  | true => cases h.symm.trans (isEof_of_isSeparator hseparator)

theorem isNewline_of_isSeparator (h : t.isSeparator = false) : t.isNewline = false := by
  rw [isSeparator, Bool.or_eq_false_iff] at h
  exact h.1

/-- A separator that is no line end is a semicolon. -/
theorem isSymbol_of_isSeparator (h : t.isSeparator = true) :
    t.isSymbol .semicolon = !t.isNewline := by
  unfold isSeparator at h
  cases hnewline : t.isNewline with
  | false => simpa [hnewline] using h
  | true =>
    have hlex : t.lexeme = .newline := of_decide_eq_true hnewline
    simp [isSymbol, hlex]

theorem isNewline_of_isMark (h : t.isMark = true) : t.isNewline = false :=
  isNewline_of_isSeparator (isMark_iff.mp h).1

end Token

/-! ## Separators between two tokens -/

/-- Whether there is a semicolon among some tokens. -/
def hasSemicolon (ts : List Token) : Bool := ts.any (·.isSymbol .semicolon)

/-- Line ends are skipped up to the first semicolon. -/
theorem dropWhile_isNewline_eq_nil {run : List Token} (h : ∀ t ∈ run, t.isSeparator = true) :
    run.dropWhile Token.isNewline = [] ↔ hasSemicolon run = false := by
  rw [List.dropWhile_eq_nil_iff, hasSemicolon, List.any_eq_false]
  refine forall₂_congr fun t ht => ?_
  simp [Token.isSymbol_of_isSeparator (h t ht)]

theorem hasSemicolon_dropWhile {run : List Token} (h : ∀ t ∈ run, t.isSeparator = true) :
    hasSemicolon (run.dropWhile Token.isNewline) = hasSemicolon run := by
  induction run with
  | nil => rfl
  | cons t run ih =>
    obtain ⟨ht, hrun⟩ := List.forall_mem_cons.mp h
    rw [List.dropWhile_cons]
    split
    next hnewline =>
      rw [ih hrun, hasSemicolon, hasSemicolon, List.any_cons,
        Token.isSymbol_of_isSeparator ht, hnewline]
      rfl
    next => rfl

/-- Two runs of separators that do the same for a parser between two tokens. -/
structure SameGap (run run' : List Token) : Prop where
  left : ∀ t ∈ run, t.isSeparator = true
  right : ∀ t ∈ run', t.isSeparator = true
  isEmpty : run' = [] ↔ run = []
  semicolon : hasSemicolon run' = hasSemicolon run

namespace SameGap

variable {run run' : List Token}

theorem nil : SameGap [] [] :=
  ⟨by simp, by simp, Iff.rfl, rfl⟩

theorem symm (h : SameGap run run') : SameGap run' run :=
  ⟨h.right, h.left, h.isEmpty.symm, h.semicolon.symm⟩

theorem dropNewlines (h : SameGap run run') :
    SameGap (run.dropWhile Token.isNewline) (run'.dropWhile Token.isNewline) where
  left t ht := h.left t (List.dropWhile_subset _ ht)
  right t ht := h.right t (List.dropWhile_subset _ ht)
  isEmpty := by rw [dropWhile_isNewline_eq_nil h.left, dropWhile_isNewline_eq_nil h.right,
    h.semicolon]
  semicolon := by rw [hasSemicolon_dropWhile h.left, hasSemicolon_dropWhile h.right, h.semicolon]

end SameGap

/-! ## Resembling lists -/

/-- The lists look the same but for the separators, and the separators do the same. -/
inductive Resembles (V : View) : List Token → List Token → Prop
  | ending {run run' : List Token} (hrun : ∀ t ∈ run, t.isSeparator = true)
      (hrun' : ∀ t ∈ run', t.isSeparator = true) : Resembles V run run'
  | mark {run run' k k' : List Token} {t t' : Token} (hgap : SameGap run run')
      (ht : t.isMark = true)
      (hsame : V.token t = V.token t') (more : Resembles V k k') :
      Resembles V (run ++ t :: k) (run' ++ t' :: k')

/-- The end of the tokens, or the token they start with. -/
inductive SameHead (V : View) : List Token → List Token → Prop
  | pause {ts ts' : List Token} (h : ∀ t ∈ ts.head?, t.isSeparator = true)
      (h' : ∀ t ∈ ts'.head?, t.isSeparator = true) : SameHead V ts ts'
  | mark {t t' : Token} {k k' : List Token} (ht : t.isMark = true) (hsame : V.token t = V.token t')
      (more : Resembles V k k') : SameHead V (t :: k) (t' :: k')

namespace Resembles

variable {V : View} {ts ts' : List Token}

theorem symm (h : Resembles V ts ts') : Resembles V ts' ts := by
  induction h with
  | ending hrun hrun' => exact .ending hrun' hrun
  | mark hgap ht hsame _ ih =>
    exact .mark hgap.symm ((Token.isMark_eq hsame).trans ht) hsame.symm ih

theorem head (h : Resembles V ts ts') : SameHead V ts ts' := by
  cases h with
  | ending hrun hrun' =>
    exact .pause (fun t ht => hrun t (List.mem_of_mem_head? ht))
      (fun t ht => hrun' t (List.mem_of_mem_head? ht))
  | @mark run run' k k' t t' hgap ht hsame more =>
    cases run with
    | nil =>
      rw [hgap.isEmpty.mpr rfl]
      exact .mark ht hsame more
    | cons u run =>
      cases run' with
      | nil => cases hgap.isEmpty.mp rfl
      | cons u' run' =>
        refine .pause ?_ ?_
        · rintro _ ⟨⟩
          exact hgap.left u List.mem_cons_self
        · rintro _ ⟨⟩
          exact hgap.right u' List.mem_cons_self

/-- Tokens of a run that a test passes are dropped up to the token behind the run. -/
theorem dropWhile_run {test : Token → Bool} {t : Token} (ht : test t = false) (run k : List Token) :
    (run ++ t :: k).dropWhile test = run.dropWhile test ++ t :: k := by
  induction run with
  | nil => simp [ht]
  | cons u run ih =>
    rw [List.cons_append, List.dropWhile_cons, List.dropWhile_cons, ih]
    split <;> rfl

theorem dropNewlines (h : Resembles V ts ts') :
    Resembles V (ts.dropWhile Token.isNewline) (ts'.dropWhile Token.isNewline) := by
  cases h with
  | ending hrun hrun' =>
    exact .ending (fun t ht => hrun t (List.dropWhile_subset _ ht))
      (fun t ht => hrun' t (List.dropWhile_subset _ ht))
  | mark hgap ht hsame more =>
    have ht' := (Token.isMark_eq hsame).trans ht
    rw [dropWhile_run (Token.isNewline_of_isMark ht), dropWhile_run (Token.isNewline_of_isMark ht')]
    exact .mark hgap.dropNewlines ht hsame more

/-- Behind all separators either nothing is left or the lists start with tokens that look the
same. -/
theorem dropSeparators (h : Resembles V ts ts') :
    Resembles V (ts.dropWhile Token.isSeparator) (ts'.dropWhile Token.isSeparator) := by
  cases h with
  | ending hrun hrun' =>
    rw [List.dropWhile_eq_nil_iff.mpr hrun, List.dropWhile_eq_nil_iff.mpr hrun']
    exact .ending (by simp) (by simp)
  | mark hgap ht hsame more =>
    have ht' := (Token.isMark_eq hsame).trans ht
    rw [dropWhile_run (Token.isMark_iff.mp ht).1, dropWhile_run (Token.isMark_iff.mp ht').1,
      List.dropWhile_eq_nil_iff.mpr hgap.left, List.dropWhile_eq_nil_iff.mpr hgap.right]
    exact .mark .nil ht hsame more

end Resembles

end Dee
