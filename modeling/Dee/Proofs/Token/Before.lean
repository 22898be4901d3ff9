import Dee.Proofs.Token.Inside

/-!
# Tokens before a failure

A scan goes forward: each token starts before the cursor that is behind it. So a failure of the scan
lies behind all tokens that were found before it, wherever in the gap or at the character behind it
the scan fails.

Main statement: `Feed.before_failure`.
-/

namespace Dee

namespace Pos

/-- A position on an earlier line, or at an earlier column of the same line. -/
def Before (p q : Pos) : Prop :=
  p.line < q.line ∨ p.line = q.line ∧ p.column < q.column

instance (p q : Pos) : Decidable (p.Before q) :=
  inferInstanceAs (Decidable (_ ∨ _))

variable {p q : Pos}

theorem Before.trans {r : Pos} (h : p.Before q) (h' : q.Before r) : p.Before r := by
  unfold Before at *
  omega

theorem before_next (p : Pos) (c : Char) : p.Before (p.next c) := by
  unfold Before next
  split
  · left
    show p.line < p.line + 1
    omega
  · right
    show p.line = p.line ∧ p.column < p.column + 1
    omega

theorem Before.advance (h : p.Before q) (cs : List Char) : p.Before (q.advance cs) := by
  induction cs generalizing q with
  | nil => exact h
  | cons c cs ih => exact ih (h.trans (before_next q c))

theorem before_advance (p : Pos) {cs : List Char} (hcs : cs ≠ []) : p.Before (p.advance cs) := by
  cases cs with
  | nil => exact absurd rfl hcs
  | cons c cs => exact (before_next p c).advance cs

end Pos

namespace Cursor

variable {c c' : Cursor}

/-- A token starts at the cursor or ahead of it, and the cursor behind it has gone further. -/
theorem before_of_next {t : Token} (h : c.next = (.ok t, c')) (heof : t.isEof = false) :
    ∃ gap, t.pos = c.pos.advance gap ∧ t.pos.Before c'.pos := by
  unfold next at h
  split at h
  · cases h
  next c₁ hskip =>
    obtain ⟨gap, -, hpos, -, -⟩ := skipGap_ok hskip
    rcases token_ok h with ⟨-, rfl⟩ | htakes
    · cases heof
    · refine ⟨gap, htakes.pos.trans hpos, ?_⟩
      rw [htakes.next, htakes.pos]
      exact Pos.before_advance _ htakes.spelling.ne_nil

/-- A scan fails at the cursor or ahead of it. -/
theorem advance_of_next_error {e : Located LexError} (h : c.next = (.error e, c')) :
    ∃ gap, e.pos = c.pos.advance gap := by
  unfold next at h
  split at h
  next e' c₁ hskip =>
    cases h
    rcases skipGapFrom_error hskip with hmode | ⟨taken, -, -, hpos⟩
    · cases hmode
    · exact ⟨taken, hpos⟩
  next c₁ hskip =>
    obtain ⟨gap, -, hpos, -, -⟩ := skipGap_ok hskip
    exact ⟨gap, (token_error h).trans hpos⟩

end Cursor

namespace Feed

theorem before_of_scan {steps : Nat} {c : Cursor} {seen : List Token} {e : Located LexError}
    (hseen : ∀ t ∈ seen, t.pos.Before c.pos) (h : (scan steps c seen).ending = .error e) :
    ∀ t ∈ (scan steps c seen).tokens, t.pos.Before e.pos := by
  induction steps generalizing c seen with
  | zero => cases h
  | succ steps ih =>
    rcases hx : c.next with ⟨result, c'⟩
    unfold scan at h ⊢
    rw [hx] at h ⊢
    cases result with
    | error e' =>
      cases h
      obtain ⟨gap, hpos⟩ := Cursor.advance_of_next_error hx
      intro t ht
      rw [hpos]
      exact (hseen t (List.mem_reverse.mp ht)).advance gap
    | ok t =>
      dsimp only at h ⊢
      cases heof : t.isEof with
      | true =>
        rw [heof] at h
        cases h
      | false =>
        rw [heof] at h
        obtain ⟨gap, hpos, hbefore⟩ := Cursor.before_of_next hx heof
        refine ih ?_ h
        intro u hu
        rcases List.mem_cons.mp hu with rfl | hu
        · exact hbefore
        · -- What lies before the cursor lies before the token, which is ahead of the cursor.
          have hbehind := (hseen u hu).advance gap
          rw [← hpos] at hbehind
          exact hbehind.trans hbefore

/-- All tokens that a scan finds lie before the failure that stops it. -/
theorem before_failure {source : String} {e : Located LexError}
    (h : (ofText source).ending = .error e) :
    ∀ t ∈ (ofText source).tokens, t.pos.Before e.pos :=
  before_of_scan (by simp) h

end Feed

end Dee
