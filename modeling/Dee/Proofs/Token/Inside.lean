import Dee.Proofs.Token.Tiles

/-!
# Positions inside the text

A position lies inside a text if it is the position of a character of the text or of its end. A
cursor that scans a text stands at such positions only, so every token lies inside the text, and so
does a failure of the scan: a comment that is never closed is blamed on its opening, and all other
failures on the character where a token was to start.

Main statement: `Feed.inside_ofText`.
-/

namespace Dee

/-! ## Positions -/

/-- The position of a character of the text or of its end. -/
def Pos.Inside (text : List Char) (pos : Pos) : Prop :=
  ∃ before after, text = before ++ after ∧ pos = .behind before

/-- Lines and columns are counted from one. -/
theorem Pos.Inside.one_le {text : List Char} {pos : Pos} (h : pos.Inside text) :
    1 ≤ pos.line ∧ 1 ≤ pos.column := by
  obtain ⟨before, after, -, rfl⟩ := h
  unfold Pos.behind
  constructor
  · show (1 : Int) ≤ 1 + (before.count '\n' : Int)
    omega
  · show (1 : Int) ≤ 1 + ((before.reverse.takeWhile (· ≠ '\n')).length : Int)
    omega

namespace Cursor

/-! ## Steps of a cursor -/

/-- A cursor stands in a text: what is ahead of it ends the text, and its position is counted from
what lies behind it. -/
def Within (text : List Char) (c : Cursor) : Prop :=
  ∃ before, text = before ++ c.rest ∧ c.pos = .behind before

variable {text : List Char} {c c' : Cursor}

theorem Within.inside (h : c.Within text) : c.pos.Inside text := by
  obtain ⟨before, htext, hpos⟩ := h
  exact ⟨before, c.rest, htext, hpos⟩

/-- A cursor that takes characters stays in the text. -/
theorem Within.take (h : c.Within text) {taken : List Char} (hrest : c.rest = taken ++ c'.rest)
    (hpos : c'.pos = c.pos.advance taken) : c'.Within text := by
  obtain ⟨before, htext, hbefore⟩ := h
  refine ⟨before ++ taken, ?_, ?_⟩
  · rw [htext, hrest, List.append_assoc]
  · rw [hpos, hbefore, Pos.advance_behind]

/-- A gap fails where a comment was opened: before the walk, or at a character that it took. -/
theorem skipGapFrom_error {offset : Nat} {pos : Pos} {mode : GapMode} {cs : List Char}
    {e : Located LexError} (h : skipGapFrom offset pos mode cs = (.error e, c')) :
    mode = .blockComment e.pos ∨ ∃ taken ahead, cs = taken ++ ahead ∧
      e.pos = pos.advance taken := by
  fun_induction skipGapFrom offset pos mode cs with
  | case1 offset pos rest ih =>
    rcases ih h with hmode | ⟨taken, ahead, rfl, hpos⟩
    · cases hmode
    · exact Or.inr ⟨'/' :: '/' :: taken, ahead, rfl, hpos⟩
  | case2 offset pos rest ih =>
    rcases ih h with hmode | ⟨taken, ahead, rfl, hpos⟩
    · -- The comment that is left open is the one that starts here.
      rw [GapMode.blockComment.injEq] at hmode
      exact Or.inr ⟨[], '/' :: '*' :: rest, rfl, hmode.symm⟩
    · exact Or.inr ⟨'/' :: '*' :: taken, ahead, rfl, hpos⟩
  | case3 offset pos ch rest _ _ _ ih =>
    rcases ih h with hmode | ⟨taken, ahead, rfl, hpos⟩
    · cases hmode
    · exact Or.inr ⟨ch :: taken, ahead, rfl, hpos⟩
  | case4 offset pos ch rest _ _ _ => cases h
  | case5 offset pos => cases h
  | case6 offset pos rest => cases h
  | case7 offset pos ch rest _ ih =>
    rcases ih h with hmode | ⟨taken, ahead, rfl, hpos⟩
    · cases hmode
    · exact Or.inr ⟨ch :: taken, ahead, rfl, hpos⟩
  | case8 offset pos => cases h
  | case9 offset pos opened rest ih =>
    rcases ih h with hmode | ⟨taken, ahead, rfl, hpos⟩
    · cases hmode
    · exact Or.inr ⟨'*' :: '/' :: taken, ahead, rfl, hpos⟩
  | case10 offset pos opened ch rest _ ih =>
    rcases ih h with hmode | ⟨taken, ahead, rfl, hpos⟩
    · exact Or.inl hmode
    · exact Or.inr ⟨ch :: taken, ahead, rfl, hpos⟩
  | case11 offset pos opened =>
    cases h
    exact Or.inl rfl

/-- A token fails where it was to start. -/
theorem token_error {e : Located LexError} (h : c.token = (.error e, c')) : e.pos = c.pos := by
  unfold token at h
  split at h
  · cases h
  · split at h
    · cases h
    · split at h
      · cases h
      · split at h
        · split at h
          · cases h
          · cases h
            rfl
        · split at h
          · cases h
          · split at h
            · cases h
            · cases h
              rfl

/-- One step of a scan finds the end or a token, both inside the text, and stays in the text. -/
theorem Within.next_ok (h : c.Within text) {t : Token} (hnext : c.next = (.ok t, c')) :
    t.pos.Inside text ∧ (t.isEof = false → c'.Within text) := by
  unfold next at hnext
  split at hnext
  · cases hnext
  next c₁ hskip =>
    obtain ⟨gap, hrest, hpos, -, -⟩ := skipGap_ok hskip
    have h₁ : c₁.Within text := h.take hrest hpos
    rcases token_ok hnext with ⟨-, rfl⟩ | htakes
    · refine ⟨h₁.inside, ?_⟩
      intro heof
      cases heof
    · refine ⟨?_, fun _ => h₁.take htakes.text htakes.next⟩
      rw [htakes.pos]
      exact h₁.inside

theorem Within.next_error (h : c.Within text) {e : Located LexError}
    (hnext : c.next = (.error e, c')) : e.pos.Inside text := by
  unfold next at hnext
  split at hnext
  next e' c₁ hskip =>
    cases hnext
    obtain ⟨before, htext, hbefore⟩ := h
    rcases skipGapFrom_error hskip with hmode | ⟨taken, ahead, hrest, hpos⟩
    · -- The walk starts outside of comments.
      cases hmode
    · refine ⟨before ++ taken, ahead, ?_, ?_⟩
      · rw [htext, hrest, List.append_assoc]
      · rw [hpos, hbefore, Pos.advance_behind]
  next c₁ hskip =>
    obtain ⟨gap, hrest, hpos, -, -⟩ := skipGap_ok hskip
    rw [token_error hnext]
    exact (h.take hrest hpos).inside

end Cursor

/-! ## Whole texts -/

namespace Feed

/-- All that a scan found lies inside the text, and the end stands behind all other tokens. -/
structure Inside (text : List Char) (f : Feed) : Prop where
  tokens : ∀ t ∈ f.tokens, t.isEof = false ∧ t.pos.Inside text
  ending : ∀ t, f.ending = .ok t → t.isEof = true ∧ t.pos.Inside text
  failure : ∀ e, f.ending = .error e → e.pos.Inside text

theorem inside_scan {text : List Char} (steps : Nat) {c : Cursor} {seen : List Token}
    (hc : c.Within text) (hseen : ∀ t ∈ seen, t.isEof = false ∧ t.pos.Inside text) :
    (scan steps c seen).Inside text := by
  induction steps generalizing c seen with
  | zero =>
    -- A scan without steps ends where the cursor stands.
    refine ⟨fun t ht => hseen t (List.mem_reverse.mp ht), ?_, ?_⟩
    · rintro t ⟨⟩
      exact ⟨rfl, hc.inside⟩
    · rintro e ⟨⟩
  | succ steps ih =>
    rcases hx : c.next with ⟨result, c'⟩
    unfold scan
    rw [hx]
    cases result with
    | error e =>
      refine ⟨fun t ht => hseen t (List.mem_reverse.mp ht), ?_, ?_⟩
      · rintro t ⟨⟩
      · rintro e' ⟨⟩
        exact hc.next_error hx
    | ok t =>
      obtain ⟨ht, hc'⟩ := hc.next_ok hx
      dsimp only
      cases heof : t.isEof with
      | true =>
        refine ⟨fun u hu => hseen u (List.mem_reverse.mp hu), ?_, ?_⟩
        · rintro u ⟨⟩
          exact ⟨heof, ht⟩
        · rintro e ⟨⟩
      | false =>
        refine ih (hc' heof) ?_
        intro u hu
        rcases List.mem_cons.mp hu with rfl | hu
        · exact ⟨heof, ht⟩
        · exact hseen u hu

/-- The tokens of a text and the failure that stops its scan lie inside the text. -/
theorem inside_ofText (source : String) : (ofText source).Inside source.toList :=
  inside_scan _ ⟨[], rfl, rfl⟩ (by simp)

end Feed

end Dee
