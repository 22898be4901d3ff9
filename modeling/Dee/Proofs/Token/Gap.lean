import Dee.Proofs.Token.Genuine
import Mathlib.Data.List.Induction

/-!
# Gaps and positions of a text

What may stand between two tokens, told without a cursor: blanks, comments up to the end of their
line and comments between marks. A cursor that takes a gap takes such characters and leaves none of
them ahead.

`Pos.behind` counts the position behind some characters from the characters alone.

Main statements: `Cursor.skipGap_ok`, `Pos.advance_start`.
-/

namespace Dee

/-! ## Positions -/

/-- The position behind characters: one line for each line end among them, and one column for each
character since the last line end. -/
def Pos.behind (cs : List Char) : Pos :=
  ⟨1 + cs.count '\n', 1 + (cs.reverse.takeWhile (· ≠ '\n')).length⟩

theorem Pos.behind_concat (cs : List Char) (c : Char) :
    Pos.behind (cs ++ [c]) = (Pos.behind cs).next c := by
  unfold Pos.behind Pos.next
  rw [List.count_append, List.reverse_append, List.reverse_singleton, List.singleton_append]
  by_cases hc : c = '\n'
  · subst hc
    rw [if_pos rfl, List.takeWhile_cons_of_neg (by decide), List.count_singleton_self]
    simp only [List.length_nil, Pos.mk.injEq]
    omega
  · have hcount : [c].count '\n' = 0 := by simp [hc]
    rw [if_neg hc, List.takeWhile_cons_of_pos (by simpa using hc), hcount]
    simp only [List.length_cons, Pos.mk.injEq]
    omega

/-- Advancing character by character counts lines and columns. -/
theorem Pos.advance_start (cs : List Char) : Pos.start.advance cs = Pos.behind cs := by
  induction cs using List.reverseRecOn with
  | nil => rfl
  | append_singleton cs c ih =>
    rw [Pos.advance_append, ih, Pos.behind_concat]
    rfl

theorem Pos.advance_behind (cs ds : List Char) :
    (Pos.behind cs).advance ds = Pos.behind (cs ++ ds) := by
  rw [← Pos.advance_start, ← Pos.advance_start, Pos.advance_append]

/-! ## Gaps -/

/-- The first star and slash behind `body` is the pair that follows it. -/
def ClosesFirst (body : List Char) : Prop :=
  ∀ before after, body ++ ['*', '/'] = before ++ '*' :: '/' :: after → after = []

/-- The characters of a gap that stands before `ahead`. -/
inductive Gap : (gap ahead : List Char) → Prop
  | nil (ahead : List Char) : Gap [] ahead
  | blank {c : Char} {gap ahead : List Char} (hc : Cursor.isBlank c = true) (more : Gap gap ahead) :
    Gap (c :: gap) ahead
  /-- A comment up to the end of its line, which is a line end or the end of the text. -/
  | line {body ahead : List Char} (hbody : '\n' ∉ body) (hend : ∀ c ∈ ahead.head?, c = '\n') :
    Gap ('/' :: '/' :: body) ahead
  /-- A comment between marks. -/
  | block {body gap ahead : List Char} (hbody : ClosesFirst body) (more : Gap gap ahead) :
    Gap ('/' :: '*' :: (body ++ '*' :: '/' :: gap)) ahead

/-- No part of a gap stands at the start of some characters. -/
def NoGapAhead (cs : List Char) : Prop :=
  ∀ gap ahead, cs = gap ++ ahead → Gap gap ahead → gap = []

theorem noGapAhead_nil : NoGapAhead [] := by
  intro gap ahead h _
  exact (List.append_eq_nil_iff.mp h.symm).1

theorem noGapAhead_cons {c : Char} {cs : List Char} (hblank : Cursor.isBlank c = false)
    (hline : ∀ rest, c = '/' → cs = '/' :: rest → False)
    (hblock : ∀ rest, c = '/' → cs = '*' :: rest → False) : NoGapAhead (c :: cs) := by
  intro gap ahead h hgap
  cases hgap with
  | nil => rfl
  | blank hc _ =>
    rw [List.cons_append, List.cons.injEq] at h
    rw [← h.1, hblank] at hc
    cases hc
  | line _ _ =>
    rw [List.cons_append, List.cons.injEq] at h
    exact (hline _ h.1 h.2).elim
  | block _ _ =>
    rw [List.cons_append, List.cons.injEq] at h
    exact (hblock _ h.1 h.2).elim

theorem closesFirst_nil : ClosesFirst [] := by
  intro before after h
  cases before with
  | nil =>
    simp only [List.nil_append, List.cons.injEq, true_and] at h
    exact h.symm
  | cons b before =>
    -- The pair would have to lie in the last character.
    have hlength := congrArg List.length h
    simp only [List.nil_append, List.length_cons, List.length_append, List.length_nil] at hlength
    omega

theorem ClosesFirst.tail {c : Char} {body : List Char} (h : ClosesFirst (c :: body)) :
    ClosesFirst body :=
  fun before after hsplit =>
    h (c :: before) after (by rw [List.cons_append, hsplit, List.cons_append])

/-- A star at the head of a body has no slash behind it. -/
theorem ClosesFirst.head {c : Char} {body : List Char} (h : ClosesFirst (c :: body))
    (rest more : List Char) (hstar : c = '*') (hslash : body ++ '*' :: '/' :: rest = '/' :: more) :
    False := by
  subst hstar
  cases body with
  | nil => cases hslash
  | cons b body =>
    rw [List.cons_append, List.cons.injEq] at hslash
    obtain ⟨rfl, -⟩ := hslash
    -- The pair at the head closes the body, and the pair behind it is left over.
    exact absurd (h [] (body ++ ['*', '/']) rfl) (by simp)

theorem closesFirst_cons {c : Char} {body : List Char} (h : ClosesFirst body) (rest : List Char)
    (hc : ∀ more, c = '*' → body ++ '*' :: '/' :: rest = '/' :: more → False) :
    ClosesFirst (c :: body) := by
  intro before after hsplit
  cases before with
  | nil =>
    simp only [List.cons_append, List.nil_append, List.cons.injEq] at hsplit
    obtain ⟨rfl, hslash⟩ := hsplit
    cases body with
    | nil => cases hslash
    | cons b body =>
      rw [List.cons_append, List.cons.injEq] at hslash
      exact (hc (body ++ '*' :: '/' :: rest) rfl (by rw [hslash.1, List.cons_append])).elim
  | cons b before =>
    rw [List.cons_append, List.cons_append, List.cons.injEq] at hsplit
    exact h before after hsplit.2

/-! ## Skipping gaps -/

namespace Cursor

/-- What a cursor still takes of a gap, by where in the gap it stands. -/
def GapMode.Takes (taken ahead : List Char) : GapMode → Prop
  | .between => Gap taken ahead
  | .lineComment => '\n' ∉ taken ∧ ∀ c ∈ ahead.head?, c = '\n'
  | .blockComment _ =>
    ∃ body gap, taken = body ++ '*' :: '/' :: gap ∧ ClosesFirst body ∧ Gap gap ahead

theorem skipGapFrom_ok {offset : Nat} {pos : Pos} {mode : GapMode} {cs : List Char} {c : Cursor}
    (h : skipGapFrom offset pos mode cs = (.ok (), c)) :
    ∃ taken, cs = taken ++ c.rest ∧ c.pos = pos.advance taken ∧ mode.Takes taken c.rest ∧
      NoGapAhead c.rest := by
  fun_induction skipGapFrom offset pos mode cs with
  | case1 offset pos rest ih =>
    obtain ⟨taken, rfl, hpos, ⟨hbody, hend⟩, hahead⟩ := ih h
    exact ⟨'/' :: '/' :: taken, rfl, hpos, .line hbody hend, hahead⟩
  | case2 offset pos rest ih =>
    obtain ⟨taken, rfl, hpos, ⟨body, gap, rfl, hbody, hgap⟩, hahead⟩ := ih h
    exact ⟨'/' :: '*' :: (body ++ '*' :: '/' :: gap), rfl, hpos, .block hbody hgap, hahead⟩
  | case3 offset pos ch rest _ _ hblank ih =>
    obtain ⟨taken, rfl, hpos, hgap, hahead⟩ := ih h
    exact ⟨ch :: taken, rfl, hpos, .blank hblank hgap, hahead⟩
  | case4 offset pos ch rest hline hblock hblank =>
    cases h
    refine ⟨[], rfl, rfl, .nil _, noGapAhead_cons (by simpa using hblank) ?_ ?_⟩
    · exact hline
    · exact hblock
  | case5 offset pos =>
    cases h
    exact ⟨[], rfl, rfl, .nil _, noGapAhead_nil⟩
  | case6 offset pos rest =>
    cases h
    refine ⟨[], rfl, rfl, ⟨by simp, by simp⟩, noGapAhead_cons (by decide) ?_ ?_⟩
    · intro _ hslash
      cases hslash
    · intro _ hslash
      cases hslash
  | case7 offset pos ch rest hch ih =>
    obtain ⟨taken, rfl, hpos, ⟨hbody, hend⟩, hahead⟩ := ih h
    refine ⟨ch :: taken, rfl, hpos, ⟨?_, hend⟩, hahead⟩
    rw [List.mem_cons, not_or]
    exact ⟨fun heq => hch heq.symm, hbody⟩
  | case8 offset pos =>
    cases h
    exact ⟨[], rfl, rfl, ⟨by simp, by simp⟩, noGapAhead_nil⟩
  | case9 offset pos opened rest ih =>
    obtain ⟨taken, rfl, hpos, hgap, hahead⟩ := ih h
    exact ⟨'*' :: '/' :: taken, rfl, hpos, ⟨[], taken, rfl, closesFirst_nil, hgap⟩, hahead⟩
  | case10 offset pos opened ch rest hclose ih =>
    obtain ⟨taken, rfl, hpos, ⟨body, gap, rfl, hbody, hgap⟩, hahead⟩ := ih h
    refine ⟨ch :: (body ++ '*' :: '/' :: gap), rfl, hpos, ⟨ch :: body, gap, rfl, ?_, hgap⟩, hahead⟩
    refine closesFirst_cons hbody (gap ++ c.rest) ?_
    intro more hstar hslash
    refine hclose more hstar ?_
    rw [← hslash, List.append_assoc]
    rfl
  | case11 offset pos opened => cases h

theorem skipGapFrom_line {body ahead : List Char} (hbody : '\n' ∉ body)
    (hend : ∀ c ∈ ahead.head?, c = '\n') (offset : Nat) (pos : Pos) :
    skipGapFrom offset pos .lineComment (body ++ ahead) =
      (.ok (), ⟨offset + body.length, pos.advance body, ahead⟩) := by
  induction body generalizing offset pos with
  | nil =>
    cases ahead with
    | nil => rfl
    | cons c ahead =>
      rw [List.nil_append, skipGapFrom, if_pos (hend c rfl)]
      rfl
  | cons c body ih =>
    rw [List.mem_cons, not_or] at hbody
    rw [List.cons_append, skipGapFrom, if_neg (Ne.symm hbody.1), ih hbody.2, List.length_cons,
      Nat.add_assoc, Nat.add_comm 1, Pos.advance_cons]

theorem skipGapFrom_block {body : List Char} (hbody : ClosesFirst body) (rest : List Char)
    (offset : Nat) (pos opened : Pos) :
    skipGapFrom offset pos (.blockComment opened) (body ++ '*' :: '/' :: rest) =
      skipGapFrom (offset + (body.length + 2)) ((pos.advance body).advance ['*', '/']) .between
        rest := by
  induction body generalizing offset pos with
  | nil =>
    rw [List.nil_append, skipGapFrom]
    rfl
  | cons c body ih =>
    have hoffset : offset + 1 + (body.length + 2) = offset + ((c :: body).length + 2) := by
      rw [List.length_cons]
      omega
    rw [List.cons_append, skipGapFrom, ih hbody.tail, hoffset]
    · rfl
    · exact hbody.head rest

/-- A walk passes a gap and goes on behind it. -/
theorem skipGapFrom_gap {gap ahead : List Char} (h : Gap gap ahead) (offset : Nat) (pos : Pos) :
    skipGapFrom offset pos .between (gap ++ ahead) =
      skipGapFrom (offset + gap.length) (pos.advance gap) .between ahead := by
  induction h generalizing offset pos with
  | nil ahead => rfl
  | @blank c gap ahead hc _ ih =>
    rw [List.cons_append, skipGapFrom, if_pos hc, ih, List.length_cons, Pos.advance_cons,
      Nat.add_assoc, Nat.add_comm 1]
    · rintro rest rfl
      cases hc
    · rintro rest rfl
      cases hc
  | @line body ahead hbody hend =>
    have hoffset : offset + 2 + body.length = offset + ('/' :: '/' :: body).length := by
      simp only [List.length_cons]
      omega
    rw [List.cons_append, List.cons_append, skipGapFrom, skipGapFrom_line hbody hend, hoffset]
    -- Neither the end of the text nor a line end is part of a gap.
    cases ahead with
    | nil => rfl
    | cons c ahead =>
      rw [hend c rfl]
      rfl
  | @block body gap ahead hbody _ ih =>
    have hoffset : offset + 2 + (body.length + 2) + gap.length =
        offset + ('/' :: '*' :: (body ++ '*' :: '/' :: gap)).length := by
      simp only [List.length_cons, List.length_append]
      omega
    rw [List.cons_append, List.cons_append, List.append_assoc, List.cons_append, List.cons_append,
      skipGapFrom, skipGapFrom_block hbody, ih, hoffset]
    simp only [Pos.advance_cons, Pos.advance_append, Pos.advance_nil]

/-- A gap before a token is passed. -/
theorem next_gap {gap ahead : List Char} (h : Gap gap ahead) (offset : Nat) (pos : Pos) :
    (⟨offset, pos, gap ++ ahead⟩ : Cursor).next =
      (⟨offset + gap.length, pos.advance gap, ahead⟩ : Cursor).next := by
  unfold next skipGap
  rw [skipGapFrom_gap h]

/-- A cursor that takes a gap takes all of it. -/
theorem skipGap_ok {c c' : Cursor} (h : c.skipGap = (.ok (), c')) :
    ∃ gap, c.rest = gap ++ c'.rest ∧ c'.pos = c.pos.advance gap ∧ Gap gap c'.rest ∧
      NoGapAhead c'.rest :=
  skipGapFrom_ok h

end Cursor

end Dee
