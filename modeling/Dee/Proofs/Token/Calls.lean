import Dee.Proofs.Token.Inside
import Mathlib.Logic.Function.Iterate
import Mathlib.Order.Monotone.Basic

/-!
# Scanning on and on

A cursor may be asked for a token any number of times, behind the end and behind a failure too.
Whatever a call answers, the cursor moves by taking characters, so it always stands in the text. A
call takes a character, or stands before the end or a character that starts no token, where all
later calls answer the same.

Main statement: `cursor_stays_consistent`.
-/

namespace Dee

namespace Cursor

/-! ## Standing in a text -/

/-- A cursor stands in a text: as many characters as its offset counts lie behind it, all others are
ahead, and its position is counted from those behind it. -/
structure StandsIn (text : List Char) (c : Cursor) : Prop where
  offset_le : c.offset ≤ text.length
  rest : c.rest = text.drop c.offset
  pos : c.pos = .behind (text.take c.offset)

variable {text : List Char} {c c' : Cursor}

theorem standsIn_ofText (text : List Char) : (ofText text).StandsIn text :=
  ⟨Nat.zero_le _, rfl, rfl⟩

theorem Moves.standsIn (h : c.Moves c') (hc : c.StandsIn text) : c'.StandsIn text := by
  obtain ⟨taken, hrest, hc'⟩ := h
  have hoffset : c'.offset = c.offset + taken.length := by rw [hc']; rfl
  have hahead := hc.rest.symm.trans hrest
  have hlength := congrArg List.length hahead
  simp only [List.length_drop, List.length_append] at hlength
  have hle := hc.offset_le
  refine ⟨by omega, ?_, ?_⟩
  · rw [hoffset, ← List.drop_drop, hahead, List.drop_left]
  · rw [hoffset, List.take_add, hahead, List.take_left, ← Pos.advance_behind, ← hc.pos, hc']
    rfl

theorem Moves.offset_le (h : c.Moves c') : c.offset ≤ c'.offset := by
  obtain ⟨taken, -, hc'⟩ := h
  rw [hc']
  exact Nat.le_add_right _ _

/-- What is ahead gets shorter by what is taken. -/
theorem Moves.offset_add (h : c.Moves c') :
    c.offset + c.rest.length = c'.offset + c'.rest.length := by
  obtain ⟨taken, hrest, hc'⟩ := h
  have hoffset : c'.offset = c.offset + taken.length := by rw [hc']; rfl
  rw [hoffset, hrest, List.length_append]
  omega

/-! ## What a call does -/

theorem token_nil (h : c.rest = []) : c.token = (.ok ⟨.eof, "", c.pos⟩, c) := by
  unfold token
  rw [h]

theorem next_nil (h : c.rest = []) : c.next = (.ok ⟨.eof, "", c.pos⟩, c) := by
  obtain ⟨offset, pos, rest⟩ := c
  subst h
  rfl

theorem skipGapFrom_unclosed {offset : Nat} {pos : Pos} {mode : GapMode} {cs : List Char}
    {e : Located LexError} (h : skipGapFrom offset pos mode cs = (.error e, c')) :
    e.cause = .unclosedComment ∧ c'.rest = [] := by
  fun_induction skipGapFrom offset pos mode cs with
  | case1 _ _ _ ih | case2 _ _ _ ih | case9 _ _ _ _ ih => exact ih h
  | case3 _ _ _ _ _ _ _ ih | case7 _ _ _ _ _ ih | case10 _ _ _ _ _ _ ih => exact ih h
  | case4 | case5 | case6 | case8 => cases h
  | case11 => cases h; exact ⟨rfl, rfl⟩

/-- A token fails before a character that starts none, or in a string that is left open. -/
theorem token_fails {e : Located LexError} (h : c.token = (.error e, c')) :
    (∃ ch rest, c.rest = ch :: rest ∧ symbol? c.rest = none ∧
      e = ⟨.unexpected ch, c.pos⟩ ∧ c' = c) ∨
      e = ⟨.unclosedString, c.pos⟩ ∧ c'.rest = [] := by
  unfold token at h
  split at h
  · cases h
  next ch rest hrest =>
    split at h
    · cases h
    · split at h
      · cases h
      · split at h
        · split at h
          · cases h
          · cases h
            exact Or.inr ⟨rfl, rfl⟩
        · split at h
          · cases h
          · split at h
            · cases h
            next hsymbol =>
              cases h
              exact Or.inl ⟨ch, rest, hrest, hrest ▸ hsymbol, rfl, rfl⟩

/-- What a call can answer, and where it leaves the cursor. -/
inductive Answers (c : Cursor) : Scanned → Prop
  | token {t : Token} {c' : Cursor} (heof : t.isEof = false)
    (hless : c'.rest.length < c.rest.length) : Answers c (.ok t, c')
  | ending {c' : Cursor} (hrest : c'.rest = []) : Answers c (.ok ⟨.eof, "", c'.pos⟩, c')
  /-- The cursor stands at the character, where a call answers the same again. -/
  | unexpected {ch : Char} {c' : Cursor} (hhead : c'.rest.head? = some ch)
    (hagain : c'.next = (.error ⟨.unexpected ch, c'.pos⟩, c')) :
    Answers c (.error ⟨.unexpected ch, c'.pos⟩, c')
  /-- What was left open runs up to the end of the text. -/
  | unclosed {e : Located LexError} {c' : Cursor}
    (herror : e.cause = .unclosedComment ∨ e.cause = .unclosedString) (hrest : c'.rest = [])
    (hless : c'.rest.length < c.rest.length) : Answers c (.error e, c')

theorem symbol?_ne_none {ch : Char} (h : (Symbol.ofChar? ch).isSome = true) (rest : List Char) :
    symbol? (ch :: rest) ≠ none := by
  obtain ⟨symbol, hsymbol⟩ := Option.isSome_iff_exists.mp h
  cases rest with
  | nil => simp [symbol?, hsymbol]
  | cons b rest => cases hpair : Symbol.ofPair? ch b <;> simp [symbol?, hsymbol, hpair]

/-- A character that starts no token stays ahead of the cursor, and fails again. -/
theorem next_unexpected {ch : Char} {rest : List Char} (hrest : c.rest = ch :: rest)
    (hahead : NoGapAhead c.rest) (hsymbol : symbol? c.rest = none)
    (h : c.token = (.error ⟨.unexpected ch, c.pos⟩, c)) :
    c.next = (.error ⟨.unexpected ch, c.pos⟩, c) := by
  obtain ⟨offset, pos, cs⟩ := c
  subst hrest
  have hblank : isBlank ch = false := by
    by_contra hne
    rw [Bool.not_eq_false] at hne
    exact absurd (hahead [ch] rest rfl (.blank hne (.nil _))) (List.cons_ne_nil _ _)
  have hslash : ch ≠ '/' := by
    rintro rfl
    exact symbol?_ne_none rfl rest hsymbol
  rw [next_eq_token offset pos hblank fun heq => absurd heq hslash, h]

theorem answers_next (c : Cursor) : c.Answers c.next := by
  rcases h : c.next with ⟨answer, c'⟩
  -- A failure has something ahead, and a string or comment that is left open takes all of it.
  have hless : ∀ e, answer = .error e → c'.rest = [] → c'.rest.length < c.rest.length := by
    rintro e rfl hend
    rw [hend, List.length_nil, List.length_pos_iff]
    intro hnil
    rw [next_nil hnil] at h
    cases h
  unfold next at h
  split at h
  next e c₁ hskip =>
    cases h
    obtain ⟨herror, hend⟩ := skipGapFrom_unclosed hskip
    exact .unclosed (Or.inl herror) hend (hless e rfl hend)
  next c₁ hskip =>
    obtain ⟨gap, hrest, -, -, hahead⟩ := skipGap_ok hskip
    cases answer with
    | ok t =>
      rcases token_ok h with ⟨hend, rfl⟩ | htakes
      · rw [token_nil hend] at h
        cases h
        exact .ending hend
      · have hlength := List.length_pos_iff.mpr htakes.spelling.ne_nil
        refine .token (decide_eq_false htakes.spelling.ne_eof) ?_
        rw [hrest, htakes.text, List.length_append, List.length_append]
        omega
    | error e =>
      rcases token_fails h with ⟨ch, rest, hch, hsymbol, rfl, rfl⟩ | ⟨rfl, hend⟩
      · exact .unexpected (by rw [hch]; rfl) (next_unexpected hch hahead hsymbol h)
      · exact .unclosed (Or.inr rfl) hend (hless _ rfl hend)

theorem StandsIn.at_end (hc : c.StandsIn text) (h : c.rest = []) :
    c.offset = text.length ∧ c.pos = .behind text := by
  have hdrop := hc.rest.symm.trans h
  have hoffset : c.offset = text.length :=
    Nat.le_antisymm hc.offset_le (List.drop_eq_nil_iff.mp hdrop)
  exact ⟨hoffset, by rw [hc.pos, hoffset, List.take_length]⟩

/-! ## One call from a place in the text -/

/-- A call that finds a token takes a character. -/
theorem length_lt_of_token {t : Token} (h : c.next = (.ok t, c')) (heof : t.isEof = false) :
    c'.rest.length < c.rest.length := by
  have hcall := answers_next c
  rw [h] at hcall
  cases hcall with
  | token _ hless => exact hless
  | ending _ => cases heof

/-- A call that finds a token moves the cursor. -/
theorem offset_lt_of_token {t : Token} (h : c.next = (.ok t, c')) (heof : t.isEof = false) :
    c.offset < c'.offset := by
  have hless := length_lt_of_token h heof
  have hmoves := (Moves.of_next h).offset_add
  omega

/-- A call that meets a character that starts no token stops at the character, and does so again. -/
theorem StandsIn.stuck (hc : c.StandsIn text) {ch : Char} {pos : Pos}
    (h : c.next = (.error ⟨.unexpected ch, pos⟩, c')) :
    text[c'.offset]? = some ch ∧ pos = c'.pos ∧ c'.next = (.error ⟨.unexpected ch, pos⟩, c') := by
  have hcall := answers_next c
  have hstands := (Moves.of_next h).standsIn hc
  rw [h] at hcall
  cases hcall with
  | unexpected hhead hagain =>
    refine ⟨?_, rfl, hagain⟩
    rw [← List.head?_drop, ← hstands.rest, hhead]
  | unclosed herror _ _ => simp at herror

/-- A call that leaves a comment or a string open stops at the end of the text, and finds it
there. -/
theorem StandsIn.left_open (hc : c.StandsIn text) {e : Located LexError}
    (herror : e.cause = .unclosedComment ∨ e.cause = .unclosedString)
    (h : c.next = (.error e, c')) :
    c'.offset = text.length ∧ c'.next = (.ok ⟨.eof, "", .behind text⟩, c') := by
  have hcall := answers_next c
  have hstands := (Moves.of_next h).standsIn hc
  rw [h] at hcall
  cases hcall with
  | unexpected _ _ => simp at herror
  | unclosed _ hend _ =>
    obtain ⟨hoffset, hpos⟩ := hstands.at_end hend
    exact ⟨hoffset, hpos ▸ next_nil hend⟩

/-! ## Many calls -/

/-- The cursor after some calls, whatever they answered. -/
def afterCalls (c : Cursor) (k : Nat) : Cursor :=
  (fun c => c.next.2)^[k] c

/-- What a call answers after some calls. -/
def answer (c : Cursor) (k : Nat) : Except (Located LexError) Token :=
  (c.afterCalls k).next.1

theorem afterCalls_succ (c : Cursor) (k : Nat) : c.afterCalls (k + 1) = (c.afterCalls k).next.2 :=
  Function.iterate_succ_apply' _ k c

theorem afterCalls_add (c : Cursor) (k m : Nat) :
    c.afterCalls (k + m) = (c.afterCalls k).afterCalls m := by
  rw [Nat.add_comm]
  exact Function.iterate_add_apply _ m k c

theorem moves_afterCalls (c : Cursor) (k : Nat) : c.Moves (c.afterCalls k) := by
  induction k with
  | zero => exact .refl c
  | succ k ih =>
    rw [afterCalls_succ]
    exact ih.trans (moves_next _)

/-- Where a call leaves the cursor in place, all later calls do, and answer the same. -/
theorem afterCalls_of_stays {answer : Except (Located LexError) Token} (h : c.next = (answer, c))
    (k : Nat) : c.afterCalls k = c ∧ c.answer k = answer := by
  have hstays : c.afterCalls k = c := Function.iterate_fixed (congrArg Prod.snd h) k
  exact ⟨hstays, by rw [Cursor.answer, hstays, h]⟩

theorem later_of_stays {k m : Nat} (hm : k < m) {answer : Except (Located LexError) Token}
    (h : (c.afterCalls (k + 1)).next = (answer, c.afterCalls (k + 1))) :
    c.answer m = answer ∧ c.afterCalls m = c.afterCalls (k + 1) := by
  obtain ⟨j, rfl⟩ := Nat.exists_eq_add_of_lt hm
  have hstays := afterCalls_of_stays h j
  rw [Nat.add_right_comm, Cursor.answer, afterCalls_add]
  exact ⟨hstays.2, hstays.1⟩

/-- As many calls as there are characters ahead are enough: later ones answer the same. -/
theorem answer_eq_of_le {n k : Nat} (hn : c.rest.length ≤ n) (hk : n ≤ k) :
    c.answer k = c.answer n := by
  induction n generalizing c k with
  | zero =>
    have hstays := afterCalls_of_stays (next_nil (List.length_eq_zero_iff.mp (Nat.le_zero.mp hn)))
    rw [(hstays k).2, (hstays 0).2]
  | succ n ih =>
    obtain ⟨k, rfl⟩ :=
      Nat.exists_eq_succ_of_ne_zero (Nat.ne_of_gt (Nat.lt_of_lt_of_le n.succ_pos hk))
    have hk' : n ≤ k := Nat.le_of_succ_le_succ hk
    show c.next.2.answer k = c.next.2.answer n
    have hcall := answers_next c
    cases hnext : c.next with
    | mk answer c' =>
      rw [hnext] at hcall
      cases hcall with
      | token _ hless => exact ih (Nat.le_of_lt_succ (Nat.lt_of_lt_of_le hless hn)) hk'
      | ending hend =>
        have hstays := afterCalls_of_stays (next_nil hend)
        rw [(hstays k).2, (hstays n).2]
      | unexpected _ hagain =>
        have hstays := afterCalls_of_stays hagain
        rw [(hstays k).2, (hstays n).2]
      | unclosed _ _ hless => exact ih (Nat.le_of_lt_succ (Nat.lt_of_lt_of_le hless hn)) hk'

/-- A cursor is consistent however often it is asked for a token. It only moves forward, it stands
in the text, and a call that answers with a token moves it. At a character that starts no token it
stays, and all later calls fail there in the same way; a comment or a string that is left open moves
it to the end of the text, where all later calls answer with the end. So after as many calls as the
text has characters, all further answers are the same. -/
theorem cursor_stays_consistent (source : String) :
    let text := source.toList
    let cursor := (ofText text).afterCalls
    let answer := (ofText text).answer
    Monotone (fun k => (cursor k).offset) ∧
      (∀ k, (cursor k).StandsIn text) ∧
      (∀ k t, answer k = .ok t → t.isEof = false → (cursor k).offset < (cursor (k + 1)).offset) ∧
      (∀ k ch pos, answer k = .error ⟨.unexpected ch, pos⟩ →
        text[(cursor (k + 1)).offset]? = some ch ∧ pos = (cursor (k + 1)).pos ∧
          ∀ m, k < m → answer m = answer k ∧ cursor m = cursor (k + 1)) ∧
      (∀ k e, answer k = .error e → e.cause = .unclosedComment ∨ e.cause = .unclosedString →
        (cursor (k + 1)).offset = text.length ∧
          ∀ m, k < m → answer m = .ok ⟨.eof, "", .behind text⟩) ∧
      ∀ k, text.length ≤ k → answer k = answer text.length := by
  intro text cursor answer
  have hstep : ∀ k, (cursor k).next = (answer k, cursor (k + 1)) := by
    intro k
    show _ = ((cursor k).next.1, (ofText text).afterCalls (k + 1))
    rw [afterCalls_succ]
  have hstands : ∀ k, (cursor k).StandsIn text :=
    fun k => (moves_afterCalls _ k).standsIn (standsIn_ofText text)
  have hforward : ∀ k, (cursor k).offset ≤ (cursor (k + 1)).offset :=
    fun k => (Moves.of_next (hstep k)).offset_le
  refine ⟨monotone_nat_of_le_succ hforward, hstands, ?_, ?_, ?_,
    fun k hk => answer_eq_of_le (Nat.le_refl _) hk⟩
  · intro k t hanswer heof
    exact offset_lt_of_token (hanswer ▸ hstep k) heof
  · intro k ch pos hanswer
    obtain ⟨hchar, hpos, hagain⟩ := (hstands k).stuck (hanswer ▸ hstep k)
    refine ⟨hchar, hpos, ?_⟩
    intro m hm
    rw [hanswer]
    exact later_of_stays hm hagain
  · intro k e hanswer herror
    obtain ⟨hoffset, hend⟩ := (hstands k).left_open herror (hanswer ▸ hstep k)
    refine ⟨hoffset, ?_⟩
    intro m hm
    exact (later_of_stays hm hend).1

/-- A character that starts no token, behind a token and a gap, and a string that is left open by
its last backslash. -/
theorem cursor_stays_consistent_behind_failures :
    let stuck := ofText "x /**/@y".toList
    let left := ofText "'a\n\\".toList
    (stuck.answer 1 = .error ⟨.unexpected '@', ⟨1, 7⟩⟩ ∧
      ∀ m, 1 < m → stuck.answer m = .error ⟨.unexpected '@', ⟨1, 7⟩⟩) ∧
      left.answer 0 = .error ⟨.unclosedString, .start⟩ ∧
        ∀ m, 0 < m → left.answer m = .ok ⟨.eof, "", ⟨2, 2⟩⟩ := by
  intro stuck left
  have hstuck : stuck.answer 1 = .error ⟨.unexpected '@', ⟨1, 7⟩⟩ := by rfl
  have hleft : left.answer 0 = .error ⟨.unclosedString, .start⟩ := by rfl
  obtain ⟨-, -, -, hunexpected, -, -⟩ := cursor_stays_consistent "x /**/@y"
  obtain ⟨-, -, -, -, hunclosed, -⟩ := cursor_stays_consistent "'a\n\\"
  refine ⟨⟨hstuck, ?_⟩, hleft, ?_⟩
  · intro m hm
    exact ((hunexpected 1 _ _ hstuck).2.2 m hm).1.trans hstuck
  · intro m hm
    exact (hunclosed 0 _ hleft (Or.inr rfl)).2 m hm

end Cursor

end Dee
