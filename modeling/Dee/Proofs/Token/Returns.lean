import Dee.Proofs.Token.Longest

/-!
# Carriage returns before line ends

A text may end its lines with a carriage return and a line end instead of a line end alone. Two
cursors stand side by side, one in a text and one in the same text with these carriage returns.
Behind a gap they stand at the same token, and only if it is a line end does a carriage return lie
before the second one: whatever looks one or two characters ahead sees a carriage return in place of
the line end, and neither belongs to a number, a word or a symbol.

Main statement: `Cursor.Beside.next`.
-/

namespace Dee

/-! ## Texts -/

/-- The characters with a carriage return before each line end. -/
def withReturns (cs : List Char) : List Char :=
  cs.flatMap fun c => if c = '\n' then ['\r', '\n'] else [c]

theorem withReturns_newline (cs : List Char) :
    withReturns ('\n' :: cs) = '\r' :: '\n' :: withReturns cs := rfl

theorem withReturns_cons {c : Char} (hc : c ≠ '\n') (cs : List Char) :
    withReturns (c :: cs) = c :: withReturns cs := by
  simp [withReturns, hc]

theorem withReturns_append (cs ds : List Char) :
    withReturns (cs ++ ds) = withReturns cs ++ withReturns ds :=
  List.flatMap_append

theorem withReturns_of_not_mem {cs : List Char} (h : '\n' ∉ cs) : withReturns cs = cs := by
  induction cs with
  | nil => rfl
  | cons c cs ih =>
    rw [List.mem_cons, not_or] at h
    rw [withReturns_cons (Ne.symm h.1), ih h.2]

/-- A character at the head that is no carriage return was there before. -/
theorem head_of_withReturns {c : Char} {cs rest : List Char} (hc : c ≠ '\r')
    (h : withReturns cs = c :: rest) : ∃ rest', cs = c :: rest' := by
  cases cs with
  | nil => cases h
  | cons d cs =>
    by_cases hd : d = '\n'
    · subst hd
      exact absurd (List.cons.inj h).1.symm hc
    · rw [withReturns_cons hd] at h
      exact ⟨cs, by rw [(List.cons.inj h).1]⟩

section Predicates

variable {p : Char → Bool} (hnewline : p '\n' = false) (hreturn : p '\r' = false)
include hnewline hreturn

theorem takeWhile_withReturns (cs : List Char) : (withReturns cs).takeWhile p = cs.takeWhile p := by
  induction cs with
  | nil => rfl
  | cons c cs ih =>
    by_cases hc : c = '\n'
    · subst hc
      simp [withReturns_newline, hnewline, hreturn]
    · rw [withReturns_cons hc, List.takeWhile_cons, List.takeWhile_cons, ih]

theorem dropWhile_withReturns (cs : List Char) :
    (withReturns cs).dropWhile p = withReturns (cs.dropWhile p) := by
  induction cs with
  | nil => rfl
  | cons c cs ih =>
    by_cases hc : c = '\n'
    · subst hc
      simp [withReturns_newline, hnewline, hreturn]
    · rw [withReturns_cons hc, List.dropWhile_cons, List.dropWhile_cons, ih]
      split
      · rfl
      · rw [withReturns_cons hc]

end Predicates

/-! ## Splitting rules -/

theorem Numeric.read_of_point {cs rest : List Char} {d : Char}
    (h : cs.dropWhile Decimal.isDigit = '.' :: d :: rest) (hd : Decimal.isDigit d = true) :
    Numeric.read cs = ⟨cs.takeWhile Decimal.isDigit, (d :: rest).takeWhile Decimal.isDigit,
      (d :: rest).dropWhile Decimal.isDigit⟩ := by
  unfold Numeric.read
  simp only [h, if_pos hd]

theorem Numeric.read_of_no_point {cs : List Char}
    (h : ∀ d rest, cs.dropWhile Decimal.isDigit = '.' :: d :: rest → Decimal.isDigit d = false) :
    Numeric.read cs = ⟨cs.takeWhile Decimal.isDigit, [], cs.dropWhile Decimal.isDigit⟩ := by
  unfold Numeric.read
  split
  next d rest hpoint => simp only [h d rest hpoint, Bool.false_eq_true, if_false, hpoint]
  next => rfl

/-- A number may end at a point, where the character behind it counts. -/
theorem Numeric.read_withReturns (cs : List Char) :
    Numeric.read (withReturns cs) =
      { Numeric.read cs with rest := withReturns (Numeric.read cs).rest } := by
  have htake : ∀ cs, (withReturns cs).takeWhile Decimal.isDigit = cs.takeWhile Decimal.isDigit :=
    takeWhile_withReturns (by decide) (by decide)
  have hdrop : ∀ cs, (withReturns cs).dropWhile Decimal.isDigit =
      withReturns (cs.dropWhile Decimal.isDigit) :=
    dropWhile_withReturns (by decide) (by decide)
  by_cases hpoint : ∃ d rest, cs.dropWhile Decimal.isDigit = '.' :: d :: rest ∧
    Decimal.isDigit d = true
  · obtain ⟨d, rest, hrest, hd⟩ := hpoint
    have hline : d ≠ '\n' := (solid_of_le (isDigit_lt hd).1).1
    have hrest' := hdrop cs
    rw [hrest, withReturns_cons (by decide), withReturns_cons hline] at hrest'
    rw [Numeric.read_of_point hrest hd, Numeric.read_of_point hrest' hd, htake,
      ← withReturns_cons hline, htake,
      hdrop]
  · have hnone : ∀ d rest, cs.dropWhile Decimal.isDigit = '.' :: d :: rest →
        Decimal.isDigit d = false := by
      intro d rest hrest
      exact Bool.eq_false_iff.mpr fun hd => hpoint ⟨d, rest, hrest, hd⟩
    rw [Numeric.read_of_no_point hnone, Numeric.read_of_no_point, htake, hdrop]
    intro d rest hrest
    rw [hdrop] at hrest
    obtain ⟨behind, hbehind⟩ := head_of_withReturns (by decide) hrest
    rw [hbehind, withReturns_cons (by decide)] at hrest
    by_cases hreturn : d = '\r'
    · subst hreturn
      decide
    · obtain ⟨more, rfl⟩ := head_of_withReturns hreturn (List.cons.inj hrest).2
      exact hnone d more hbehind

/-- A string without line ends is read in the same way. -/
theorem Quoted.read?_withReturns {quote : Char} (hquote : '\\' ≠ quote)
    {cs : List Char} {q : Quoted}
    (h : Quoted.read? quote cs = some q) (hline : '\n' ∉ q.taken) :
    Quoted.read? quote (withReturns cs) = some { q with rest := withReturns q.rest } := by
  obtain ⟨written, hwritten, htaken⟩ := Quoted.escapes_read? h
  rw [← Quoted.taken_append_rest h, withReturns_append, withReturns_of_not_mem hline, htaken,
    List.append_assoc, List.singleton_append]
  exact Quoted.read?_escapes hquote hwritten (withReturns q.rest)

theorem Symbol.ofPair?_line_end (a : Char) :
    Symbol.ofPair? a '\n' = none ∧ Symbol.ofPair? a '\r' = none := by
  unfold Symbol.ofPair?
  split <;> simp_all

/-- No symbol has a line end or a carriage return for its second character. -/
theorem Cursor.symbol?_withReturns {a : Char} {cs taken rest : List Char} {s : Symbol}
    (h : Cursor.symbol? (a :: cs) = some (s, taken, rest)) :
    Cursor.symbol? (a :: withReturns cs) = some (s, taken, withReturns rest) := by
  cases cs with
  | nil =>
    obtain ⟨found, hfound, heq⟩ := Option.map_eq_some_iff.mp h
    cases heq
    exact Option.map_eq_some_iff.mpr ⟨_, hfound, rfl⟩
  | cons b cs =>
    cases hpair : Symbol.ofPair? a b with
    | some found =>
      have hb : b ≠ '\n' := by
        rintro rfl
        cases (Symbol.ofPair?_line_end a).1.symm.trans hpair
      simp only [Cursor.symbol?, hpair] at h
      cases h
      rw [withReturns_cons hb]
      simp only [Cursor.symbol?, hpair]
    | none =>
      simp only [Cursor.symbol?, hpair] at h
      obtain ⟨found, hfound, heq⟩ := Option.map_eq_some_iff.mp h
      cases heq
      by_cases hb : b = '\n'
      · subst hb
        simp only [withReturns_newline, Cursor.symbol?, (Symbol.ofPair?_line_end a).2, hfound,
          Option.map_some]
      · rw [withReturns_cons hb]
        simp only [Cursor.symbol?, hpair, hfound, Option.map_some]

/-! ## Gaps -/

namespace Cursor

/-- The second cursor stands in the text with carriage returns where the first one stands in the
text. -/
structure Beside (c d : Cursor) : Prop where
  pos : d.pos = c.pos
  rest : d.rest = withReturns c.rest

/-- Both cursors stand behind a gap. A carriage return before a line end belongs to the gap. -/
inductive AtToken (c d : Cursor) : Prop
  | lineEnd {rest : List Char} (hrest : c.rest = '\n' :: rest) (hpos : d.pos = c.pos.next '\r')
    (hrest' : d.rest = '\n' :: withReturns rest)
  | other (hhead : ∀ ch ∈ c.rest.head?, ch ≠ '\n') (h : c.Beside d)

/-- The same comments are opened and closed, and the walk comes to the same token. -/
theorem skipGapFrom_withReturns {offset : Nat} {pos : Pos} {mode : GapMode}
    {cs : List Char} {c : Cursor}
    (h : skipGapFrom offset pos mode cs = (.ok (), c)) (offset' : Nat) :
    ∃ d, skipGapFrom offset' pos mode (withReturns cs) = (.ok (), d) ∧ c.AtToken d := by
  fun_induction skipGapFrom offset pos mode cs generalizing offset' with
  | case1 offset pos rest ih =>
    rw [withReturns_cons (by decide), withReturns_cons (by decide), skipGapFrom]
    exact ih h _
  | case2 offset pos rest ih =>
    rw [withReturns_cons (by decide), withReturns_cons (by decide), skipGapFrom]
    exact ih h _
  | case3 offset pos ch rest hline hblock hblank ih =>
    have hch : ch ≠ '\n' := by
      rintro rfl
      cases hblank
    obtain ⟨d, hd, htoken⟩ := ih h (offset' + 1)
    refine ⟨d, ?_, htoken⟩
    rw [withReturns_cons hch, skipGapFrom, if_pos hblank, hd]
    · rintro _ rfl
      cases hblank
    · rintro _ rfl
      cases hblank
  | case4 offset pos ch rest hline hblock hblank =>
    cases h
    by_cases hch : ch = '\n'
    · subst hch
      exact ⟨_, rfl, .lineEnd rfl rfl rfl⟩
    · refine ⟨⟨offset', pos, withReturns (ch :: rest)⟩, ?_, .other (by simpa using hch) ⟨rfl, rfl⟩⟩
      rw [withReturns_cons hch, skipGapFrom, if_neg hblank]
      · intro more hslash hmore
        obtain ⟨rest', hrest⟩ := head_of_withReturns (by decide) hmore
        exact hline rest' hslash hrest
      · intro more hslash hmore
        obtain ⟨rest', hrest⟩ := head_of_withReturns (by decide) hmore
        exact hblock rest' hslash hrest
  | case5 offset pos =>
    cases h
    exact ⟨_, rfl, .other (by simp) ⟨rfl, rfl⟩⟩
  | case6 offset pos rest =>
    cases h
    exact ⟨_, rfl, .lineEnd rfl rfl rfl⟩
  | case7 offset pos ch rest hch ih =>
    obtain ⟨d, hd, htoken⟩ := ih h (offset' + 1)
    exact ⟨d, by rw [withReturns_cons hch, skipGapFrom, if_neg hch, hd], htoken⟩
  | case8 offset pos =>
    cases h
    exact ⟨_, rfl, .other (by simp) ⟨rfl, rfl⟩⟩
  | case9 offset pos opened rest ih =>
    rw [withReturns_cons (by decide), withReturns_cons (by decide), skipGapFrom]
    exact ih h _
  | case10 offset pos opened ch rest hclose ih =>
    by_cases hch : ch = '\n'
    · subst hch
      -- The carriage return takes a column of a line that ends right behind it.
      obtain ⟨d, hd, htoken⟩ := ih h (offset' + 2)
      exact ⟨d, hd, htoken⟩
    · obtain ⟨d, hd, htoken⟩ := ih h (offset' + 1)
      refine ⟨d, ?_, htoken⟩
      rw [withReturns_cons hch, skipGapFrom, hd]
      intro more hstar hmore
      obtain ⟨rest', hrest⟩ := head_of_withReturns (by decide) hmore
      exact hclose rest' hstar hrest
  | case11 offset pos opened => cases h

theorem Beside.skipGap {c d c₁ : Cursor} (h : c.Beside d) (hskip : c.skipGap = (.ok (), c₁)) :
    ∃ d₁, d.skipGap = (.ok (), d₁) ∧ c₁.AtToken d₁ := by
  obtain ⟨d₁, hd, htoken⟩ := skipGapFrom_withReturns hskip d.offset
  refine ⟨d₁, ?_, htoken⟩
  rw [Cursor.skipGap, h.pos, h.rest, hd]

end Cursor

/-! ## Tokens -/

/-- The token with a carriage return before it, if it is a line end: it stands one column further
on. -/
def Token.behindReturn (t : Token) : Token :=
  if t.isNewline then { t with pos := ⟨t.pos.line, t.pos.column + 1⟩ } else t

@[simp] theorem Token.lexeme_behindReturn (t : Token) : t.behindReturn.lexeme = t.lexeme := by
  unfold behindReturn
  split <;> rfl

theorem Token.behindReturn_of_ne {t : Token} (h : t.lexeme ≠ .newline) : t.behindReturn = t := by
  have hnewline : t.isNewline = false := decide_eq_false h
  rw [behindReturn, hnewline, if_neg Bool.false_ne_true]

theorem Lexeme.ofWord_ne_newline (s : String) : Lexeme.ofWord s ≠ .newline := by
  unfold Lexeme.ofWord
  repeat' split
  all_goals nofun

/-- The token is no string that runs over a line end. -/
def Token.KeepsToLine (t : Token) : Prop :=
  ∀ value, t.lexeme = .literal (.str value) → '\n' ∉ t.text.toList

namespace Cursor

variable {c d c' : Cursor} {t : Token}

/-- What is emitted in the text is emitted with carriage returns, too. -/
theorem Beside.emit (h : c.Beside d) {lexeme : Lexeme} {taken rest : List Char}
    (hne : lexeme ≠ .newline)
    (hemit : c.emit lexeme taken rest = (.ok t, c')) :
    ∃ d', d.emit lexeme taken (withReturns rest) = (.ok t.behindReturn, d') ∧ c'.Beside d' := by
  cases hemit
  refine ⟨d.take taken (withReturns rest), ?_, ?_, rfl⟩
  · rw [Token.behindReturn_of_ne hne, Cursor.emit, h.pos]
  · rw [take, take, h.pos]

/-- A line end stands one column further on. -/
theorem token_lineEnd {rest : List Char} (hrest : c.rest = '\n' :: rest)
    (hpos : d.pos = c.pos.next '\r')
    (hrest' : d.rest = '\n' :: withReturns rest) (htoken : c.token = (.ok t, c')) :
    ∃ d', d.token = (.ok t.behindReturn, d') ∧ c'.Beside d' := by
  rw [token, hrest] at htoken
  cases htoken
  refine ⟨d.take ['\n'] (withReturns rest), ?_, ?_, rfl⟩
  · rw [token, hrest']
    simp only [if_true, Cursor.emit, hpos]
    rfl
  · rw [take, take, hpos]
    rfl

/-- A token that is no line end stands at its place, and is the same. -/
theorem Beside.token (h : c.Beside d) (hhead : ∀ ch ∈ c.rest.head?, ch ≠ '\n')
    (htoken : c.token = (.ok t, c')) (hline : t.KeepsToLine) :
    ∃ d', d.token = (.ok t.behindReturn, d') ∧ c'.Beside d' := by
  have hrest' := h.rest
  unfold Cursor.token at htoken
  split at htoken
  next hrest =>
    cases htoken
    rw [hrest] at hrest'
    refine ⟨d, ?_, h⟩
    rw [Cursor.token, hrest', h.pos]
    rfl
  next ch rest hrest =>
    have hch : ch ≠ '\n' := hhead ch (by rw [hrest]; rfl)
    rw [hrest, withReturns_cons hch] at hrest'
    rw [if_neg hch] at htoken
    split at htoken
    next hdigit =>
      rw [token_digit hrest' hdigit, ← withReturns_cons hch, Numeric.read_withReturns]
      exact h.emit (by simp) htoken
    next hdigit =>
      split at htoken
      next hquote =>
        split at htoken
        next q hq =>
          have htaken : '\n' ∉ q.taken := by
            cases htoken
            have hnone := hline _ rfl
            rw [String.toList_ofList, List.mem_cons, not_or] at hnone
            exact hnone.2
          rw [token_quote hrest' hquote
            (Quoted.read?_withReturns (solid_of_quote hquote).1 hq htaken)]
          exact h.emit (by simp) htoken
        next => cases htoken
      next hquote =>
        split at htoken
        next hname =>
          have hnewline : continuesName '\n' = false := by decide
          have hreturn : continuesName '\r' = false := by decide
          rw [token_word hrest' hname, ← withReturns_cons hch,
            takeWhile_withReturns hnewline hreturn,
            dropWhile_withReturns hnewline hreturn]
          exact h.emit (Lexeme.ofWord_ne_newline _) htoken
        next hname =>
          split at htoken
          next hsymbol =>
            rw [Cursor.token, hrest']
            simp only [if_neg hch, if_neg hdigit, if_neg hquote, if_neg hname,
              symbol?_withReturns hsymbol]
            exact h.emit (by simp) htoken
          next => cases htoken

/-- One call beside another finds the same token, and leaves the cursors beside each other. -/
theorem Beside.next (h : c.Beside d) (hnext : c.next = (.ok t, c')) (hline : t.KeepsToLine) :
    ∃ d', d.next = (.ok t.behindReturn, d') ∧ c'.Beside d' := by
  unfold Cursor.next at hnext ⊢
  split at hnext
  next => cases hnext
  next c₁ hskip =>
    obtain ⟨d₁, hskip', hat⟩ := h.skipGap hskip
    simp only [hskip']
    cases hat with
    | lineEnd hrest hpos hrest' => exact token_lineEnd hrest hpos hrest' hnext
    | other hhead hbeside => exact hbeside.token hhead hnext hline

end Cursor

end Dee
