import Dee.Proofs.Printing.Spelled

/-!
# Tokens are longest spellings

`Lexeme.Spelling` tells which characters spell which lexeme, without a cursor. The token at a cursor
spells its lexeme, and no lexeme has a longer spelling there.

Main statements: `Cursor.token_ok`, `Cursor.length_le_token`.
-/

namespace Dee

/-! ## Spellings of lexemes -/

/-- Characters spell a lexeme. The end of the text has no spelling. -/
def Lexeme.Spelling (cs : List Char) : Lexeme → Prop
  | .literal value => value.Spelling cs
  | .name => isIdentifier (String.ofList cs) = true
  | .keyword k => String.ofList cs = k.text
  | .symbol s => s.IsSpelled (String.ofList cs)
  | .newline => cs = ['\n']
  | .eof => False

/-- The lexeme is spelled by characters at the start of a text, and no lexeme is by more of them. -/
structure Lexeme.Longest (lexeme : Lexeme) (cs text : List Char) : Prop where
  spelling : lexeme.Spelling cs
  starts : ∃ rest, text = cs ++ rest
  longest : ∀ (other : Lexeme) (more rest : List Char), other.Spelling more → text = more ++ rest →
    more.length ≤ cs.length

/-- Whether a lexeme is spelled by a word. -/
def Lexeme.isWordLike : Lexeme → Bool
  | .literal .none | .literal (.bool _) | .name | .keyword _ => true
  | _ => false

theorem Lexeme.isWord_of_spelling {lexeme : Lexeme} {cs : List Char}
    (hlike : lexeme.isWordLike = true) (h : lexeme.Spelling cs) :
    isWord (String.ofList cs) = true := by
  unfold Lexeme.isWordLike at hlike
  split at hlike
  · rw [show String.ofList cs = "none" from h]
    decide
  next b =>
    cases b with
    | true =>
      rw [show String.ofList cs = "true" from h]
      decide
    | false =>
      rw [show String.ofList cs = "false" from h]
      decide
  · exact (isWord_of_isIdentifier h).1
  next k =>
    rw [show String.ofList cs = k.text from h]
    exact isWord_keyword k
  · cases hlike

/-- A spelling has at least one character. -/
theorem Lexeme.not_spelling_nil (lexeme : Lexeme) : ¬lexeme.Spelling [] := by
  intro h
  have hempty : isWord (String.ofList []) = false := rfl
  by_cases hlike : lexeme.isWordLike = true
  · rw [Lexeme.isWord_of_spelling hlike h] at hempty
    cases hempty
  · cases lexeme with
    | literal value =>
      cases value with
      | none => exact hlike rfl
      | bool b => exact hlike rfl
      | int n => cases h.1
      | real x =>
        obtain ⟨whole, fraction, -, -, hcs, -⟩ := h
        exact absurd hcs (by simp)
      | str s =>
        obtain ⟨quote, written, -, -, hcs⟩ := h
        cases hcs
    | name => exact hlike rfl
    | keyword k => exact hlike rfl
    | symbol s =>
      rcases h with ⟨a, b, -, hcs⟩ | ⟨a, -, hcs⟩
      · cases String.ofList_inj.mp hcs
      · cases String.ofList_inj.mp hcs
    | newline => cases h
    | eof => exact h

theorem Lexeme.Spelling.ne_nil {lexeme : Lexeme} {cs : List Char} (h : lexeme.Spelling cs) :
    cs ≠ [] :=
  fun hnil => lexeme.not_spelling_nil (hnil ▸ h)

theorem Lexeme.Spelling.ne_eof {lexeme : Lexeme} {cs : List Char} (h : lexeme.Spelling cs) :
    lexeme ≠ .eof := by
  rintro rfl
  exact h

theorem Lexeme.spelling_ofWord {word : List Char} (h : isWord (String.ofList word) = true) :
    (Lexeme.ofWord (String.ofList word)).Spelling word := by
  generalize hlex : Lexeme.ofWord (String.ofList word) = lexeme
  have hword := hlex
  unfold Lexeme.ofWord at hlex
  split at hlex
  next htrue =>
    subst hlex
    exact htrue
  · split at hlex
    next hfalse =>
      subst hlex
      exact hfalse
    · split at hlex
      next hnone =>
        subst hlex
        exact hnone
      · split at hlex
        next k hk =>
          subst hlex
          have hfound := List.find?_some hk
          rw [decide_eq_true_iff] at hfound
          exact hfound.symm
        next =>
          subst hlex
          show isIdentifier _ = true
          unfold isIdentifier
          rw [Bool.and_eq_true, decide_eq_true_iff]
          exact ⟨h, hword⟩

theorem Numeric.whole_read (s : List Char) :
    (Numeric.read s).whole = s.takeWhile Decimal.isDigit := by
  unfold Numeric.read
  split
  · split <;> rfl
  · rfl

/-- The digits of a number spell its value. -/
theorem Numeric.spelling_read {c : Char} {cs : List Char} (hc : Decimal.isDigit c = true) :
    (Numeric.read (c :: cs)).value.Spelling (Numeric.read (c :: cs)).taken := by
  obtain ⟨hwhole, hfraction⟩ := Numeric.all_isDigit_read (c :: cs)
  have hstarts : (Numeric.read (c :: cs)).whole.isEmpty = false := by
    rw [Numeric.whole_read, List.takeWhile_cons_of_pos hc, List.isEmpty_cons]
  unfold Numeric.value Numeric.taken
  split
  · refine ⟨?_, rfl⟩
    rw [isDigits, hstarts, hwhole]
    rfl
  next hne =>
    refine ⟨_, _, ?_, ?_, rfl, rfl⟩
    · rw [isDigits, hstarts, hwhole]
      rfl
    · rw [Bool.not_eq_true] at hne
      rw [isDigits, hne, hfraction]
      rfl

/-- The characters up to the closing quote are those that the string is written with. -/
theorem Quoted.escapes_read? {quote : Char} {cs : List Char} {q : Quoted}
    (h : Quoted.read? quote cs = some q) :
    ∃ written, Escapes quote q.value written ∧ q.taken = written ++ [quote] := by
  fun_induction Quoted.read? quote cs generalizing q with
  | case1 => cases h
  | case2 =>
    cases h
    exact ⟨[], .nil, rfl⟩
  | case3 => cases h
  | case4 =>
    cases h
    exact ⟨[], .nil, rfl⟩
  | case5 d rest _ ih =>
    obtain ⟨r, hr, rfl⟩ := Option.map_eq_some_iff.mp h
    obtain ⟨written, hwritten, htaken⟩ := ih hr
    exact ⟨'\\' :: d :: written, .escaped d hwritten, by simp [htaken]⟩
  | case6 c d rest hquote hslash ih =>
    obtain ⟨r, hr, rfl⟩ := Option.map_eq_some_iff.mp h
    obtain ⟨written, hwritten, htaken⟩ := ih hr
    exact ⟨c :: written, .plain hquote hslash hwritten, by simp [htaken]⟩

/-! ## The token at a cursor -/

namespace Cursor

/-- A token made of characters at the cursor that spell its lexeme. -/
structure Takes (c : Cursor) (t : Token) (c' : Cursor) : Prop where
  spelling : t.lexeme.Spelling t.text.toList
  pos : t.pos = c.pos
  text : c.rest = t.text.toList ++ c'.rest
  next : c'.pos = c.pos.advance t.text.toList

theorem takes_emit {c : Cursor} {lexeme : Lexeme} {taken rest : List Char} {t : Token} {c' : Cursor}
    (h : c.emit lexeme taken rest = (.ok t, c')) (hspelling : lexeme.Spelling taken)
    (hrest : taken ++ rest = c.rest) : c.Takes t c' := by
  cases h
  have htext : (String.ofList taken).toList = taken := String.toList_ofList
  exact ⟨by rw [htext]; exact hspelling, rfl, by rw [htext]; exact hrest.symm, by rw [htext]; rfl⟩

/-- The token at a cursor is the end of the text, or takes characters that spell it. -/
theorem token_ok {c c' : Cursor} {t : Token} (h : c.token = (.ok t, c')) :
    (c.rest = [] ∧ t = ⟨.eof, "", c.pos⟩) ∨ c.Takes t c' := by
  unfold token at h
  split at h
  next hrest =>
    cases h
    exact Or.inl ⟨hrest, rfl⟩
  next ch rest hrest =>
    refine Or.inr ?_
    split at h
    next hline => exact takes_emit h (by rw [hline]; rfl) hrest.symm
    · split at h
      next hdigit =>
        exact takes_emit h (Numeric.spelling_read hdigit)
          ((Numeric.taken_append_rest _).trans hrest.symm)
      · split at h
        next hquote =>
          split at h
          next q hq =>
            obtain ⟨written, hwritten, htaken⟩ := Quoted.escapes_read? hq
            refine takes_emit h ⟨ch, written, hquote, ?_, by rw [htaken]⟩ ?_
            · rwa [String.toList_ofList]
            · rw [hrest, List.cons_append, Quoted.taken_append_rest hq]
          · cases h
        · split at h
          next hname =>
            refine takes_emit h (Lexeme.spelling_ofWord ?_) ?_
            · rw [List.takeWhile_cons_of_pos (continuesName_of_startsName hname), isWord_ofList,
                hname, Bool.true_and]
              exact List.all_takeWhile
            · rw [List.takeWhile_append_dropWhile, hrest]
          · split at h
            next hsymbol =>
              exact takes_emit h (isSpelled_of_symbol? hsymbol)
                ((symbol?_append hsymbol).trans hrest.symm)
            · cases h

/-! ## No longer spelling -/

section

variable {c c' : Cursor} {t : Token} {cs ahead : List Char}

theorem length_le_takeWhile {p : Char → Bool} (h : cs.all p = true) (ahead : List Char) :
    cs.length ≤ ((cs ++ ahead).takeWhile p).length := by
  rw [List.takeWhile_append_of_pos (List.all_eq_true.mp h), List.length_append]
  exact Nat.le_add_right _ _

theorem length_le_of_isWord (h : c.token = (.ok t, c')) (hrest : c.rest = cs ++ ahead)
    (hcs : isWord (String.ofList cs) = true) : cs.length ≤ t.text.toList.length := by
  cases cs with
  | nil => cases hcs
  | cons ch tail =>
    rw [isWord_ofList, Bool.and_eq_true] at hcs
    have hall : (ch :: tail).all continuesName = true := by
      rw [List.all_cons, continuesName_of_startsName hcs.1, hcs.2]
      rfl
    rw [token_word hrest hcs.1] at h
    cases h
    rw [String.toList_ofList]
    exact length_le_takeWhile hall ahead

theorem length_le_of_isDigits (h : c.token = (.ok t, c')) (hrest : c.rest = cs ++ ahead)
    (hcs : isDigits cs = true) : cs.length ≤ t.text.toList.length := by
  obtain ⟨hall, ch, tail, rfl, hch⟩ := isDigits_iff.mp hcs
  have hwhole := length_le_takeWhile hall ahead
  rw [← Numeric.whole_read] at hwhole
  rw [token_digit hrest hch] at h
  cases h
  rw [String.toList_ofList, Numeric.taken]
  split
  · exact hwhole
  · -- The digits may go on behind a point, which only makes the token longer.
    rw [List.length_append]
    exact Nat.le_trans hwhole (Nat.le_add_right _ _)

theorem length_le_of_point {whole fraction : List Char} (h : c.token = (.ok t, c'))
    (hrest : c.rest = whole ++ '.' :: fraction ++ ahead) (hwhole : isDigits whole = true)
    (hfraction : isDigits fraction = true) :
    (whole ++ '.' :: fraction).length ≤ t.text.toList.length := by
  obtain ⟨hall, d, tail, rfl, hd⟩ := isDigits_iff.mp hfraction
  obtain ⟨hdigits, ch, more, rfl, hch⟩ := isDigits_iff.mp hwhole
  have hlength := length_le_takeWhile hall ahead
  have hread := Numeric.read_point hdigits hd (tail ++ ahead)
  rw [List.append_assoc, List.cons_append, List.cons_append, List.cons_append] at hrest
  rw [token_digit hrest hch, ← List.cons_append, hread] at h
  cases h
  have htake : ((d :: (tail ++ ahead)).takeWhile Decimal.isDigit).isEmpty = false := by
    rw [List.takeWhile_cons_of_pos hd, List.isEmpty_cons]
  rw [String.toList_ofList, Numeric.taken]
  simp only [htake, Bool.false_eq_true, if_false, List.length_append, List.length_cons] at hlength ⊢
  rw [List.cons_append] at hlength
  omega

theorem length_le_of_escapes {quote : Char} {value written : List Char} (h : c.token = (.ok t, c'))
    (hrest : c.rest = quote :: (written ++ [quote]) ++ ahead)
    (hquote : quote = '\x22' ∨ quote = '\x27') (hescapes : Escapes quote value written) :
    (quote :: (written ++ [quote])).length ≤ t.text.toList.length := by
  have hread := Quoted.read?_escapes (solid_of_quote hquote).1 hescapes ahead
  rw [List.cons_append, List.append_assoc, List.singleton_append] at hrest
  rw [token_quote hrest hquote hread] at h
  cases h
  exact Nat.le_of_eq (congrArg List.length String.toList_ofList.symm)

theorem length_le_of_ofPair? {a b : Char} {s : Symbol} (h : c.token = (.ok t, c'))
    (hrest : c.rest = a :: b :: ahead) (hs : Symbol.ofPair? a b = some s) :
    2 ≤ t.text.toList.length := by
  have hsymbol : symbol? (a :: b :: ahead) = some (s, [a, b], ahead) := by
    simp only [symbol?, hs]
  rw [token_symbol hrest (startsSymbol_of_ofPair? hs).1 hsymbol] at h
  cases h
  rw [String.toList_ofList]
  exact Nat.le_refl 2

/-- Unless the text is at its end, the token has a character. -/
theorem length_pos_token (h : c.token = (.ok t, c')) (hrest : c.rest ≠ []) :
    0 < t.text.toList.length := by
  rcases token_ok h with ⟨hend, -⟩ | htakes
  · exact absurd hend hrest
  · exact List.length_pos_iff.mpr htakes.spelling.ne_nil

/-- No lexeme has a spelling at the cursor that is longer than the token. -/
theorem length_le_token {lexeme : Lexeme} (h : c.token = (.ok t, c'))
    (hrest : c.rest = cs ++ ahead) (hcs : lexeme.Spelling cs) :
    cs.length ≤ t.text.toList.length := by
  -- Whatever a word spells, it is cut off in the same way.
  by_cases hlike : lexeme.isWordLike = true
  · exact length_le_of_isWord h hrest (Lexeme.isWord_of_spelling hlike hcs)
  · cases lexeme with
    | literal value =>
      cases value with
      | none => exact absurd rfl hlike
      | bool b => exact absurd rfl hlike
      | int n => exact length_le_of_isDigits h hrest hcs.1
      | real x =>
        obtain ⟨whole, fraction, hwhole, hfraction, rfl, -⟩ := hcs
        exact length_le_of_point h hrest hwhole hfraction
      | str s =>
        obtain ⟨quote, written, hquote, hescapes, rfl⟩ := hcs
        exact length_le_of_escapes h hrest hquote hescapes
    | name => exact absurd rfl hlike
    | keyword k => exact absurd rfl hlike
    | symbol s =>
      rcases hcs with ⟨a, b, hpair, hab⟩ | ⟨a, -, ha⟩
      · obtain rfl := String.ofList_inj.mp hab
        exact length_le_of_ofPair? h hrest hpair
      · obtain rfl := String.ofList_inj.mp ha
        exact length_pos_token h (by rw [hrest]; simp)
    | newline =>
      obtain rfl : cs = ['\n'] := hcs
      exact length_pos_token h (by rw [hrest]; simp)
    | eof => exact hcs.elim

/-- A token before the end of the text is the longest spelling at the cursor. -/
theorem longest_token (h : c.token = (.ok t, c')) (htakes : c.Takes t c') :
    t.lexeme.Longest t.text.toList c.rest where
  spelling := htakes.spelling
  starts := ⟨c'.rest, htakes.text⟩
  longest := fun _ _ _ hmore hrest => length_le_token h hrest hmore

end

end Cursor

end Dee
