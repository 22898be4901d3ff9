import Dee.Proofs.Token.Tiles

/-!
# String literals

A string is written between two quotes of one kind: each of its characters stands there as itself,
unless it is that quote or a backslash, or behind a backslash as the character that decodes to it. A
quote ends the literal if the backslashes right before it make up pairs. Scanning takes back every
way of writing a string, and fails at the opening quote if no quote ends the literal.

Main statement: `strings_decode_exactly`.
-/

namespace Dee

/-! ## Writing strings -/

/-- What a character behind a backslash decodes to: `n`, `t` and `r` to a line end, a tab and a
carriage return, any other character to itself. -/
inductive DecodesTo : (code c : Char) → Prop
  | lineEnd : DecodesTo 'n' '\n'
  | tab : DecodesTo 't' '\t'
  | carriageReturn : DecodesTo 'r' '\r'
  | itself {c : Char} (hn : c ≠ 'n') (ht : c ≠ 't') (hr : c ≠ 'r') : DecodesTo c c

/-- The ways to write a character between quotes. -/
inductive Writes (quote c : Char) : (written : List Char) → Prop
  | plain (hquote : c ≠ quote) (hslash : c ≠ '\\') : Writes quote c [c]
  | escaped {code : Char} (h : DecodesTo code c) : Writes quote c ['\\', code]

/-- A text is a literal of a string: what its characters are written as, one after the other,
between quotes. -/
def IsLiteral (quote : Char) (value text : List Char) : Prop :=
  ∃ parts, List.Forall₂ (Writes quote) value parts ∧ text = quote :: (parts.flatten ++ [quote])

theorem decodesTo_unescape (code : Char) : DecodesTo code (unescape code) := by
  unfold unescape
  split
  · exact .lineEnd
  · exact .tab
  · exact .carriageReturn
  next hn ht hr => exact .itself hn ht hr

theorem DecodesTo.eq_unescape {code c : Char} (h : DecodesTo code c) : c = unescape code := by
  cases h with
  | lineEnd => rfl
  | tab => rfl
  | carriageReturn => rfl
  | itself hn ht hr =>
    rw [unescape]
    · exact hn
    · exact ht
    · exact hr

/-- Strings are escaped character by character. -/
theorem escapes_iff {quote : Char} {value written : List Char} :
    Escapes quote value written ↔
      ∃ parts, List.Forall₂ (Writes quote) value parts ∧ written = parts.flatten := by
  constructor
  · intro h
    induction h with
    | nil => exact ⟨[], .nil, rfl⟩
    | plain hquote hslash _ ih =>
      obtain ⟨parts, hparts, rfl⟩ := ih
      exact ⟨_ :: parts, .cons (.plain hquote hslash) hparts, rfl⟩
    | escaped code _ ih =>
      obtain ⟨parts, hparts, rfl⟩ := ih
      exact ⟨_ :: parts, .cons (.escaped (decodesTo_unescape code)) hparts, rfl⟩
  · rintro ⟨parts, hparts, rfl⟩
    induction hparts with
    | nil => exact .nil
    | cons hc _ ih =>
      cases hc with
      | plain hquote hslash => exact .plain hquote hslash ih
      | escaped hcode => exact hcode.eq_unescape ▸ .escaped _ ih

theorem isLiteral_iff {quote : Char} {value text : List Char} :
    IsLiteral quote value text ↔
      ∃ written, Escapes quote value written ∧ text = quote :: (written ++ [quote]) := by
  constructor
  · rintro ⟨parts, hparts, htext⟩
    exact ⟨_, escapes_iff.mpr ⟨parts, hparts, rfl⟩, htext⟩
  · rintro ⟨written, hwritten, htext⟩
    obtain ⟨parts, hparts, rfl⟩ := escapes_iff.mp hwritten
    exact ⟨parts, hparts, htext⟩

/-! ## Quotes that end a literal -/

/-- No backslash escapes what stands behind some characters: those right before it make up pairs. -/
def Unescaped (before : List Char) : Prop :=
  (before.reverse.takeWhile (· = '\\')).length % 2 = 0

instance (before : List Char) : Decidable (Unescaped before) :=
  inferInstanceAs (Decidable (_ = _))

/-- Characters that leave what follows unescaped make no difference to what stands further
behind. -/
theorem Unescaped.append_iff {first before : List Char} (h : Unescaped first) :
    Unescaped (first ++ before) ↔ Unescaped before := by
  unfold Unescaped at *
  rw [List.reverse_append, List.takeWhile_append]
  split
  next hall =>
    rw [List.length_append, hall]
    omega
  next => exact Iff.rfl

theorem unescaped_plain {c : Char} (h : c ≠ '\\') : Unescaped [c] := by
  simp [Unescaped, h]

theorem unescaped_pair (c : Char) : Unescaped ['\\', c] := by
  by_cases hc : c = '\\' <;> simp [Unescaped, hc]

/-- What a string is written as leaves the closing quote unescaped. -/
theorem unescaped_of_escapes {quote : Char} {value written : List Char}
    (h : Escapes quote value written) : Unescaped written := by
  induction h with
  | nil => rfl
  | plain _ hslash _ ih => exact (unescaped_plain hslash).append_iff.mpr ih
  | escaped c _ ih => exact (unescaped_pair c).append_iff.mpr ih

namespace Quoted

/-- If no literal is read, then each quote is escaped. -/
theorem escaped_of_read?_eq_none {quote : Char} (hquote : '\\' ≠ quote) {cs : List Char}
    (h : Quoted.read? quote cs = none) (before rest : List Char)
    (hcs : cs = before ++ quote :: rest) : ¬Unescaped before := by
  fun_induction Quoted.read? quote cs generalizing before with
  | case1 => simp at hcs
  | case2 => cases h
  | case3 c hc =>
    -- The one character would have to be the quote.
    cases before with
    | nil => exact absurd (List.cons.inj hcs).1 hc
    | cons b before => simp at hcs
  | case4 => cases h
  | case5 d more _ ih =>
    rw [Option.map_eq_none_iff] at h
    rcases before with - | ⟨b, - | ⟨b', before⟩⟩
    · exact absurd (List.cons.inj hcs).1 hquote
    · rw [← (List.cons.inj hcs).1]
      decide
    · simp only [List.cons_append, List.cons.injEq] at hcs
      obtain ⟨rfl, rfl, hmore⟩ := hcs
      intro hbefore
      exact ih h before hmore ((unescaped_pair d).append_iff.mp hbefore)
  | case6 c d more hc hslash ih =>
    rw [Option.map_eq_none_iff] at h
    cases before with
    | nil => exact absurd (List.cons.inj hcs).1 hc
    | cons b before =>
      rw [List.cons_append, List.cons.injEq] at hcs
      obtain ⟨rfl, hmore⟩ := hcs
      intro hbefore
      exact ih h before hmore ((unescaped_plain hslash).append_iff.mp hbefore)

/-- A literal is read unless all quotes are escaped. -/
theorem read?_eq_none_iff {quote : Char} (hquote : '\\' ≠ quote) {cs : List Char} :
    Quoted.read? quote cs = none ↔
      ∀ before rest, cs = before ++ quote :: rest → ¬Unescaped before := by
  constructor
  · exact escaped_of_read?_eq_none hquote
  · intro h
    by_contra hread
    obtain ⟨q, hq⟩ := Option.ne_none_iff_exists'.mp hread
    obtain ⟨written, hwritten, htaken⟩ := Quoted.escapes_read? hq
    refine h written q.rest ?_ (unescaped_of_escapes hwritten)
    rw [← Quoted.taken_append_rest hq, htaken, List.append_assoc, List.singleton_append]

end Quoted

/-! ## Scanning strings -/

/-- A text that is one token is scanned as the token and the end. -/
theorem tokenize_of_scans {source : String} {lexeme : Lexeme} (h : Scans source.toList lexeme)
    (hne : lexeme ≠ .eof) :
    tokenize source = .ok [⟨lexeme, source, .start⟩, ⟨.eof, "", .behind source.toList⟩] := by
  have hnext := h 0 .start [] (Or.inl rfl)
  rw [List.append_nil] at hnext
  have heof : (⟨lexeme, String.ofList source.toList, .start⟩ : Token).isEof = false :=
    decide_eq_false hne
  obtain ⟨steps, hsteps⟩ := Nat.exists_eq_succ_of_ne_zero
    (Nat.ne_of_gt (List.length_pos_iff.mpr (h.ne_nil hne)))
  unfold tokenize Feed.ofText
  show (Feed.scan (source.toList.length + 1) ⟨0, .start, source.toList⟩ []).toTokens = _
  rw [Feed.scan, hnext, hsteps]
  simp only [Cursor.emit, heof, Bool.false_eq_true, if_false]
  rw [← Pos.advance_start, String.ofList_toList]
  rfl

theorem Cursor.token_unclosed {c : Cursor} {quote : Char} {cs : List Char}
    (hrest : c.rest = quote :: cs)
    (hquote : quote = '\x22' ∨ quote = '\x27') (hread : Quoted.read? quote cs = none) :
    c.token = (.error ⟨.unclosedString, c.pos⟩, c.take (quote :: cs) []) := by
  obtain ⟨-, hdigit, hline, -, -⟩ := solid_of_quote hquote
  rw [Cursor.token, hrest]
  simp only [if_neg hline, hdigit, Bool.false_eq_true, if_false, if_pos hquote, hread]

/-- A quote behind a gap starts a token. -/
theorem Cursor.next_gap_quote {c : Cursor} {gap cs : List Char} {quote : Char}
    (hquote : quote = '\x22' ∨ quote = '\x27') (hrest : c.rest = gap ++ quote :: cs)
    (hgap : Gap gap (quote :: cs)) :
    ∃ c₁ : Cursor, c.next = c₁.token ∧ c₁.pos = c.pos.advance gap ∧ c₁.rest = quote :: cs := by
  obtain ⟨-, -, -, hslash, hblank⟩ := solid_of_quote hquote
  obtain ⟨offset, pos, text⟩ := c
  subst hrest
  refine ⟨⟨offset + gap.length, pos.advance gap, quote :: cs⟩, ?_, rfl, rfl⟩
  rw [Cursor.next_gap hgap, Cursor.next_eq_token _ _ hblank fun heq => absurd heq hslash]

/-- A string fails at its opening quote if and only if each quote behind it is escaped. -/
theorem Cursor.next_unclosed_iff {c : Cursor} {gap cs : List Char} {quote : Char}
    (hquote : quote = '\x22' ∨ quote = '\x27') (hrest : c.rest = gap ++ quote :: cs)
    (hgap : Gap gap (quote :: cs)) :
    c.next.1 = .error ⟨.unclosedString, c.pos.advance gap⟩ ↔
      ∀ before rest, cs = before ++ quote :: rest → ¬Unescaped before := by
  obtain ⟨c₁, hnext, hpos, hrest₁⟩ := Cursor.next_gap_quote hquote hrest hgap
  rw [← Quoted.read?_eq_none_iff (solid_of_quote hquote).1, hnext, ← hpos]
  cases hread : Quoted.read? quote cs with
  | none => simp [Cursor.token_unclosed hrest₁ hquote hread]
  | some q => simp [Cursor.token_quote hrest₁ hquote hread, Cursor.emit]

/-- The text of a token spells its meaning. -/
theorem Cursor.spelling_of_next {c c' : Cursor} {t : Token} (h : c.next = (.ok t, c'))
    (heof : t.lexeme ≠ .eof) : t.lexeme.Spelling t.text.toList := by
  unfold next at h
  split at h
  · cases h
  · rcases token_ok h with ⟨-, rfl⟩ | htakes
    · exact absurd rfl heof
    · exact htakes.spelling

/-- String literals decode exactly. Every text that a string can be written as between two quotes is
one token, which has the string as its value, before the end of the text. Every string that a scan
finds has such a text. A string whose quote is found behind a gap fails, at this quote, if and only
if each quote of its kind behind it is escaped. -/
theorem strings_decode_exactly :
    (∀ (quote : Char) (value text : String), quote = '"' ∨ quote = '\'' →
      IsLiteral quote value.toList text.toList →
        tokenize text = .ok
          [⟨.literal (.str value), text, .start⟩, ⟨.eof, "", .behind text.toList⟩]) ∧
      (∀ (c c' : Cursor) (t : Token) (value : String), c.next = (.ok t, c') →
        t.lexeme = .literal (.str value) →
          ∃ quote, (quote = '"' ∨ quote = '\'') ∧ IsLiteral quote value.toList t.text.toList) ∧
      ∀ (c : Cursor) (gap : List Char) (quote : Char) (cs : List Char), quote = '"' ∨ quote = '\'' →
        c.rest = gap ++ quote :: cs → Gap gap (quote :: cs) →
          (c.next.1 = .error ⟨.unclosedString, c.pos.advance gap⟩ ↔
            ∀ before rest, cs = before ++ quote :: rest → ¬Unescaped before) := by
  refine ⟨?_, ?_, ?_⟩
  · intro quote value text hquote hliteral
    obtain ⟨written, hwritten, htext⟩ := isLiteral_iff.mp hliteral
    have hscans := scans_string hquote hwritten
    rw [← htext, String.ofList_toList] at hscans
    exact tokenize_of_scans hscans nofun
  · intro c c' t value hnext hlexeme
    have hspelling := Cursor.spelling_of_next hnext (by simp [hlexeme])
    rw [hlexeme] at hspelling
    obtain ⟨quote, written, hquote, hwritten, htext⟩ := hspelling
    exact ⟨quote, hquote, isLiteral_iff.mpr ⟨written, hwritten, htext⟩⟩
  · intro c gap quote cs hquote hrest hgap
    exact Cursor.next_unclosed_iff hquote hrest hgap

/-- An escaped quote, an escaped backslash before the closing quote, and a backslash of its own
before a quote that therefore does not close. -/
theorem strings_decode_exactly_before_quotes :
    let text := "'it\\'s\\n\\\\'"
    let left := Cursor.ofText " \"a\\\\\\\"".toList
    (IsLiteral '\'' "it's\n\\".toList text.toList ∧
      tokenize text = .ok [⟨.literal (.str "it's\n\\"), text, .start⟩, ⟨.eof, "", ⟨1, 12⟩⟩]) ∧
      left.next.1 = .error ⟨.unclosedString, ⟨1, 2⟩⟩ := by
  intro text left
  obtain ⟨hread, -, hfails⟩ := strings_decode_exactly
  have hliteral : IsLiteral '\'' "it's\n\\".toList text.toList := by
    refine ⟨[['i'], ['t'], ['\\', '\''], ['s'], ['\\', 'n'], ['\\', '\\']], ?_, by decide⟩
    have hplain : ∀ c, c ≠ '\'' → c ≠ '\\' → Writes '\'' c [c] := fun _ => .plain
    have hself : ∀ c, c ≠ 'n' → c ≠ 't' → c ≠ 'r' → Writes '\'' c ['\\', c] :=
      fun _ hn ht hr => .escaped (.itself hn ht hr)
    exact .cons (hplain _ (by decide) (by decide)) (.cons (hplain _ (by decide) (by decide))
      (.cons (hself _ (by decide) (by decide) (by decide)) (.cons (hplain _ (by decide) (by decide))
        (.cons (.escaped .lineEnd) (.cons (hself _ (by decide) (by decide) (by decide)) .nil)))))
  have hend : Pos.behind text.toList = ⟨1, 12⟩ := by decide
  refine ⟨⟨hliteral, ?_⟩, ?_⟩
  · rw [hread _ _ text (Or.inr rfl) hliteral, hend]
  · refine (hfails left [' '] '"' ['a', '\\', '\\', '\\', '"'] (Or.inl rfl) rfl
      (.blank rfl (.nil _))).mpr ?_
    exact Quoted.escaped_of_read?_eq_none (by decide) rfl

end Dee
