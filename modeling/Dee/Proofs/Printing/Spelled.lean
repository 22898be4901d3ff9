import Dee.Proofs.Printing.Pieces
import Dee.Proofs.Token.Layout

/-!
# Scanning printed programs

Between blanks, each spelling of a piece is scanned as one token, and the token is the piece: it has
the meaning and the text that a parser looks at.

Main statement: `Feed.ofText_prints`.
-/

namespace Dee

/-! ## Tokens of pieces -/

/-- The meaning of an operator: a symbol or a keyword. -/
def Lexeme.ofOperator (text : String) : Lexeme :=
  match Cursor.symbol? text.toList with
  | some (s, _, _) => .symbol s
  | none => .ofWord text

/-- A token is a piece, as far as a parser can tell. -/
def Piece.IsToken (t : Token) : Piece → Prop
  | .literal value => t.lexeme = .literal value
  | .position index =>
    (∃ n, t.lexeme = .literal (.int n)) ∧ t.text.toList.length ≤ Grammar.maxPositionDigits ∧
      index = Decimal.toNat t.text.toList
  | .name text => t.lexeme = .name ∧ t.text = text
  | .keyword k => t.lexeme = .keyword k
  | .symbol s => t.lexeme = .symbol s
  | .operator text => t.lexeme = .ofOperator text ∧ t.text = text
  | .indicator text => Grammar.isIndicatorWord t = true ∧ t.text = text
  | .separator => t.isSeparator = true
  | .bodyArrow => t.lexeme = .symbol .arrow ∨ t.lexeme = .symbol .thinArrow

/-! ## Characters that end with a blank -/

/-- What holds of a space, a tab and a carriage return holds of all blanks. -/
theorem forall_isBlank {P : Char → Prop} (h : P ' ' ∧ P '\t' ∧ P '\r') :
    ∀ c, Cursor.isBlank c = true → P c := by
  intro c hc
  rcases Cursor.isBlank_iff.mp hc with rfl | rfl | rfl
  · exact h.1
  · exact h.2.1
  · exact h.2.2

theorem takeWhile_apart {p : Char → Bool} (hp : ∀ c, Cursor.isBlank c = true → p c = false)
    {cs rest : List Char} (hcs : cs.all p = true) (hrest : Apart rest) :
    (cs ++ rest).takeWhile p = cs := by
  rw [List.takeWhile_append_of_pos (List.all_eq_true.mp hcs)]
  rcases hrest with rfl | ⟨c, more, hc, rfl⟩
  · simp
  · rw [List.takeWhile_cons_of_neg (by simp [hp c hc]), List.append_nil]

theorem dropWhile_apart {p : Char → Bool} (hp : ∀ c, Cursor.isBlank c = true → p c = false)
    {cs rest : List Char} (hcs : cs.all p = true) (hrest : Apart rest) :
    (cs ++ rest).dropWhile p = rest := by
  rw [List.dropWhile_append_of_pos (List.all_eq_true.mp hcs)]
  rcases hrest with rfl | ⟨c, more, hc, rfl⟩
  · rfl
  · rw [List.dropWhile_cons_of_neg (by simp [hp c hc])]

theorem isDigit_of_isBlank : ∀ c, Cursor.isBlank c = true → Decimal.isDigit c = false :=
  forall_isBlank (by decide)

theorem continuesName_of_isBlank : ∀ c, Cursor.isBlank c = true → continuesName c = false :=
  forall_isBlank (by decide)

/-! ## Gaps -/

namespace Cursor

/-- There is no gap before a character that is no blank and opens no comment. -/
theorem next_eq_token (offset : Nat) (pos : Pos) {c : Char} {cs : List Char}
    (hblank : isBlank c = false) (hcomment : c = '/' → ∀ d rest, cs = d :: rest →
      d ≠ '/' ∧ d ≠ '*') :
    (⟨offset, pos, c :: cs⟩ : Cursor).next = (⟨offset, pos, c :: cs⟩ : Cursor).token := by
  have hskip : skipGapFrom offset pos .between (c :: cs) = (.ok (), ⟨offset, pos, c :: cs⟩) := by
    rw [skipGapFrom]
    · rw [hblank]
      rfl
    · rintro rest rfl rfl
      exact (hcomment rfl '/' rest rfl).1 rfl
    · rintro rest rfl rfl
      exact (hcomment rfl '*' rest rfl).2 rfl
  unfold next skipGap
  rw [hskip]

end Cursor

/-! ## Numbers -/

theorem isDigit_lt {c : Char} (h : Decimal.isDigit c = true) : 48 ≤ c.toNat ∧ c.toNat < 58 := by
  unfold Decimal.isDigit at h
  rw [Bool.and_eq_true, decide_eq_true_iff, decide_eq_true_iff] at h
  have hlow : '0'.toNat ≤ c.toNat := h.1
  have hhigh : c.toNat ≤ '9'.toNat := h.2
  have hzero : '0'.toNat = 48 := rfl
  have hnine : '9'.toNat = 57 := rfl
  omega

theorem ne_of_toNat_ne {c d : Char} (h : c.toNat ≠ d.toNat) : c ≠ d := by
  rintro rfl
  exact h rfl

/-- From the digits on, no character is a line end, a blank or the start of a comment. -/
theorem solid_of_le {c : Char} (h : 48 ≤ c.toNat) :
    c ≠ '\n' ∧ c ≠ '/' ∧ Cursor.isBlank c = false := by
  have hspace : c ≠ ' ' := ne_of_toNat_ne (by show c.toNat ≠ 32; omega)
  have htab : c ≠ '\t' := ne_of_toNat_ne (by show c.toNat ≠ 9; omega)
  have hreturn : c ≠ '\r' := ne_of_toNat_ne (by show c.toNat ≠ 13; omega)
  refine ⟨ne_of_toNat_ne (by show c.toNat ≠ 10; omega),
    ne_of_toNat_ne (by show c.toNat ≠ 47; omega), ?_⟩
  simp [Cursor.isBlank, hspace, htab, hreturn]

theorem Cursor.token_digit {c : Cursor} {ch : Char} {cs : List Char} (hrest : c.rest = ch :: cs)
    (hch : Decimal.isDigit ch = true) :
    c.token = c.emit (.literal (Numeric.read (ch :: cs)).value) (Numeric.read (ch :: cs)).taken
      (Numeric.read (ch :: cs)).rest := by
  obtain ⟨hline, -, -⟩ := solid_of_le (isDigit_lt hch).1
  rw [Cursor.token, hrest]
  simp only [if_neg hline, if_pos hch]

/-- A run of digits and what follows it are told apart by the first digit. -/
theorem scans_numeric {cs : List Char} {n : Numeric} (hhead : ∃ c tail, cs = c :: tail ∧
    Decimal.isDigit c = true) (hread : ∀ rest, Apart rest → Numeric.read (cs ++ rest) =
      ⟨n.whole, n.fraction, rest⟩) (htaken : n.taken = cs) : Scans cs (.literal n.value) := by
  intro offset pos rest hrest
  obtain ⟨c, tail, rfl, hc⟩ := hhead
  obtain ⟨-, hslash, hblank⟩ := solid_of_le (isDigit_lt hc).1
  have hvalue : (Numeric.mk n.whole n.fraction rest).value = n.value := rfl
  have htext : (Numeric.mk n.whole n.fraction rest).taken = c :: tail := htaken
  rw [List.cons_append, Cursor.next_eq_token offset pos hblank (fun h => absurd h hslash),
    Cursor.token_digit rfl hc, ← List.cons_append, hread rest hrest, hvalue, htext]

theorem isDigits_iff {cs : List Char} :
    isDigits cs = true ↔ cs.all Decimal.isDigit = true ∧ ∃ c tail, cs = c :: tail ∧
      Decimal.isDigit c = true := by
  cases cs with
  | nil => simp [isDigits]
  | cons c tail =>
    simp only [isDigits, List.isEmpty_cons, Bool.not_false, Bool.true_and]
    refine ⟨fun h => ⟨h, c, tail, rfl, ?_⟩, And.left⟩
    rw [List.all_cons, Bool.and_eq_true] at h
    exact h.1

theorem numeric_read_int {cs rest : List Char} (hcs : isDigits cs = true) (hrest : Apart rest) :
    Numeric.read (cs ++ rest) = ⟨cs, [], rest⟩ := by
  have hall := (isDigits_iff.mp hcs).1
  unfold Numeric.read
  rw [takeWhile_apart isDigit_of_isBlank hall hrest, dropWhile_apart isDigit_of_isBlank hall hrest]
  rcases hrest with rfl | ⟨c, more, hc, rfl⟩
  · rfl
  · rcases Cursor.isBlank_iff.mp hc with rfl | rfl | rfl <;> rfl

/-- A point with a digit behind it belongs to the number before it. -/
theorem Numeric.read_point {whole : List Char} (hwhole : whole.all Decimal.isDigit = true)
    {d : Char} (hd : Decimal.isDigit d = true) (rest : List Char) :
    Numeric.read (whole ++ '.' :: d :: rest) =
      ⟨whole, (d :: rest).takeWhile Decimal.isDigit, (d :: rest).dropWhile Decimal.isDigit⟩ := by
  have htake : (whole ++ '.' :: d :: rest).takeWhile Decimal.isDigit = whole := by
    rw [List.takeWhile_append_of_pos (List.all_eq_true.mp hwhole),
      List.takeWhile_cons_of_neg (by decide), List.append_nil]
  have hdrop : (whole ++ '.' :: d :: rest).dropWhile Decimal.isDigit = '.' :: d :: rest := by
    rw [List.dropWhile_append_of_pos (List.all_eq_true.mp hwhole),
      List.dropWhile_cons_of_neg (by decide)]
  unfold Numeric.read
  rw [htake, hdrop]
  simp only [if_pos hd]

theorem numeric_read_real {whole fraction rest : List Char} (hwhole : isDigits whole = true)
    (hfraction : isDigits fraction = true) (hrest : Apart rest) :
    Numeric.read (whole ++ '.' :: fraction ++ rest) = ⟨whole, fraction, rest⟩ := by
  obtain ⟨hdigits, -⟩ := isDigits_iff.mp hwhole
  obtain ⟨hall, d, tail, rfl, hd⟩ := isDigits_iff.mp hfraction
  rw [List.append_assoc, List.cons_append, List.cons_append, Numeric.read_point hdigits hd,
    ← List.cons_append, takeWhile_apart isDigit_of_isBlank hall hrest,
    dropWhile_apart isDigit_of_isBlank hall hrest]

theorem scans_int {cs : List Char} (h : isDigits cs = true) :
    Scans cs (.literal (.int (Decimal.toNat cs))) :=
  scans_numeric (isDigits_iff.mp h).2 (fun _ hrest => numeric_read_int h hrest) (n := ⟨cs, [], []⟩)
    rfl

theorem scans_real {whole fraction : List Char} (hwhole : isDigits whole = true)
    (hfraction : isDigits fraction = true) :
    Scans (whole ++ '.' :: fraction) (.literal (.real (Real.ofDigits whole fraction))) := by
  obtain ⟨-, d, tail, rfl, -⟩ := isDigits_iff.mp hfraction
  obtain ⟨-, c, more, rfl, hc⟩ := isDigits_iff.mp hwhole
  exact scans_numeric ⟨c, _, rfl, hc⟩ (fun _ hrest => numeric_read_real hwhole hfraction hrest)
    (n := ⟨_, _, []⟩) rfl

/-! ## Strings -/

namespace Quoted

theorem read?_quote (quote : Char) (rest : List Char) :
    Quoted.read? quote (quote :: rest) = some ⟨[], [quote], rest⟩ := by
  cases rest with
  | nil => rw [Quoted.read?, if_pos rfl]
  | cons d rest => rw [Quoted.read?, if_pos rfl]

theorem read?_plain {quote c : Char} {cs : List Char} {q : Quoted} (hquote : c ≠ quote)
    (hslash : c ≠ '\\') (h : Quoted.read? quote cs = some q) :
    Quoted.read? quote (c :: cs) = some ⟨c :: q.value, c :: q.taken, q.rest⟩ := by
  cases cs with
  | nil => cases h
  | cons d cs => rw [Quoted.read?, if_neg hquote, if_neg hslash, h, Option.map_some]

theorem read?_escaped {quote : Char} (hquote : '\\' ≠ quote) (c : Char)
    {cs : List Char} {q : Quoted}
    (h : Quoted.read? quote cs = some q) :
    Quoted.read? quote ('\\' :: c :: cs) =
      some ⟨unescape c :: q.value, '\\' :: c :: q.taken, q.rest⟩ := by
  rw [Quoted.read?, if_neg hquote, if_pos rfl, h, Option.map_some]

/-- Reading takes an escaped string back, up to the closing quote. -/
theorem read?_escapes {quote : Char} (hquote : '\\' ≠ quote) {value written : List Char}
    (h : Escapes quote value written) (rest : List Char) :
    Quoted.read? quote (written ++ quote :: rest) = some ⟨value, written ++ [quote], rest⟩ := by
  induction h with
  | nil => exact read?_quote quote rest
  | plain hc hslash _ ih => exact read?_plain hc hslash ih
  | escaped c _ ih => exact read?_escaped hquote c ih

end Quoted

/-- A quote is no backslash, no digit, no line end, no blank and not the start of a comment. -/
theorem solid_of_quote {quote : Char} (h : quote = '\x22' ∨ quote = '\x27') :
    '\\' ≠ quote ∧ Decimal.isDigit quote = false ∧ quote ≠ '\n' ∧ quote ≠ '/' ∧
      Cursor.isBlank quote = false := by
  rcases h with rfl | rfl <;> decide

theorem Cursor.token_quote {c : Cursor} {quote : Char} {cs : List Char}
    (hrest : c.rest = quote :: cs) (hquote : quote = '\x22' ∨ quote = '\x27') {q : Quoted}
    (hread : Quoted.read? quote cs = some q) :
    c.token = c.emit (.literal (.str (String.ofList q.value))) (quote :: q.taken) q.rest := by
  obtain ⟨-, hdigit, hline, -, -⟩ := solid_of_quote hquote
  rw [Cursor.token, hrest]
  simp only [if_neg hline, hdigit, Bool.false_eq_true, if_false, if_pos hquote, hread]

theorem scans_string {quote : Char} (hquote : quote = '\x22' ∨ quote = '\x27')
    {value written : List Char} (h : Escapes quote value written) :
    Scans (quote :: (written ++ [quote])) (.literal (.str (String.ofList value))) := by
  intro offset pos rest hrest
  obtain ⟨hescape, -, -, hslash, hblank⟩ := solid_of_quote hquote
  have hread := Quoted.read?_escapes hescape h rest
  rw [List.cons_append, List.append_assoc, List.singleton_append,
    Cursor.next_eq_token offset pos hblank (fun h => absurd h hslash),
    Cursor.token_quote rfl hquote hread]

/-! ## Words -/

/-- No character below the letters starts a name. -/
theorem le_of_startsName {c : Char} (h : startsName c = true) : 65 ≤ c.toNat := by
  unfold startsName Text.isLetter at h
  rw [Bool.or_eq_true, Bool.or_eq_true, Bool.and_eq_true, decide_eq_true_iff,
    decide_eq_true_iff] at h
  rcases h with (halpha | ⟨hhigh, -⟩) | rfl
  · unfold Char.isAlpha Char.isUpper Char.isLower at halpha
    simp only [Bool.or_eq_true, Bool.and_eq_true, decide_eq_true_iff] at halpha
    rcases halpha with ⟨hlow, -⟩ | ⟨hlow, -⟩
    · exact hlow
    · have hle : 97 ≤ c.toNat := hlow
      omega
  · omega
  · decide

theorem Cursor.token_word {c : Cursor} {ch : Char} {cs : List Char} (hrest : c.rest = ch :: cs)
    (hch : startsName ch = true) :
    c.token = c.emit (.ofWord (String.ofList ((ch :: cs).takeWhile continuesName)))
      ((ch :: cs).takeWhile continuesName) ((ch :: cs).dropWhile continuesName) := by
  have hle := le_of_startsName hch
  obtain ⟨hline, -, -⟩ := solid_of_le (by omega : 48 ≤ ch.toNat)
  have hdigit : ¬Decimal.isDigit ch = true := by
    intro h
    have := isDigit_lt h
    omega
  have hquote : ¬(ch = '\x22' ∨ ch = '\x27') := by
    rintro (rfl | rfl)
    · exact absurd hle (by decide)
    · exact absurd hle (by decide)
  rw [Cursor.token, hrest]
  simp only [if_neg hline, if_neg hdigit, if_neg hquote, if_pos hch]

/-- Words are scanned up to their end, and mean what they mean as a whole. -/
theorem scans_word {c : Char} {tail : List Char} (hc : startsName c = true)
    (htail : tail.all continuesName = true) :
    Scans (c :: tail) (.ofWord (String.ofList (c :: tail))) := by
  intro offset pos rest hrest
  have hle := le_of_startsName hc
  have hall : (c :: tail).all continuesName = true := by
    rw [List.all_cons, Bool.and_eq_true]
    exact ⟨continuesName_of_startsName hc, htail⟩
  obtain ⟨-, hslash, hblank⟩ := solid_of_le (by omega : 48 ≤ c.toNat)
  rw [List.cons_append, Cursor.next_eq_token offset pos hblank (fun h => absurd h hslash),
    Cursor.token_word rfl hc, ← List.cons_append,
    takeWhile_apart continuesName_of_isBlank hall hrest,
    dropWhile_apart continuesName_of_isBlank hall hrest]

/-- Whether a text is spelled like a word. -/
def isWord (s : String) : Bool :=
  match s.toList with
  | [] => false
  | c :: tail => startsName c && tail.all continuesName

theorem isWord_ofList (c : Char) (tail : List Char) :
    isWord (String.ofList (c :: tail)) = (startsName c && tail.all continuesName) := by
  unfold isWord
  rw [String.toList_ofList]

theorem scans_ofWord {text : String} {cs : List Char} (h : isWord text = true)
    (hcs : String.ofList cs = text) : Scans cs (.ofWord text) := by
  subst hcs
  cases cs with
  | nil => cases h
  | cons c tail =>
    rw [isWord_ofList, Bool.and_eq_true] at h
    exact scans_word h.1 h.2

theorem isWord_of_isIdentifier {text : String} (h : isIdentifier text = true) :
    isWord text = true ∧ Lexeme.ofWord text = .name := by
  unfold isIdentifier at h
  rw [Bool.and_eq_true, decide_eq_true_iff] at h
  exact h

theorem isWord_keyword (k : Keyword) : isWord k.text = true := by
  cases k <;> decide

theorem ofWord_keyword (k : Keyword) : Lexeme.ofWord k.text = .keyword k := by
  cases k <;> decide

theorem isWord_kind (k : Kind) : isWord k.name = true := by
  cases k <;> decide

/-! ## Symbols -/

/-- A character that starts neither a gap nor a line end, a number, a string or a word. -/
def startsSymbol (c : Char) : Bool :=
  !Cursor.isBlank c && c ≠ '\n' && !Decimal.isDigit c && !(c = '\x22' ∨ c = '\x27') && !startsName c

theorem Cursor.token_symbol {c : Cursor} {ch : Char} {cs : List Char} (hrest : c.rest = ch :: cs)
    (hch : startsSymbol ch = true) {taken rest : List Char} {s : Symbol}
    (hsymbol : Cursor.symbol? (ch :: cs) = some (s, taken, rest)) :
    c.token = c.emit (.symbol s) taken rest := by
  simp only [startsSymbol, Bool.and_eq_true, Bool.not_eq_true', decide_eq_true_iff,
    decide_eq_false_iff_not] at hch
  obtain ⟨⟨⟨⟨-, hline⟩, hdigit⟩, hquote⟩, hname⟩ := hch
  rw [Cursor.token, hrest]
  simp only [if_neg hline, hdigit, Bool.false_eq_true, if_false, if_neg hquote, hname, hsymbol]

theorem scans_symbol {c : Char} {tail : List Char} {s : Symbol} (hc : startsSymbol c = true)
    (hcomment : c = '/' → ∀ d more, tail = d :: more → d ≠ '/' ∧ d ≠ '*')
    (hsymbol : ∀ rest, Apart rest →
      Cursor.symbol? (c :: (tail ++ rest)) = some (s, c :: tail, rest)) :
    Scans (c :: tail) (.symbol s) := by
  intro offset pos rest hrest
  have hblank : Cursor.isBlank c = false := by
    simp only [startsSymbol, Bool.and_eq_true, Bool.not_eq_true'] at hc
    exact hc.1.1.1.1
  rw [List.cons_append, Cursor.next_eq_token offset pos hblank,
    Cursor.token_symbol rfl hc (hsymbol rest hrest)]
  · intro hslash d more hd
    cases tail with
    | cons e tail =>
      rw [List.cons_append, List.cons.injEq] at hd
      obtain ⟨rfl, -⟩ := hd
      exact hcomment hslash e tail rfl
    | nil =>
      rcases hrest with rfl | ⟨blank, more, hblank, rfl⟩
      · cases hd
      · rw [List.nil_append, List.cons.injEq] at hd
        obtain ⟨rfl, -⟩ := hd
        exact forall_isBlank (P := fun b => b ≠ '/' ∧ b ≠ '*') (by decide) _ hblank

theorem startsSymbol_of_ofPair? {a b : Char} {s : Symbol} (h : Symbol.ofPair? a b = some s) :
    startsSymbol a = true ∧ b ≠ '/' ∧ b ≠ '*' := by
  unfold Symbol.ofPair? at h
  split at h <;> first | cases h; done | decide

theorem scans_pair {a b : Char} {s : Symbol} (h : Symbol.ofPair? a b = some s) :
    Scans [a, b] (.symbol s) := by
  have hstart := startsSymbol_of_ofPair? h
  refine scans_symbol hstart.1 ?_ ?_
  · rintro - d more hd
    rw [List.cons.injEq] at hd
    obtain ⟨rfl, -⟩ := hd
    exact hstart.2
  · intro rest _
    simp only [List.singleton_append, Cursor.symbol?, h]

theorem scans_char {a : Char} {s : Symbol} (h : Symbol.ofChar? a = some s) :
    Scans [a] (.symbol s) := by
  have hstart : startsSymbol a = true ∧ Symbol.ofPair? a ' ' = none ∧
      Symbol.ofPair? a '\t' = none ∧ Symbol.ofPair? a '\r' = none := by
    unfold Symbol.ofChar? at h
    split at h <;> first | cases h; done | decide
  refine scans_symbol hstart.1 ?_ ?_
  · rintro - d more hd
    cases hd
  · intro rest hrest
    rcases hrest with rfl | ⟨blank, more, hblank, rfl⟩
    · simp only [List.append_nil, Cursor.symbol?, h, Option.map_some]
    · have hpair := forall_isBlank (P := fun b => Symbol.ofPair? a b = none) hstart.2 _ hblank
      simp only [List.nil_append, Cursor.symbol?, hpair, h, Option.map_some]

theorem scans_isSpelled {s : Symbol} {cs : List Char} (h : s.IsSpelled (String.ofList cs)) :
    Scans cs (.symbol s) := by
  rcases h with ⟨a, b, hpair, hcs⟩ | ⟨a, hchar, hcs⟩
  · rw [String.ofList_inj.mp hcs]
    exact scans_pair hpair
  · rw [String.ofList_inj.mp hcs]
    exact scans_char hchar

/-! ## Operators -/

theorem ofOperator_ne_eof (text : String) : Lexeme.ofOperator text ≠ .eof := by
  unfold Lexeme.ofOperator
  split
  · nofun
  · unfold Lexeme.ofWord
    split
    · nofun
    · split
      · nofun
      · split
        · nofun
        · split <;> nofun

theorem scans_operator {text : String} {cs : List Char}
    (h : (BinaryOp.ofText? text).isSome = true ∨ (UnaryOp.ofText? text).isSome = true)
    (hcs : String.ofList cs = text) : Scans cs (.ofOperator text) := by
  have hlist : cs = text.toList := by rw [← hcs, String.toList_ofList]
  subst hlist
  have hword : ∀ k : Keyword, Lexeme.ofOperator k.text = .keyword k →
      Scans k.text.toList (.ofOperator k.text) := by
    intro k hk
    rw [hk, ← ofWord_keyword]
    exact scans_ofWord (isWord_keyword k) (String.ofList_toList)
  rcases h with h | h
  · unfold BinaryOp.ofText? at h
    split at h
    · exact scans_char (a := '+') rfl
    · exact scans_char (a := '-') rfl
    · exact scans_char (a := '*') rfl
    · exact scans_char (a := '/') rfl
    · exact scans_char (a := '<') rfl
    · exact scans_pair (a := '<') (b := '=') rfl
    · exact scans_char (a := '>') rfl
    · exact scans_pair (a := '>') (b := '=') rfl
    · exact scans_char (a := '=') rfl
    · exact scans_pair (a := '=') (b := '=') rfl
    · exact scans_pair (a := '!') (b := '=') rfl
    · exact scans_pair (a := '/') (b := '=') rfl
    · exact hword .andKw (by decide)
    · exact hword .orKw (by decide)
    · exact hword .xorKw (by decide)
    · cases h
  · unfold UnaryOp.ofText? at h
    split at h
    · exact scans_char (a := '+') rfl
    · exact scans_char (a := '-') rfl
    · exact hword .notKw (by decide)
    · cases h

/-! ## Pieces -/

/-- Each spelling of a literal is scanned as the literal. -/
theorem Scalar.scans_spelling {value : Scalar} {cs : List Char} (h : value.Spelling cs) :
    Scans cs (.literal value) := by
  cases value with
  | none => exact scans_ofWord (by decide) h
  | bool b =>
    cases b with
    | true => exact scans_ofWord (by decide) h
    | false => exact scans_ofWord (by decide) h
  | int n =>
    obtain ⟨hdigits, rfl⟩ := h
    exact scans_int hdigits
  | real x =>
    obtain ⟨whole, fraction, hwhole, hfraction, rfl, rfl⟩ := h
    exact scans_real hwhole hfraction
  | str s =>
    obtain ⟨quote, written, hquote, hescapes, rfl⟩ := h
    have hscans := scans_string hquote hescapes
    rwa [String.ofList_toList] at hscans

theorem scans_newline : Scans ['\n'] .newline :=
  fun offset pos _ _ => Cursor.next_eq_token offset pos (by decide) (fun h => absurd h (by decide))

/-- Each spelling of a piece is scanned as a token of the piece. -/
theorem Piece.scans_spelling {piece : Piece} {cs : List Char} (h : piece.Spelling cs) :
    ∃ lexeme, Scans cs lexeme ∧ lexeme ≠ .eof ∧
      ∀ pos, piece.IsToken ⟨lexeme, String.ofList cs, pos⟩ := by
  cases piece with
  | literal value => exact ⟨_, Scalar.scans_spelling h, nofun, fun _ => rfl⟩
  | position index =>
    obtain ⟨hdigits, hlength, rfl⟩ := h
    refine ⟨_, scans_int hdigits, nofun, fun pos => ⟨⟨_, rfl⟩, ?_, ?_⟩⟩
    · rwa [String.toList_ofList]
    · rw [String.toList_ofList]
  | name text =>
    obtain ⟨hidentifier, hcs⟩ := h
    obtain ⟨hword, hname⟩ := isWord_of_isIdentifier hidentifier
    exact ⟨.name, hname ▸ scans_ofWord hword hcs, nofun, fun _ => ⟨rfl, hcs⟩⟩
  | keyword k =>
    exact ⟨.keyword k, ofWord_keyword k ▸ scans_ofWord (isWord_keyword k) h, nofun, fun _ => rfl⟩
  | symbol s => exact ⟨_, scans_isSpelled h, nofun, fun _ => rfl⟩
  | operator text =>
    exact ⟨_, scans_operator h.1 h.2, ofOperator_ne_eof text, fun _ => ⟨rfl, h.2⟩⟩
  | indicator text =>
    obtain ⟨hidentifier | ⟨k, rfl⟩, hcs⟩ := h
    · obtain ⟨hword, hname⟩ := isWord_of_isIdentifier hidentifier
      exact ⟨.name, hname ▸ scans_ofWord hword hcs, nofun, fun _ => ⟨rfl, hcs⟩⟩
    · refine ⟨_, scans_ofWord (isWord_kind k) hcs, ?_, fun pos => ⟨?_, hcs⟩⟩
      · cases k <;> decide
      · cases k <;> rfl
  | separator =>
    rcases h with rfl | rfl
    · exact ⟨_, scans_newline, nofun, fun _ => rfl⟩
    · exact ⟨_, scans_char rfl, nofun, fun _ => rfl⟩
  | bodyArrow =>
    rcases h with rfl | rfl
    · exact ⟨_, scans_pair rfl, nofun, fun _ => Or.inl rfl⟩
    · exact ⟨_, scans_pair rfl, nofun, fun _ => Or.inr rfl⟩

/-! ## Texts -/

/-- Lists with one element between them: each list but the first has the element before it. -/
theorem intercalate_cons_eq {α : Type} (a : α) (l : List α) (ls : List (List α)) :
    [a].intercalate (l :: ls) = l ++ ls.flatMap (a :: ·) := by
  induction ls generalizing l with
  | nil => simp
  | cons next rest ih =>
    rw [List.intercalate_cons_cons, ih, List.append_assoc]
    rfl

theorem length_le_flatMap_cons {α : Type} (a : α) (ls : List (List α)) :
    ls.length ≤ (ls.flatMap (a :: ·)).length := by
  induction ls with
  | nil => exact Nat.zero_le _
  | cons l rest ih =>
    rw [List.flatMap_cons, List.length_append, List.length_cons, List.length_cons]
    omega

/-- Spellings with one blank between each two are laid out. -/
theorem laidOut_intercalate (spellings : List (List Char)) :
    LaidOut spellings ([' '].intercalate spellings) := by
  induction spellings with
  | nil => exact .nil
  | cons cs rest ih =>
    cases rest with
    | nil =>
      have hlast : LaidOut [cs] (cs ++ ([] ++ [])) := .cons ⟨.nil _, by simp, by simp⟩ .nil
      simpa using hlast
    | cons next rest =>
      rw [List.intercalate_cons_cons, List.append_assoc]
      exact .cons (.of_blank rfl (.nil _)) ih

/-- The tokens of a printed program are its pieces. -/
theorem Feed.ofText_prints {p : Program} {source : String} (h : p.Prints source) :
    ∃ ts eof, ofText source = ⟨ts, .ok eof⟩ ∧
      List.Forall₂ (fun piece t => piece.IsToken t) p.pieces ts ∧ eof.lexeme = .eof := by
  obtain ⟨spellings, hall, htext⟩ := h
  obtain ⟨ts, pos, hscan, hts⟩ :=
    ofText_laidOut (P := fun piece t => Piece.IsToken t piece)
      (hall.imp fun _ _ => Piece.scans_spelling) (laidOut_intercalate spellings) (.nil _) htext
  exact ⟨ts, _, hscan, hts, rfl⟩

end Dee
