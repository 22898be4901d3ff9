import Dee.Proofs.Program.WellFormed

/-!
# What scanned tokens are like

The text of a scanned token fits its meaning: a name is an identifier, a keyword or a symbol has one
of its spellings, a number is made of digits. A scan moves its cursor by taking characters, so every
token lies at a place, with a line and a column counted from one.
-/

namespace Dee

/-! ## Genuine tokens -/

/-- Whether a text is a spelling of a symbol. -/
def Symbol.IsSpelled (s : Symbol) (text : String) : Prop :=
  (∃ a b, Symbol.ofPair? a b = some s ∧ text = String.ofList [a, b]) ∨
    ∃ a, Symbol.ofChar? a = some s ∧ text = String.ofList [a]

/-- Whether the text of a literal has the form that its value asks for. -/
def Scalar.IsSpelled (text : String) : Scalar → Prop
  | .none => text = Kind.none.name
  | .int n => 0 ≤ n ∧ text.toList.all Decimal.isDigit = true
  | .real _ => ((text.toList.dropWhile Decimal.isDigit).drop 1).all Decimal.isDigit = true
  | .bool _ => True
  | .str _ => True

/-- The text of a token fits its meaning. -/
def Token.Genuine (t : Token) : Prop :=
  match t.lexeme with
  | .literal value => value.IsSpelled t.text
  | .name => isIdentifier t.text = true
  | .keyword k => t.text = k.text
  | .symbol s => s.IsSpelled t.text
  | .newline => True
  | .eof => True

/-! ## Scanning one token -/

theorem continuesName_of_startsName {c : Char} (h : startsName c = true) :
    continuesName c = true := by
  unfold startsName at h
  unfold continuesName
  rw [Bool.or_eq_true] at h ⊢
  rw [Bool.or_eq_true]
  exact h.imp Or.inl id

/-- The meaning of a word fits the word. -/
theorem genuine_ofWord {c : Char} {rest : List Char} {pos : Pos} (hc : startsName c = true)
    (hrest : rest.all continuesName = true) :
    (⟨.ofWord (String.ofList (c :: rest)), String.ofList (c :: rest), pos⟩ : Token).Genuine := by
  have hlist : (String.ofList (c :: rest)).toList = c :: rest := String.toList_ofList
  unfold Token.Genuine
  generalize hlex : Lexeme.ofWord (String.ofList (c :: rest)) = lexeme
  have hword := hlex
  unfold Lexeme.ofWord at hlex
  split at hlex
  · subst hlex
    trivial
  · split at hlex
    · subst hlex
      trivial
    · split at hlex
      next hnone =>
        subst hlex
        exact hnone
      · split at hlex
        next k hk =>
          subst hlex
          have hfound := List.find?_some hk
          rw [decide_eq_true_iff] at hfound
          exact hfound.symm
        next =>
          subst hlex
          show isIdentifier _ = true
          unfold isIdentifier
          rw [hlist, hword]
          simp [hc, hrest]

theorem isSpelled_of_symbol? {s taken rest : List Char} {symbol : Symbol}
    (h : Cursor.symbol? s = some (symbol, taken, rest)) :
    symbol.IsSpelled (String.ofList taken) := by
  unfold Cursor.symbol? at h
  split at h
  next a b _ =>
    split at h
    next symbol' hpair =>
      cases h
      exact Or.inl ⟨a, b, hpair, rfl⟩
    next =>
      obtain ⟨symbol', hchar, he⟩ := Option.map_eq_some_iff.mp h
      cases he
      exact Or.inr ⟨a, hchar, rfl⟩
  next a =>
    obtain ⟨symbol', hchar, he⟩ := Option.map_eq_some_iff.mp h
    cases he
    exact Or.inr ⟨a, hchar, rfl⟩
  next => cases h

/-- Both parts of a number are made of digits. -/
theorem Numeric.all_isDigit_read (s : List Char) :
    (Numeric.read s).whole.all Decimal.isDigit = true ∧
      (Numeric.read s).fraction.all Decimal.isDigit = true := by
  have htake : ∀ l : List Char, (l.takeWhile Decimal.isDigit).all Decimal.isDigit = true :=
    fun l => List.all_takeWhile
  unfold Numeric.read
  split
  · split
    · exact ⟨htake s, htake _⟩
    · exact ⟨htake s, rfl⟩
  · exact ⟨htake s, rfl⟩

theorem isSpelled_numeric (s : List Char) :
    (Numeric.read s).value.IsSpelled (String.ofList (Numeric.read s).taken) := by
  obtain ⟨hwhole, hfraction⟩ := Numeric.all_isDigit_read s
  unfold Numeric.value Numeric.taken
  by_cases hf : (Numeric.read s).fraction.isEmpty = true
  · rw [if_pos hf, if_pos hf]
    refine ⟨Int.natCast_nonneg _, ?_⟩
    rw [String.toList_ofList]
    exact hwhole
  · rw [if_neg hf, if_neg hf]
    show ((_ : List Char).drop 1).all Decimal.isDigit = true
    rw [String.toList_ofList, List.dropWhile_append_of_pos (by simpa using hwhole),
      List.dropWhile_cons_of_neg (by decide)]
    exact hfraction

theorem Cursor.genuine_of_token {c c' : Cursor} {t : Token} (h : c.token = (.ok t, c')) :
    t.Genuine := by
  unfold Cursor.token at h
  split at h
  · cases h
    trivial
  next ch rest _ =>
    split at h
    · cases h
      trivial
    · split at h
      · cases h
        exact isSpelled_numeric (ch :: rest)
      · split at h
        · split at h
          · cases h
            trivial
          · cases h
        · split at h
          next hname =>
            cases h
            show Token.Genuine ⟨_, String.ofList ((ch :: rest).takeWhile continuesName), _⟩
            rw [List.takeWhile_cons_of_pos (continuesName_of_startsName hname)]
            exact genuine_ofWord hname List.all_takeWhile
          · split at h
            next hsymbol =>
              cases h
              exact isSpelled_of_symbol? hsymbol
            · cases h

/-! ## Moves of a cursor -/

namespace Cursor

/-- A cursor moves by taking characters that are ahead of it. -/
def Moves (c c' : Cursor) : Prop :=
  ∃ taken, c.rest = taken ++ c'.rest ∧ c' = c.take taken c'.rest

theorem Moves.refl (c : Cursor) : c.Moves c := ⟨[], rfl, rfl⟩

theorem Moves.trans {c c₁ c₂ : Cursor} (h : c.Moves c₁) (h' : c₁.Moves c₂) : c.Moves c₂ := by
  obtain ⟨taken, hrest, hc₁⟩ := h
  obtain ⟨more, hrest', hc₂⟩ := h'
  refine ⟨taken ++ more, by rw [hrest, hrest', List.append_assoc], ?_⟩
  rw [hc₂, hc₁]
  simp [take, Nat.add_assoc]

theorem moves_take {c : Cursor} (taken rest : List Char) (h : c.rest = taken ++ rest) :
    c.Moves (c.take taken rest) :=
  ⟨taken, h, rfl⟩

theorem moves_skipGapFrom (offset : Nat) (pos : Pos) (mode : GapMode) (cs : List Char) :
    (⟨offset, pos, cs⟩ : Cursor).Moves (skipGapFrom offset pos mode cs).2 := by
  fun_induction skipGapFrom offset pos mode cs with
  | case1 offset pos rest ih => exact (moves_take ['/', '/'] rest rfl).trans ih
  | case2 offset pos rest ih => exact (moves_take ['/', '*'] rest rfl).trans ih
  | case3 offset pos ch rest _ _ _ ih => exact (moves_take [ch] rest rfl).trans ih
  | case4 | case5 | case6 | case8 | case11 => exact .refl _
  | case7 offset pos ch rest _ ih => exact (moves_take [ch] rest rfl).trans ih
  | case9 offset pos opened rest ih => exact (moves_take ['*', '/'] rest rfl).trans ih
  | case10 offset pos opened ch rest _ ih => exact (moves_take [ch] rest rfl).trans ih

theorem moves_token (c : Cursor) : c.Moves c.token.2 := by
  unfold token
  split
  · exact .refl c
  next ch rest hrest =>
    split
    · exact moves_take _ _ hrest
    · split
      · exact moves_take _ _ (hrest.trans (Numeric.taken_append_rest _).symm)
      · split
        · split
          next q hq =>
            refine moves_take _ _ (hrest.trans ?_)
            rw [List.cons_append, Quoted.taken_append_rest hq]
          next => exact moves_take _ _ (by simp [hrest])
        · split
          · exact moves_take _ _ (hrest.trans List.takeWhile_append_dropWhile.symm)
          · split
            next hsymbol => exact moves_take _ _ (hrest.trans (symbol?_append hsymbol).symm)
            next => exact .refl c

theorem moves_next (c : Cursor) : c.Moves c.next.2 := by
  have hgap : c.Moves c.skipGap.2 := moves_skipGapFrom c.offset c.pos .between c.rest
  unfold next
  split
  next e c₁ hskip => rwa [hskip] at hgap
  next c₁ hskip =>
    rw [hskip] at hgap
    exact hgap.trans (moves_token c₁)

theorem Moves.of_next {c c' : Cursor} {answer : Except (Located LexError) Token}
    (h : c.next = (answer, c')) : c.Moves c' := by
  have hmoves := moves_next c
  rwa [h] at hmoves

end Cursor

/-! ## Positions -/

/-- Whether a position lies in a text: its line and its column count from one. -/
def Pos.isPlace (p : Pos) : Bool := 1 ≤ p.line && 1 ≤ p.column

theorem Pos.isPlace_next {p : Pos} (h : p.isPlace = true) (c : Char) :
    (p.next c).isPlace = true := by
  unfold Pos.isPlace at h ⊢
  rw [Bool.and_eq_true, decide_eq_true_iff, decide_eq_true_iff] at h ⊢
  unfold Pos.next
  split
  · exact ⟨by simp only; omega, by simp⟩
  · exact ⟨h.1, by simp only; omega⟩

theorem Pos.isPlace_advance {p : Pos} (h : p.isPlace = true) (cs : List Char) :
    (p.advance cs).isPlace = true := by
  induction cs generalizing p with
  | nil => exact h
  | cons c cs ih => exact ih (Pos.isPlace_next h c)

namespace Cursor

theorem Moves.isPlace {c c' : Cursor} (h : c.Moves c') (hc : c.pos.isPlace = true) :
    c'.pos.isPlace = true := by
  obtain ⟨taken, -, hc'⟩ := h
  rw [hc']
  exact Pos.isPlace_advance hc taken

theorem pos_of_token {c c' : Cursor} {t : Token} (h : c.token = (.ok t, c')) : t.pos = c.pos := by
  unfold token at h
  split at h
  · cases h
    rfl
  · split at h
    · cases h
      rfl
    · split at h
      · cases h
        rfl
      · split at h
        · split at h
          · cases h
            rfl
          · cases h
        · split at h
          · cases h
            rfl
          · split at h
            · cases h
              rfl
            · cases h

/-- A token is genuine and lies at a place, and so does what follows it. -/
theorem genuine_of_next {c c' : Cursor} {t : Token} (hc : c.pos.isPlace = true)
    (h : c.next = (.ok t, c')) :
    (t.Genuine ∧ t.pos.isPlace = true) ∧ c'.pos.isPlace = true := by
  have hc' := (Moves.of_next h).isPlace hc
  have hgap : c.Moves c.skipGap.2 := moves_skipGapFrom c.offset c.pos .between c.rest
  unfold next at h
  split at h
  · cases h
  next c₁ hskip =>
    rw [hskip] at hgap
    refine ⟨⟨genuine_of_token h, ?_⟩, hc'⟩
    rw [pos_of_token h]
    exact hgap.isPlace hc

end Cursor

/-! ## Whole texts -/

namespace Feed

/-- What every step of a scan gives holds of all tokens of the scan. -/
theorem scan_all (inv : Cursor → Prop) {P : Token → Prop}
    (hnext : ∀ c c' t, inv c → c.next = (.ok t, c') → P t ∧ inv c')
    (hend : ∀ c, inv c → P ⟨.eof, "", c.pos⟩) (steps : Nat) {c : Cursor} {seen : List Token}
    (hc : inv c) (hseen : ∀ t ∈ seen, P t) :
    (∀ t ∈ (scan steps c seen).tokens, P t) ∧ ∀ t, (scan steps c seen).ending = .ok t → P t := by
  induction steps generalizing c seen with
  | zero =>
    refine ⟨fun t ht => hseen t (List.mem_reverse.mp ht), fun t ht => ?_⟩
    cases ht
    exact hend c hc
  | succ steps ih =>
    rcases hx : c.next with ⟨result, c'⟩
    unfold scan
    rw [hx]
    cases result with
    | error e => exact ⟨fun t ht => hseen t (List.mem_reverse.mp ht), fun t ht => by cases ht⟩
    | ok t =>
      obtain ⟨ht, hc'⟩ := hnext c c' t hc hx
      dsimp only
      split
      · refine ⟨fun u hu => hseen u (List.mem_reverse.mp hu), fun u hu => ?_⟩
        cases hu
        exact ht
      · refine ih hc' fun u hu => ?_
        rcases List.mem_cons.mp hu with rfl | hu
        · exact ht
        · exact hseen u hu

/-- The tokens of a text are genuine and lie at places. -/
theorem genuine_ofText (source : String) :
    (∀ t ∈ (ofText source).tokens, t.Genuine ∧ t.pos.isPlace = true) ∧
      ∀ t, (ofText source).ending = .ok t → t.Genuine ∧ t.pos.isPlace = true := by
  refine scan_all (fun c => c.pos.isPlace = true) ?_ ?_ _ rfl (by simp)
  · intro c c' t hc h
    exact Cursor.genuine_of_next hc h
  · intro c hc
    exact ⟨trivial, hc⟩

end Feed

end Dee
