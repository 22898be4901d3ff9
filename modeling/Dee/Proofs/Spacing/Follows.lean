import Dee.Proofs.Printing.Reads
import Dee.Proofs.Spacing.Resembles

/-!
# Reading side by side

Two parsers read two lists of tokens that resemble each other. `D.Follows n pre x y view` says that
the second parser follows the first: where the first succeeds so does the second, with a result that
looks the same, and what the two leave resembles each other again. The second parser repeats itself
a bounded number of times only, so it is asked to follow on fewer than `n` tokens.

Only the second parser's success is asserted. Since resembling is symmetric, following is all that
is needed in both directions.
-/

namespace Dee.Grammar

/-- Two texts that are read side by side. -/
structure SideBySide where
  view : View
  left : Setting
  right : Setting
  left_isEof : left.eof.isEof = true
  right_isEof : right.eof.isEof = true

namespace SideBySide

variable (D : SideBySide) {α β γ δ : Type}

/-- Where `x` succeeds `y` does, with a result that looks the same, and they leave tokens that
resemble each other. -/
def Follows (n : Nat) (pre : Token → Token → Prop) (x y : Parser α) (view : α → γ) : Prop :=
  ∀ ts ts' a s, Resembles D.view ts ts' →
    pre (D.left.stream ts).current (D.right.stream ts').current →
    ts'.length < n → x (D.left.stream ts) = .ok (a, s) →
    ∃ k b k', s = D.left.stream k ∧ y (D.right.stream ts') = .ok (b, D.right.stream k') ∧
      view a = view b ∧ Resembles D.view k k' ∧ k'.length ≤ ts'.length

/-- Nothing is asked of the two current tokens. -/
def anyTokens : Token → Token → Prop := fun _ _ => True

/-- The two current tokens are these. -/
def At (t t' : Token) : Token → Token → Prop := fun u u' => u = t ∧ u' = t'

variable {D} {n m : Nat} {pre : Token → Token → Prop} {x y : Parser α} {view : α → γ}
    {view' : β → δ}

/-! ## Putting parsers together -/

theorem Follows.of_any (h : D.Follows n anyTokens x y view) : D.Follows n pre x y view := by
  intro ts ts' a s hts _ hn hx
  exact h ts ts' a s hts trivial hn hx

/-- On fewer tokens still. -/
theorem Follows.mono (h : D.Follows n pre x y view) (hm : m ≤ n) : D.Follows m pre x y view := by
  intro ts ts' a s hts hpre hn hx
  exact h ts ts' a s hts hpre (by omega) hx

theorem follows_pure {a b : α} (h : view a = view b) : D.Follows n pre (pure a) (pure b) view := by
  intro ts ts' c s hts _ _ hx
  obtain ⟨rfl, rfl⟩ := pure_eq_ok.mp hx
  exact ⟨ts, b, ts', rfl, rfl, h, hts, Nat.le_refl _⟩

theorem follows_of_fails (h : ∀ s r, x s ≠ .ok r) : D.Follows n pre x y view := by
  intro ts ts' a s _ _ _ hx
  exact absurd hx (h _ _)

theorem follows_throw {f : Failure} : D.Follows n pre (throw f) y view :=
  follows_of_fails fun _ _ => by nofun

theorem follows_failAt {t : Token} {cause : ParseError} : D.Follows n pre (failAt t cause) y view :=
  follows_of_fails fun _ _ => failAt_ne_ok

theorem Follows.bind {f g : α → Parser β} (hx : D.Follows n pre x y view)
    (hf : ∀ a b, view a = view b → D.Follows n anyTokens (f a) (g b) view') :
    D.Follows n pre (x >>= f) (y >>= g) view' := by
  intro ts ts' c s hts hpre hn hxf
  obtain ⟨a, s₁, hxa, hfa⟩ := bind_eq_ok.mp hxf
  obtain ⟨k, b, k', rfl, hyb, hview, hk, hlength⟩ := hx ts ts' a s₁ hts hpre hn hxa
  obtain ⟨l, d, l', rfl, hgd, hview', hl, hlength'⟩ :=
    hf a b hview k k' c s hk trivial (by omega) hfa
  exact ⟨l, d, l', rfl, bind_eq_ok.mpr ⟨b, _, hyb, hgd⟩, hview', hl, by omega⟩

/-! ## Current tokens -/

theorem isMark_eof_left : D.left.eof.isMark = false := by
  simp [Token.isMark, D.left_isEof]

theorem isMark_eof_right : D.right.eof.isMark = false := by
  simp [Token.isMark, D.right_isEof]

/-- At a pause the current token is a separator or the end. -/
theorem isMark_current {S : Setting} (hS : S.eof.isMark = false) {ts : List Token}
    (h : ∀ t ∈ ts.head?, t.isSeparator = true) : (S.stream ts).current.isMark = false := by
  cases ts with
  | nil => exact hS
  | cons t ts => simp [Setting.stream, Token.isMark, h t rfl]

/-- The current tokens are marks that look the same, or no marks. -/
theorem current_cases {ts ts' : List Token} (h : Resembles D.view ts ts') :
    ((D.left.stream ts).current.isMark = true ∧
        D.view.token (D.left.stream ts).current = D.view.token (D.right.stream ts').current) ∨
      ((D.left.stream ts).current.isMark = false ∧
        (D.right.stream ts').current.isMark = false) := by
  cases h.head with
  | pause h h' =>
    exact Or.inr ⟨isMark_current isMark_eof_left h, isMark_current isMark_eof_right h'⟩
  | mark ht hsame _ => exact Or.inl ⟨ht, hsame⟩

/-- Looking at the current tokens: at marks that look the same, or at none. -/
theorem follows_current_bind {f g : Token → Parser α}
    (hmark : ∀ t t', t.isMark = true → D.view.token t = D.view.token t' →
      D.Follows n (At t t') (f t) (g t') view)
    (hpause : ∀ t t', t.isMark = false → t'.isMark = false →
      D.Follows n (At t t') (f t) (g t') view) :
    D.Follows n pre (current >>= f) (current >>= g) view := by
  intro ts ts' a s hts _ hn hx
  rw [bind_of_ok (current_eq_ok.mpr ⟨rfl, rfl⟩)] at hx ⊢
  rcases current_cases hts with ⟨ht, hsame⟩ | ⟨ht, ht'⟩
  · exact hmark _ _ ht hsame ts ts' a s hts ⟨rfl, rfl⟩ hn hx
  · exact hpause _ _ ht ht' ts ts' a s hts ⟨rfl, rfl⟩ hn hx

/-- Looking at current tokens that are known. -/
theorem follows_current_at {t t' : Token} {f g : Token → Parser α}
    (h : D.Follows n (At t t') (f t) (g t') view) :
    D.Follows n (At t t') (current >>= f) (current >>= g) view := by
  intro ts ts' a s hts hpre hn hx
  rw [bind_of_ok (current_eq_ok.mpr ⟨hpre.1, rfl⟩)] at hx
  rw [bind_of_ok (current_eq_ok.mpr ⟨hpre.2, rfl⟩)]
  exact h ts ts' a s hts hpre hn hx

/-- Looking at the current tokens where nothing but a mark will do. -/
theorem follows_mark_bind {f g : Token → Parser α}
    (hmark : ∀ t t', t.isMark = true → D.view.token t = D.view.token t' →
      D.Follows n (At t t') (f t) (g t') view)
    (hfails : ∀ t, t.isMark = false → ∀ s r, f t s ≠ .ok r) :
    D.Follows n pre (current >>= f) (current >>= g) view :=
  follows_current_bind hmark fun t _ ht _ => follows_of_fails (hfails t ht)

theorem advance_of_isMark {S : Setting} {t : Token} (ht : t.isMark = true) (k : List Token) :
    advance (S.stream (t :: k)) = .ok (t, S.stream k) := by
  have heof : (S.stream (t :: k)).current.isEof = false := (Token.isMark_iff.mp ht).2
  unfold advance
  rw [heof]
  cases k <;> rfl

/-- Taking two marks leaves fewer tokens. -/
theorem follows_advance_bind {t t' : Token} (ht : t.isMark = true) {f g : Token → Parser α}
    (h : D.Follows m anyTokens (f t) (g t') view) (hm : n ≤ m + 1) :
    D.Follows n (At t t') (advance >>= f) (advance >>= g) view := by
  intro ts ts' a s hts hpre hn hx
  obtain ⟨rfl, rfl⟩ := hpre
  cases hts.head with
  | pause hhead _ => cases (isMark_current isMark_eof_left hhead).symm.trans ht
  | @mark t t' k k' ht hsame more =>
    have ht : t.isMark = true := ht
    rw [bind_of_ok (advance_of_isMark ht k)] at hx
    rw [bind_of_ok (advance_of_isMark ((Token.isMark_eq hsame).trans ht) k')]
    rw [List.length_cons] at hn
    obtain ⟨l, b, l', rfl, hg, hview, hl, hlength⟩ := h k k' a s more trivial (by omega) hx
    exact ⟨l, b, l', rfl, hg, hview, hl, hlength.trans (Nat.le_succ _)⟩

/-- Taking two marks and going on. -/
theorem follows_take {t t' : Token} (ht : t.isMark = true) {f g : Token → Parser α}
    (h : D.Follows n anyTokens (f t) (g t') view) :
    D.Follows n (At t t') (advance >>= f) (advance >>= g) view :=
  follows_advance_bind ht h (Nat.le_succ n)

theorem follows_advance {t t' : Token} (ht : t.isMark = true)
    (hsame : D.view.token t = D.view.token t') :
    D.Follows n (At t t') advance advance D.view.token := by
  have h : D.Follows n (At t t') (advance >>= pure) (advance >>= pure) D.view.token :=
    follows_take ht (follows_pure hsame)
  rwa [bind_pure] at h

/-! ## Tests of tokens -/

/-- A test that only marks pass and that looks at the lexeme alone. -/
structure MarkTest (test : Token → Bool) : Prop where
  isMark : ∀ t, test t = true → t.isMark = true
  same : ∀ t t' : Token, t'.lexeme = t.lexeme → test t' = test t

theorem markTest_lexeme {l : Lexeme} (h : l ≠ .newline ∧ l ≠ .symbol .semicolon ∧ l ≠ .eof) :
    MarkTest (·.lexeme = l) where
  isMark t ht := Token.isMark_iff_lexeme.mpr (of_decide_eq_true ht ▸ h)
  same t t' h := by simp only [h]

theorem markTest_isSymbol {k : Symbol} (hk : k ≠ .semicolon) : MarkTest (·.isSymbol k) :=
  markTest_lexeme (by simp [hk])

theorem markTest_isKeyword (k : Keyword) : MarkTest (·.isKeyword k) :=
  markTest_lexeme (by simp)

theorem markTest_isName : MarkTest (·.lexeme = .name) :=
  markTest_lexeme (by simp)

theorem markTest_isTypeWord : MarkTest Token.isTypeWord where
  isMark t ht := by
    unfold Token.isTypeWord at ht
    split at ht
    next hlex => exact Token.isMark_iff_lexeme.mpr (by simp [hlex])
    next => cases ht
  same t t' h := by rw [Token.isTypeWord, Token.isTypeWord, h]

theorem MarkTest.or {test test' : Token → Bool} (h : MarkTest test) (h' : MarkTest test') :
    MarkTest fun t => test t || test' t where
  isMark t ht := by
    rcases Bool.or_eq_true _ _ ▸ ht with ht | ht
    · exact h.isMark t ht
    · exact h'.isMark t ht
  same t t' hlex := by rw [h.same t t' hlex, h'.same t t' hlex]

section Tests

variable {test : Token → Bool} (htest : MarkTest test)
include htest

theorem MarkTest.eq_false {t : Token} (ht : t.isMark = false) : test t = false := by
  cases h : test t with
  | false => rfl
  | true => cases ht.symm.trans (htest.isMark t h)

/-- Taking a mark that passes a test, or none. A mark that is taken leaves fewer tokens. -/
theorem follows_accept_bind {f g : Option Token → Parser α}
    (hnone : D.Follows n anyTokens (f none) (g none) view)
    (hsome : ∀ t t', test t = true → D.view.token t = D.view.token t' →
      D.Follows m anyTokens (f (some t)) (g (some t')) view) (hm : n ≤ m + 1) :
    D.Follows n pre (accept test >>= f) (accept test >>= g) view := by
  unfold accept
  rw [bind_assoc, bind_assoc]
  refine follows_current_bind (fun t t' _ hsame => ?_) fun t t' ht ht' => ?_
  · rw [htest.same t t' (View.lexeme_eq hsame)]
    cases h : test t with
    | true =>
      rw [if_pos rfl, bind_assoc, bind_assoc]
      exact follows_advance_bind (htest.isMark t h) (hsome t t' h hsame) hm
    | false => exact hnone.of_any
  · rw [htest.eq_false ht, htest.eq_false ht']
    exact hnone.of_any

/-- Taking a mark that passes a test, or none, and going on. -/
theorem follows_accept {f g : Option Token → Parser α}
    (hnone : D.Follows n anyTokens (f none) (g none) view)
    (hsome : ∀ t t', test t = true → D.view.token t = D.view.token t' →
      D.Follows n anyTokens (f (some t)) (g (some t')) view) :
    D.Follows n pre (accept test >>= f) (accept test >>= g) view :=
  follows_accept_bind htest hnone hsome (Nat.le_succ n)

theorem follows_expect (wanted : Wanted) :
    D.Follows n pre (expect test wanted) (expect test wanted) D.view.token := by
  unfold expect
  refine follows_mark_bind (fun t t' ht hsame => ?_) fun t ht s r => ?_
  · rw [htest.same t t' (View.lexeme_eq hsame)]
    cases h : test t with
    | true => exact follows_advance ht hsame
    | false => exact follows_failAt
  · rw [htest.eq_false ht]
    exact failAt_ne_ok

end Tests

/-- A type word is refused, any other token is left to what follows. -/
theorem follows_unlessTypeWord (hxy : D.Follows n anyTokens x y view) (cause : Token → ParseError) :
    D.Follows n pre (current >>= fun t => if t.isTypeWord then failAt t (cause t) else x)
      (current >>= fun t => if t.isTypeWord then failAt t (cause t) else y) view := by
  refine follows_current_bind (fun t t' _ hsame => ?_) fun t t' ht ht' => ?_
  · rw [markTest_isTypeWord.same t t' (View.lexeme_eq hsame)]
    split
    · exact follows_failAt
    · exact hxy.of_any
  · rw [markTest_isTypeWord.eq_false ht, markTest_isTypeWord.eq_false ht']
    exact hxy.of_any

theorem follows_expectName : D.Follows n pre expectName expectName D.view.token :=
  follows_unlessTypeWord (follows_expect markTest_isName _) _

/-! ## Skipping -/

/-- Skipping drops tokens from the list, since it stops at the end. -/
theorem skipWhile_stream {S : Setting} {test : Token → Bool} (heof : test S.eof = false)
    (ts : List Token) :
    skipWhile test (S.stream ts) = .ok ((), S.stream (ts.dropWhile test)) := by
  unfold skipWhile
  cases ts with
  | nil => simp [Setting.stream, Stream.skipFrom, heof, Except.map]
  | cons t rest =>
    induction rest generalizing t with
    | nil =>
      simp only [Setting.stream, Stream.skipFrom, List.dropWhile_cons]
      split <;> rfl
    | cons u rest ih =>
      simp only [Setting.stream, Stream.skipFrom] at ih ⊢
      rw [List.dropWhile_cons]
      split
      · exact ih u
      · rfl

theorem follows_skipNewlines : D.Follows n pre skipNewlines skipNewlines id := by
  intro ts ts' a s hts _ _ hx
  have heof : ∀ {t : Token}, t.isEof = true → t.isNewline = false := fun ht =>
    Token.isNewline_of_isSeparator (Token.isSeparator_of_isEof ht)
  unfold skipNewlines at hx ⊢
  rw [skipWhile_stream (heof D.left_isEof)] at hx
  rw [skipWhile_stream (heof D.right_isEof)]
  cases hx
  exact ⟨_, (), _, rfl, rfl, rfl, hts.dropNewlines, List.length_dropWhile_le _ _⟩

/-! ## Lists

The second parser may take fewer rounds than the first, as long as they exceed the number of its
tokens. -/

theorem follows_zero : D.Follows 0 pre x y view := by
  intro ts ts' a s _ _ hn
  cases hn

section Lists

variable {item item' : Parser α} (hitem : D.Follows n anyTokens item item' view)
include hitem

theorem follows_moreItems {between : Parser Unit}
    (hbetween : D.Follows n anyTokens between between id)
    (rounds : Nat) {rounds' : Nat} (hrounds : rounds' ≤ n) {seen seen' : List α}
    (hseen : seen.map view = seen'.map view) :
    D.Follows rounds' anyTokens (moreItems between item rounds seen)
      (moreItems between item' rounds' seen')
      (List.map view) := by
  induction rounds generalizing rounds' seen seen' with
  | zero => exact follows_throw
  | succ rounds ih =>
    cases rounds' with
    | zero => exact follows_zero
    | succ rounds' =>
      have hless : rounds' ≤ n := Nat.le_of_succ_le hrounds
      unfold moreItems
      refine follows_accept_bind (m := rounds') (markTest_isSymbol (by decide)) ?_ ?_
        (Nat.le_refl _)
      · exact follows_pure (by rw [List.map_reverse, List.map_reverse, hseen])
      · intro t t' _ _
        refine (hbetween.mono hless).bind fun _ _ _ => (hitem.mono hless).bind fun a b hab => ?_
        exact ih hless (by rw [List.map_cons, List.map_cons, hab, hseen])

theorem follows_items {between : Parser Unit} (hbetween : D.Follows n anyTokens between between id)
    (rounds : Nat) : D.Follows n anyTokens (items rounds between item) (items n between item')
      (List.map view) :=
  hitem.bind fun a b hab =>
    follows_moreItems hitem hbetween rounds (Nat.le_refl n)
      (by rw [List.map_singleton, hab, List.map_singleton])

variable {closing : Symbol} (hclosing : closing ≠ .semicolon) (wanted : Wanted)
include hclosing

theorem follows_bracketedItems (rounds : Nat) {rounds' : Nat} (hrounds : rounds' ≤ n)
    {seen seen' : List α}
    (hseen : seen.map view = seen'.map view) :
    D.Follows rounds' anyTokens (bracketedItems closing wanted item rounds seen)
      (bracketedItems closing wanted item' rounds' seen') (List.map view) := by
  induction rounds generalizing rounds' seen seen' with
  | zero => exact follows_throw
  | succ rounds ih =>
    cases rounds' with
    | zero => exact follows_zero
    | succ rounds' =>
      unfold bracketedItems
      refine (hitem.mono hrounds).bind fun a b hab => ?_
      have hmore : (a :: seen).map view = (b :: seen').map view := by
        rw [List.map_cons, List.map_cons, hab, hseen]
      refine follows_skipNewlines.bind fun _ _ _ => ?_
      refine follows_accept_bind (m := rounds') (markTest_isSymbol (by decide)) ?_ ?_
        (Nat.le_refl _)
      · refine (follows_expect (markTest_isSymbol hclosing) _).bind fun _ _ _ => ?_
        exact follows_pure (by rw [List.map_reverse, List.map_reverse, hmore])
      · intro t t' _ _
        refine follows_skipNewlines.bind fun _ _ _ => ?_
        exact ih (Nat.le_of_succ_le hrounds) hmore

theorem follows_bracketed (rounds : Nat) :
    D.Follows n anyTokens (bracketed rounds closing wanted item) (bracketed n closing wanted item')
      (List.map view) := by
  unfold bracketed
  refine follows_skipNewlines.bind fun _ _ _ => ?_
  refine follows_accept (markTest_isSymbol hclosing) ?_ ?_
  · exact follows_bracketedItems hitem hclosing wanted rounds (Nat.le_refl n) rfl
  · exact fun t t' _ _ => follows_pure rfl

end Lists

end SideBySide

end Dee.Grammar
