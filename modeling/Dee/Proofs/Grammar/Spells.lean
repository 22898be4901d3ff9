import Dee.Proofs.Grammar.Gives
import Dee.Proofs.Token.Inside
import Dee.Proofs.Token.Mentions

/-!
# What parsers take is what they build

`Spells f pre c before x c' after` says of the parser `x`, on the streams of the feed `f`: what was
mentioned `before` and what the stream mentions is, behind `x`, what its result mentions and what
the stream still mentions. So `x` takes tokens that mention what its result mentions, in their
order. The contexts `c` and `c'` are those of the current token before and behind.

The lemmas follow the ways in which parsers are put together.
-/

namespace Dee

/-- The tokens of a feed fit their meaning, and the end of the text stands behind them only. -/
structure Feed.Clean (f : Feed) : Prop where
  tokens : ∀ t ∈ f.tokens, t.isEof = false ∧ t.Genuine ∧ t.SpellsNumber
  ending : ∀ t, f.ending = .ok t → t.isEof = true

/-- The tokens of a text fit their meaning. -/
theorem Feed.clean_ofText (source : String) : (Feed.ofText source).Clean where
  tokens t ht := ⟨((Feed.inside_ofText source).tokens t ht).1,
    ((Feed.genuine_ofText source).1 t ht).1, Feed.spellsNumber_ofText source t ht⟩
  ending t ht := ((Feed.inside_ofText source).ending t ht).1

namespace Grammar

variable {α β : Type} {f : Feed}

/-! ## Streams of a feed -/

/-- A stream of a clean feed: it stands at a token of the feed or at its end. -/
structure Stream.Within (f : Feed) (s : Stream) : Prop where
  clean : f.Clean
  ending : s.ending = f.ending
  place : (s.current :: s.rest) <:+ f.tokens ∨ s.rest = [] ∧ f.ending = .ok s.current

/-- What a stream mentions, its current token in a context. -/
def Stream.mentions (c : Context) (s : Stream) : List Mention :=
  c.mentionsAll (s.current :: s.rest)

namespace Stream.Within

variable {s s' : Stream}

theorem exact (h : s.Within f) : s.current.Genuine ∧ s.current.SpellsNumber := by
  rcases h.place with hplace | ⟨-, hend⟩
  · exact (h.clean.tokens _ (hplace.subset (by simp))).2
  · have hlex : s.current.lexeme = .eof := by simpa [Token.isEof] using h.clean.ending _ hend
    rw [Token.Genuine, Token.SpellsNumber, hlex]
    exact ⟨trivial, trivial⟩

theorem tail (h : s.Within f) (ht : s.tail = .ok s') : s'.Within f := by
  obtain ⟨current, rest, ending⟩ := s
  obtain ⟨hclean, rfl, hplace⟩ := h
  cases rest with
  | cons t rest =>
    cases ht
    refine ⟨hclean, rfl, Or.inl ?_⟩
    rcases hplace with hplace | ⟨hnil, -⟩
    · exact (List.suffix_cons _ _).trans hplace
    · cases hnil
  | nil =>
    cases hending : f.ending with
    | error e =>
      simp only [hending] at ht
      cases ht
    | ok eof =>
      simp only [hending] at ht
      cases ht
      exact ⟨hclean, hending.symm, Or.inr ⟨rfl, hending⟩⟩

/-- What is mentioned behind the current token. -/
theorem mentions_tail (h : s.Within f) (ht : s.tail = .ok s') (c : Context) :
    s.mentions c = c.mentions s.current ++ s'.mentions (c.next s.current.lexeme) := by
  obtain ⟨current, rest, ending⟩ := s
  have hending := h.ending
  cases rest with
  | cons t rest =>
    cases ht
    rfl
  | nil =>
    cases ending with
    | error e => cases ht
    | ok eof =>
      cases ht
      have hlex : eof.lexeme = .eof := by
        simpa [Token.isEof] using h.clean.ending eof hending.symm
      simp only [Stream.mentions, Context.mentionsAll, Context.mentions_eof _ hlex, List.append_nil]

/-- The first stream of a feed mentions what its tokens mention. -/
theorem ofFeed (hf : f.Clean) (h : Stream.ofFeed f = .ok s) :
    s.Within f ∧ s.mentions .plain = mentionsOf f.tokens := by
  obtain ⟨tokens, ending⟩ := f
  cases tokens with
  | cons t rest =>
    cases h
    exact ⟨⟨hf, rfl, Or.inl (List.suffix_refl _)⟩, rfl⟩
  | nil =>
    cases ending with
    | error e => cases h
    | ok eof =>
      cases h
      have hlex : eof.lexeme = .eof := of_decide_eq_true (hf.ending eof rfl)
      refine ⟨⟨hf, rfl, Or.inr ⟨rfl, rfl⟩⟩, ?_⟩
      exact Context.mentionsAll_append_eof .plain [] hlex

/-- A stream that stands at the end of the text mentions nothing more, and the text has an end. -/
theorem atEnd (h : s.Within f) (hend : s.current.isEof = true) :
    f.ending = .ok s.current ∧ s.mentions .plain = [] := by
  rcases h.place with hplace | ⟨hrest, hending⟩
  · have hinside := (h.clean.tokens s.current (hplace.subset (by simp))).1
    rw [hend] at hinside
    cases hinside
  · refine ⟨hending, ?_⟩
    rw [Stream.mentions, hrest]
    exact Context.mentionsAll_append_eof .plain [] (of_decide_eq_true hend)

end Stream.Within

/-! ## Parsers -/

/-- What was mentioned before and what the stream mentions is what the result mentions and what the
stream behind it mentions. -/
def Spells (f : Feed) (pre : Token → Prop) (c : Context) (before : List Mention) (x : Parser α)
    (c' : Context) (after : α → List Mention) : Prop :=
  ∀ s a s', s.Within f → pre s.current → x s = .ok (a, s') →
    s'.Within f ∧ before ++ s.mentions c = after a ++ s'.mentions c'

variable {pre : Token → Prop} {c c₁ c' : Context} {before : List Mention} {x : Parser α}
  {after : α → List Mention} {result : β → List Mention}

theorem Spells.of_any (h : Spells f anyToken c before x c' after) :
    Spells f pre c before x c' after := by
  intro s a s' hs _ hx
  exact h s a s' hs trivial hx

theorem Spells.congr {after' : α → List Mention} (h : Spells f pre c before x c' after)
    (heq : ∀ a, after a = after' a) : Spells f pre c before x c' after' := by
  intro s a s' hs hpre hx
  obtain ⟨hs', hall⟩ := h s a s' hs hpre hx
  exact ⟨hs', by rw [hall, heq]⟩

theorem spells_pure {a : α} (h : before = after a) :
    Spells f pre c before (pure a : Parser α) c after := by
  intro s b s' hs _ hx
  obtain ⟨rfl, rfl⟩ := pure_eq_ok.mp hx
  exact ⟨hs, by rw [h]⟩

theorem spells_throw {e : Failure} : Spells f pre c before (throw e : Parser α) c' after := by
  intro s a s' _ _ hx
  cases hx

theorem spells_failAt {t : Token} {cause : ParseError} :
    Spells f pre c before (failAt t cause : Parser α) c' after := by
  intro s a s' _ _ hx
  exact absurd hx failAt_ne_ok

theorem spells_failAt_bind {t : Token} {cause : ParseError} {g : α → Parser β} :
    Spells f pre c before (failAt t cause >>= g) c' result := by
  intro s b s' _ _ hb
  obtain ⟨a, s₁, ha, -⟩ := bind_eq_ok.mp hb
  exact absurd ha failAt_ne_ok

/-- What was mentioned before stays before. -/
theorem Spells.behind (hx : Spells f pre c [] x c' after) (before : List Mention) :
    Spells f pre c before x c' fun a => before ++ after a := by
  intro s a s' hs hpre hxa
  obtain ⟨hs', hall⟩ := hx s a s' hs hpre hxa
  refine ⟨hs', ?_⟩
  rw [List.append_assoc, ← hall, List.nil_append]

theorem Spells.chain {g : α → Parser β} (hx : Spells f pre c before x c₁ after)
    (hg : ∀ a, Spells f anyToken c₁ (after a) (g a) c' result) :
    Spells f pre c before (x >>= g) c' result := by
  intro s b s' hs hpre hb
  obtain ⟨a, s₁, hxa, hgb⟩ := bind_eq_ok.mp hb
  obtain ⟨hs₁, hall⟩ := hx s a s₁ hs hpre hxa
  obtain ⟨hs', hrest⟩ := hg a s₁ b s' hs₁ trivial hgb
  exact ⟨hs', hall.trans hrest⟩

/-- A parser that starts with nothing mentioned, behind what was mentioned before. -/
theorem Spells.bind {g : α → Parser β} (hx : Spells f pre c [] x c₁ after)
    (hg : ∀ a, Spells f anyToken c₁ (before ++ after a) (g a) c' result) :
    Spells f pre c before (x >>= g) c' result :=
  (hx.behind before).chain hg

/-- Looking at the current token: what follows starts from it. -/
theorem spells_current_bind {g : Token → Parser β}
    (hg : ∀ t : Token, t.Genuine → t.SpellsNumber → pre t →
      Spells f (· = t) c before (g t) c' result) :
    Spells f pre c before (current >>= g) c' result := by
  intro s b s' hs hpre hb
  obtain ⟨t, s₁, ht, hgb⟩ := bind_eq_ok.mp hb
  obtain ⟨rfl, rfl⟩ := current_eq_ok.mp ht
  exact hg _ hs.exact.1 hs.exact.2 hpre s b s' hs rfl hgb

/-- What is taken without a mention. -/
theorem Spells.skip {g : α → Parser β} (hx : Spells f pre c [] x c₁ fun _ => [])
    (hg : ∀ a, Spells f anyToken c₁ before (g a) c' result) :
    Spells f pre c before (x >>= g) c' result := by
  refine Spells.bind hx fun a => ?_
  rw [List.append_nil]
  exact hg a

/-! ## Tokens -/

/-- What is mentioned when a token is taken. -/
theorem spells_take_bind {t : Token} {g : Token → Parser β} (hne : t.isEof = false)
    (hg : Spells f anyToken (c.next t.lexeme) (before ++ c.mentions t) (g t) c' result) :
    Spells f (· = t) c before (advance >>= g) c' result := by
  rintro s b s' hs rfl hb
  obtain ⟨u, s₁, hu, hb⟩ := bind_eq_ok.mp hb
  unfold advance at hu
  rw [if_neg (by simp [hne])] at hu
  cases htail : s.tail with
  | error e => rw [htail] at hu; cases hu
  | ok s₂ =>
    rw [htail] at hu
    cases hu
    obtain ⟨hs', hall⟩ := hg _ b s' (hs.tail htail) trivial hb
    refine ⟨hs', ?_⟩
    rw [← hall, hs.mentions_tail htail c, List.append_assoc]

/-- A token that mentions nothing is taken. -/
theorem spells_skip_bind {t : Token} {g : Token → Parser β} (hne : t.isEof = false)
    (hsilent : c.Silent t.lexeme c₁) (hg : Spells f anyToken c₁ before (g t) c' result) :
    Spells f (· = t) c before (advance >>= g) c' result := by
  obtain ⟨hmentions, hnext⟩ := hsilent.mentions_eq
  refine spells_take_bind hne ?_
  rw [hmentions, hnext, List.append_nil]
  exact hg

/-- Either the current token is taken or it stays. -/
theorem spells_accept_bind {test : Token → Bool} {g : Option Token → Parser β}
    (hsome : ∀ t, test t = true →
      Spells f (· = t) c before (advance >>= fun u => g (some u)) c' result)
    (hnone : Spells f anyToken c before (g none) c' result) :
    Spells f pre c before (accept test >>= g) c' result := by
  have haccept : accept test >>= g = current >>= fun t =>
      if test t = true then advance >>= fun u => g (some u) else g none := by
    unfold accept
    rw [bind_assoc]
    refine bind_congr fun t => ?_
    split <;> simp
  rw [haccept]
  refine spells_current_bind fun t _ _ _ => ?_
  split
  next htest => exact hsome t htest
  next => exact hnone.of_any

theorem spells_acceptSymbol_bind {k : Symbol} {g : Option Token → Parser β}
    (hk : c.Silent (.symbol k) c₁)
    (hsome : ∀ t, Spells f anyToken c₁ before (g (some t)) c' result)
    (hnone : Spells f anyToken c before (g none) c' result) :
    Spells f pre c before (acceptSymbol k >>= g) c' result := by
  refine spells_accept_bind (fun t ht => ?_) hnone
  have hlex : t.lexeme = .symbol k := of_decide_eq_true ht
  exact spells_skip_bind (by simp [Token.isEof, hlex]) (by rw [hlex]; exact hk) (hsome t)

theorem spells_acceptKeyword_bind {k : Keyword} {g : Option Token → Parser β}
    (hk : c.Silent (.keyword k) c₁)
    (hsome : ∀ t, Spells f anyToken c₁ before (g (some t)) c' result)
    (hnone : Spells f anyToken c before (g none) c' result) :
    Spells f pre c before (acceptKeyword k >>= g) c' result := by
  refine spells_accept_bind (fun t ht => ?_) hnone
  have hlex : t.lexeme = .keyword k := of_decide_eq_true ht
  exact spells_skip_bind (by simp [Token.isEof, hlex]) (by rw [hlex]; exact hk) (hsome t)

/-- The token that must be the current one is taken. -/
theorem spells_expect_bind {test : Token → Bool} {wanted : Wanted} {g : Token → Parser β}
    (hg : ∀ t, test t = true → Spells f (· = t) c before (advance >>= g) c' result) :
    Spells f pre c before (expect test wanted >>= g) c' result := by
  unfold expect
  rw [bind_assoc]
  refine spells_current_bind fun t _ _ _ => ?_
  split
  next ht => exact hg t ht
  next => exact spells_failAt_bind

theorem spells_expectSymbol_bind {k : Symbol} {wanted : Wanted} {g : Token → Parser β}
    (hk : c.Silent (.symbol k) c₁) (hg : ∀ t, Spells f anyToken c₁ before (g t) c' result) :
    Spells f pre c before (expect (·.isSymbol k) wanted >>= g) c' result := by
  refine spells_expect_bind fun t ht => ?_
  have hlex : t.lexeme = .symbol k := of_decide_eq_true ht
  exact spells_skip_bind (by simp [Token.isEof, hlex]) (by rw [hlex]; exact hk) (hg t)

theorem spells_expectKeyword_bind {k : Keyword} {wanted : Wanted} {g : Token → Parser β}
    (hk : c.Silent (.keyword k) c₁) (hg : ∀ t, Spells f anyToken c₁ before (g t) c' result) :
    Spells f pre c before (expect (·.isKeyword k) wanted >>= g) c' result := by
  refine spells_expect_bind fun t ht => ?_
  have hlex : t.lexeme = .keyword k := of_decide_eq_true ht
  exact spells_skip_bind (by simp [Token.isEof, hlex]) (by rw [hlex]; exact hk) (hg t)

/-- A name mentions itself and leaves the context, where names are not read differently. -/
theorem spells_expectName_bind (hc : c = .plain ∨ c = .params) {g : Token → Parser β}
    (hg : ∀ t, Spells f anyToken c (before ++ [.name t.text]) (g t) c' result) :
    Spells f pre c before (expectName >>= g) c' result := by
  unfold expectName
  rw [bind_assoc]
  refine spells_current_bind fun t _ _ _ => ?_
  split
  · exact spells_failAt_bind
  · refine spells_expect_bind fun u hu => ?_
    have hlex : u.lexeme = .name := of_decide_eq_true hu
    obtain ⟨hmentions, hnext⟩ := Context.mentions_name hc hlex
    refine spells_take_bind (by simp [Token.isEof, hlex]) ?_
    rw [hmentions, hnext]
    exact hg u

theorem spells_expectName (hc : c = .plain ∨ c = .params) :
    Spells f pre c [] expectName c fun t => [.name t.text] := by
  rw [← bind_pure expectName]
  exact spells_expectName_bind hc fun t => spells_pure rfl

theorem spells_skipWhile {test : Token → Bool}
    (htest : ∀ t, test t = true → c.Silent t.lexeme c) :
    Spells f pre c [] (skipWhile test) c fun _ => [] := by
  -- One token is taken at a time, so the induction is on the tokens that are left.
  have key : ∀ (rest : List Token) (t : Token) (s' : Stream),
      (⟨t, rest, f.ending⟩ : Stream).Within f →
      Stream.skipFrom test f.ending t rest = .ok s' →
      s'.Within f ∧ Stream.mentions c ⟨t, rest, f.ending⟩ = s'.mentions c := by
    intro rest
    induction rest with
    | nil =>
      intro t s' hs hskip
      unfold Stream.skipFrom at hskip
      split at hskip
      next ht =>
        obtain ⟨hmentions, hnext⟩ := (htest t ht).mentions_eq
        have hall := hs.mentions_tail hskip c
        dsimp only at hall
        rw [hmentions, hnext, List.nil_append] at hall
        exact ⟨hs.tail hskip, hall⟩
      next =>
        cases hskip
        exact ⟨hs, rfl⟩
    | cons next rest ih =>
      intro t s' hs hskip
      unfold Stream.skipFrom at hskip
      split at hskip
      next ht =>
        obtain ⟨hmentions, hnext⟩ := (htest t ht).mentions_eq
        have htail : Stream.tail ⟨t, next :: rest, f.ending⟩ = .ok ⟨next, rest, f.ending⟩ := rfl
        have hall := hs.mentions_tail htail c
        dsimp only at hall
        rw [hmentions, hnext, List.nil_append] at hall
        rw [hall]
        exact ih next s' (hs.tail rfl) hskip
      next =>
        cases hskip
        exact ⟨hs, rfl⟩
  rintro ⟨t, rest, ending⟩ a s' hs _ hx
  obtain rfl := hs.ending
  unfold skipWhile at hx
  cases hskip : Stream.skipFrom test f.ending t rest with
  | error e => simp only [hskip] at hx; cases hx
  | ok s₁ =>
    simp only [hskip] at hx
    cases hx
    exact key rest t _ hs hskip

theorem spells_skipNewlines (hc : c.Silent .newline c) :
    Spells f pre c [] skipNewlines c fun _ => [] := by
  refine spells_skipWhile fun t ht => ?_
  rw [show t.lexeme = .newline from of_decide_eq_true ht]
  exact hc

theorem spells_skipSeparators : Spells f pre .plain [] skipSeparators .plain fun _ => [] := by
  refine spells_skipWhile fun t ht => ?_
  rw [Token.isSeparator, Bool.or_eq_true] at ht
  rcases ht with ht | ht
  · rw [show t.lexeme = .newline from of_decide_eq_true ht]
    exact fun _ _ => ⟨rfl, rfl⟩
  · rw [show t.lexeme = .symbol .semicolon from of_decide_eq_true ht]
    exact fun _ _ => ⟨rfl, rfl⟩

/-! ## Lists -/

section Lists

variable {item : Parser α} {mentions : α → List Mention}

/-- One item more, behind those that were seen. -/
theorem flatMap_reverse_cons (a : α) (seen : List α) :
    before ++ seen.reverse.flatMap mentions ++ mentions a =
      before ++ (a :: seen).reverse.flatMap mentions := by
  simp [List.flatMap_append, List.append_assoc]

theorem spells_moreItems {between : Parser Unit}
    (hbetween : Spells f anyToken .plain [] between .plain fun _ => [])
    (hitem : Spells f anyToken .plain [] item .plain mentions) (rounds : Nat) (seen : List α) :
    Spells f pre .plain (before ++ seen.reverse.flatMap mentions)
      (moreItems between item rounds seen) .plain fun as => before ++ as.flatMap mentions := by
  induction rounds generalizing seen pre with
  | zero => exact spells_throw
  | succ rounds ih =>
    unfold moreItems
    refine spells_acceptSymbol_bind (fun _ _ => ⟨rfl, rfl⟩) (fun t => ?_) (spells_pure rfl)
    refine Spells.skip hbetween fun _ => ?_
    refine Spells.bind hitem fun a => ?_
    rw [flatMap_reverse_cons]
    exact ih (a :: seen)

theorem spells_items {between : Parser Unit}
    (hbetween : Spells f anyToken .plain [] between .plain fun _ => [])
    (hitem : Spells f anyToken .plain [] item .plain mentions) (rounds : Nat) :
    Spells f pre .plain [] (items rounds between item) .plain fun as => as.flatMap mentions := by
  unfold items
  refine Spells.bind hitem.of_any fun a => ?_
  have hmore : Spells f anyToken .plain ([] ++ [a].reverse.flatMap mentions)
      (moreItems between item rounds [a]) .plain fun as => [] ++ as.flatMap mentions :=
    spells_moreItems hbetween hitem rounds [a]
  simpa using hmore

theorem spells_bracketedItems {closing : Symbol} {wanted : Wanted} (hnewline : c.Silent .newline c)
    (hcomma : c.Silent (.symbol .comma) c) (hclosing : c.Silent (.symbol closing) c')
    (hitem : Spells f anyToken c [] item c mentions) (rounds : Nat) (seen : List α) :
    Spells f pre c (before ++ seen.reverse.flatMap mentions)
      (bracketedItems closing wanted item rounds seen) c'
      fun as => before ++ as.flatMap mentions := by
  induction rounds generalizing seen pre with
  | zero => exact spells_throw
  | succ rounds ih =>
    unfold bracketedItems
    refine Spells.bind hitem.of_any fun a => ?_
    rw [flatMap_reverse_cons]
    refine Spells.skip (spells_skipNewlines hnewline) fun _ => ?_
    refine spells_acceptSymbol_bind hcomma (fun t => ?_) ?_
    · exact Spells.skip (spells_skipNewlines hnewline) fun _ => ih (a :: seen)
    · exact spells_expectSymbol_bind hclosing fun _ => spells_pure rfl

/-- A bracketed list mentions what its items mention. -/
theorem spells_bracketed {closing : Symbol} {wanted : Wanted} (hnewline : c.Silent .newline c)
    (hcomma : c.Silent (.symbol .comma) c) (hclosing : c.Silent (.symbol closing) c')
    (hitem : Spells f anyToken c [] item c mentions) (rounds : Nat) :
    Spells f pre c [] (bracketed rounds closing wanted item) c' fun as => as.flatMap mentions := by
  unfold bracketed
  refine Spells.skip (spells_skipNewlines hnewline) fun _ => ?_
  refine spells_acceptSymbol_bind hclosing (fun t => spells_pure rfl) ?_
  have hitems : Spells f anyToken c ([] ++ [].reverse.flatMap mentions)
      (bracketedItems closing wanted item rounds []) c' fun as => [] ++ as.flatMap mentions :=
    spells_bracketedItems hnewline hcomma hclosing hitem rounds []
  exact hitems

end Lists

end Grammar

end Dee
