import Dee.Grammar.Stream

/-!
# What parsers give

`Gives T pre x ok` says of the parser `x`: from a stream whose tokens all satisfy `T` and whose
current token satisfies `pre`, every result satisfies `ok`, and the tokens that are left satisfy
`T`. The lemmas follow the ways in which parsers are put together.
-/

namespace Dee.Grammar

variable {α β : Type}

/-! ## Runs of parsers -/

theorem pure_eq_ok {a b : α} {s s' : Stream} :
    (pure a : Parser α) s = .ok (b, s') ↔ a = b ∧ s = s' := by
  show Except.ok (a, s) = Except.ok (b, s') ↔ _
  simp

theorem bind_eq_ok {x : Parser α} {f : α → Parser β} {b : β} {s s' : Stream} :
    (x >>= f) s = .ok (b, s') ↔ ∃ a s₁, x s = .ok (a, s₁) ∧ f a s₁ = .ok (b, s') := by
  show (x s >>= fun p => f p.1 p.2) = .ok (b, s') ↔ _
  cases hx : x s with
  | error e =>
    constructor
    · intro h
      cases h
    · rintro ⟨a, s₁, ⟨⟩, -⟩
  | ok p =>
    refine ⟨fun h => ⟨p.1, p.2, rfl, h⟩, ?_⟩
    rintro ⟨a, s₁, ⟨⟩, h⟩
    exact h

theorem current_eq_ok {t : Token} {s s' : Stream} :
    current s = .ok (t, s') ↔ s.current = t ∧ s = s' := by
  show Except.ok (s.current, s) = Except.ok (t, s') ↔ _
  simp

theorem failAt_ne_ok {t : Token} {cause : ParseError} {s : Stream} {r : α × Stream} :
    (failAt t cause : Parser α) s ≠ .ok r := by
  intro h
  cases h

/-- Taking a token gives the current one. -/
theorem advance_eq_ok {t : Token} {s s' : Stream} (h : advance s = .ok (t, s')) :
    t = s.current ∧ (s' = s ∨ s.tail = .ok s') := by
  unfold advance at h
  split at h
  · cases h
    exact ⟨rfl, Or.inl rfl⟩
  · cases ht : s.tail with
    | error e => rw [ht] at h; cases h
    | ok s₁ =>
      rw [ht] at h
      cases h
      exact ⟨rfl, Or.inr rfl⟩

/-! ## Streams of good tokens -/

/-- Every token of a stream satisfies a predicate. -/
def Stream.All (T : Token → Prop) (s : Stream) : Prop :=
  T s.current ∧ (∀ t ∈ s.rest, T t) ∧ ∀ t, s.ending = .ok t → T t

variable {T : Token → Prop}

theorem Stream.All.tail {s s' : Stream} (h : s.All T) (ht : s.tail = .ok s') : s'.All T := by
  obtain ⟨current, rest, ending⟩ := s
  obtain ⟨-, hrest, hending⟩ := h
  cases rest with
  | cons t rest =>
    cases ht
    exact ⟨hrest t (by simp), fun u hu => hrest u (by simp [hu]), hending⟩
  | nil =>
    cases ending with
    | error e => cases ht
    | ok eof =>
      cases ht
      exact ⟨hending eof rfl, by simp, hending⟩

theorem Stream.All.skipFrom {test : Token → Bool} {ending : Except (Located LexError) Token}
    {t : Token} {rest : List Token} {s' : Stream} (h : (⟨t, rest, ending⟩ : Stream).All T)
    (hs : Stream.skipFrom test ending t rest = .ok s') : s'.All T := by
  induction rest generalizing t with
  | nil =>
    unfold Stream.skipFrom at hs
    split at hs
    · exact h.tail hs
    · cases hs
      exact h
  | cons next rest ih =>
    unfold Stream.skipFrom at hs
    split at hs
    · exact ih (h.tail rfl) hs
    · cases hs
      exact h

/-! ## Good results -/

/-- From good tokens, the current one with `pre`, every result is `ok` and leaves good tokens. -/
def Gives (T : Token → Prop) (pre : Token → Prop) (x : Parser α) (ok : α → Prop) : Prop :=
  ∀ s a s', s.All T → pre s.current → x s = .ok (a, s') → s'.All T ∧ ok a

/-- Nothing is asked of the current token. -/
def anyToken : Token → Prop := fun _ => True

variable {pre : Token → Prop} {x : Parser α} {ok : α → Prop}

theorem Gives.of_any (h : Gives T anyToken x ok) : Gives T pre x ok := by
  intro s a s' hs _ hx
  exact h s a s' hs trivial hx

theorem Gives.mono {ok' : α → Prop} (h : Gives T pre x ok) (himp : ∀ a, ok a → ok' a) :
    Gives T pre x ok' := by
  intro s a s' hs hpre hx
  obtain ⟨hs', ha⟩ := h s a s' hs hpre hx
  exact ⟨hs', himp a ha⟩

theorem gives_pure {a : α} (h : ok a) : Gives T pre (pure a : Parser α) ok := by
  intro s b s' hs _ hx
  obtain ⟨rfl, rfl⟩ := pure_eq_ok.mp hx
  exact ⟨hs, h⟩

theorem gives_throw {f : Failure} : Gives T pre (throw f : Parser α) ok := by
  intro s a s' _ _ hx
  cases hx

theorem gives_failAt {t : Token} {cause : ParseError} :
    Gives T pre (failAt t cause : Parser α) ok := by
  intro s a s' _ _ hx
  exact absurd hx failAt_ne_ok

theorem Gives.bind {mid : α → Prop} {f : α → Parser β} {ok : β → Prop} (hx : Gives T pre x mid)
    (hf : ∀ a, mid a → Gives T anyToken (f a) ok) : Gives T pre (x >>= f) ok := by
  intro s b s' hs hpre hb
  obtain ⟨a, s₁, hxa, hfb⟩ := bind_eq_ok.mp hb
  obtain ⟨hs₁, ha⟩ := hx s a s₁ hs hpre hxa
  exact hf a ha s₁ b s' hs₁ trivial hfb

/-- Looking at the current token: what follows starts from it. -/
theorem gives_current_bind {f : Token → Parser β} {ok : β → Prop}
    (hf : ∀ t, T t → pre t → Gives T (· = t) (f t) ok) : Gives T pre (current >>= f) ok := by
  intro s b s' hs hpre hb
  obtain ⟨t, s₁, ht, hfb⟩ := bind_eq_ok.mp hb
  obtain ⟨rfl, rfl⟩ := current_eq_ok.mp ht
  exact hf _ hs.1 hpre s b s' hs rfl hfb

theorem gives_advance : Gives T pre advance fun t => T t ∧ pre t := by
  intro s t s' hs hpre hx
  obtain ⟨rfl, rfl | htail⟩ := advance_eq_ok hx
  · exact ⟨hs, hs.1, hpre⟩
  · exact ⟨hs.tail htail, hs.1, hpre⟩

theorem gives_accept (test : Token → Bool) :
    Gives T pre (accept test) fun o => ∀ t, o = some t → T t ∧ test t = true := by
  unfold accept
  refine gives_current_bind fun t ht _ => ?_
  split
  next htest =>
    refine Gives.bind gives_advance fun u hu => gives_pure ?_
    rintro v ⟨⟩
    rw [hu.2]
    exact ⟨ht, htest⟩
  next => exact gives_pure (by simp)

theorem gives_expect (test : Token → Bool) (wanted : Wanted) :
    Gives T pre (expect test wanted) fun t => T t ∧ test t = true := by
  unfold expect
  refine gives_current_bind fun t ht _ => ?_
  split
  next htest =>
    refine gives_advance.mono fun u hu => ?_
    rw [hu.2]
    exact ⟨ht, htest⟩
  next => exact gives_failAt

theorem gives_expectName : Gives T pre expectName fun t => T t ∧ t.lexeme = .name := by
  unfold expectName
  refine gives_current_bind fun t _ _ => ?_
  split
  · exact gives_failAt
  · exact (gives_expect _ _).mono fun u hu => ⟨hu.1, by simpa using hu.2⟩

theorem gives_skipWhile (test : Token → Bool) :
    Gives T pre (skipWhile test) fun _ => True := by
  intro s a s' hs _ hx
  unfold skipWhile at hx
  cases hk : Stream.skipFrom test s.ending s.current s.rest with
  | error e => rw [hk] at hx; cases hx
  | ok s₁ =>
    rw [hk] at hx
    cases hx
    exact ⟨hs.skipFrom hk, trivial⟩

/-! ## Lists -/

section Lists

variable {item : Parser α} {good : α → Prop}

theorem gives_moreItems {between : Parser Unit} (hbetween : Gives T anyToken between fun _ => True)
    (hitem : Gives T anyToken item good) (rounds : Nat) {seen : List α}
    (hseen : ∀ a ∈ seen, good a) (hne : seen ≠ []) :
    Gives T pre (moreItems between item rounds seen) fun as => (∀ a ∈ as, good a) ∧ as ≠ [] := by
  induction rounds generalizing seen pre with
  | zero => exact gives_throw
  | succ rounds ih =>
    unfold moreItems
    refine Gives.bind (gives_accept _) fun o _ => ?_
    cases o with
    | none => exact gives_pure ⟨fun a ha => hseen a (List.mem_reverse.mp ha), by simpa using hne⟩
    | some t =>
      refine Gives.bind hbetween fun _ _ => ?_
      refine Gives.bind hitem fun a ha => ?_
      refine ih (fun b hb => ?_) (by simp)
      rcases List.mem_cons.mp hb with rfl | hb
      · exact ha
      · exact hseen b hb

theorem gives_items {between : Parser Unit} (hbetween : Gives T anyToken between fun _ => True)
    (hitem : Gives T anyToken item good) (rounds : Nat) :
    Gives T pre (items rounds between item) fun as => (∀ a ∈ as, good a) ∧ as ≠ [] := by
  unfold items
  refine Gives.bind hitem.of_any fun a ha => ?_
  exact gives_moreItems hbetween hitem rounds (by simpa using ha) (by simp)

theorem gives_bracketedItems (hitem : Gives T anyToken item good) (closing : Symbol)
    (wanted : Wanted) (rounds : Nat) {seen : List α} (hseen : ∀ a ∈ seen, good a) :
    Gives T pre (bracketedItems closing wanted item rounds seen) fun as => ∀ a ∈ as, good a := by
  induction rounds generalizing seen pre with
  | zero => exact gives_throw
  | succ rounds ih =>
    unfold bracketedItems
    refine Gives.bind hitem.of_any fun a ha => ?_
    have hmore : ∀ b ∈ a :: seen, good b := by
      intro b hb
      rcases List.mem_cons.mp hb with rfl | hb
      · exact ha
      · exact hseen b hb
    refine Gives.bind (gives_skipWhile _) fun _ _ => ?_
    refine Gives.bind (gives_accept _) fun o _ => ?_
    cases o with
    | none =>
      refine Gives.bind (gives_expect _ _) fun _ _ => gives_pure ?_
      intro b hb
      exact hmore b (List.mem_reverse.mp hb)
    | some t =>
      refine Gives.bind (gives_skipWhile _) fun _ _ => ?_
      exact ih hmore

theorem gives_bracketed (hitem : Gives T anyToken item good) (rounds : Nat) (closing : Symbol)
    (wanted : Wanted) :
    Gives T pre (bracketed rounds closing wanted item) fun as => ∀ a ∈ as, good a := by
  unfold bracketed
  refine Gives.bind (gives_skipWhile _) fun _ _ => ?_
  refine Gives.bind (gives_accept _) fun o _ => ?_
  cases o with
  | some t => exact gives_pure (by simp)
  | none => exact gives_bracketedItems hitem closing wanted rounds (by simp)

end Lists

end Dee.Grammar
