import Dee.Proofs.Grammar.Induction
import Dee.Proofs.Grammar.Spells
import Mathlib.Data.Nat.Find

/-!
# Positions that are too long

The grammar converts the digits of a number only behind the dot of a member, and gives up on a
number one of whose parts has too many digits. `parse_longPosition_iff` says exactly when that
happens: the parser takes a dot and, behind it, a number that is too long, and there is a token
behind the number.

That the parser takes its first tokens is said by breaking the tokens off behind them: the parser
then stops at the break. Two inductions over the grammar join the two sides. A parser that gives up
on a long position has such a number in its tokens (`Traces`), and on tokens that break off behind
such a number it does the same as on all tokens, up to the number (`Follows`).
-/

namespace Dee

/-! ## Numbers behind dots -/

/-- The characters that the positions of a member are converted from: all of an integer, and what
stands around the point of a real. -/
def Token.positionParts (t : Token) : List (List Char) :=
  match t.lexeme with
  | .literal (.int _) => [t.text.toList]
  | .literal (.real _) => aroundPoint t.text
  | _ => []

/-- The length of the first part of a number that is too long for a position. -/
def Token.longPart? (t : Token) : Option Nat :=
  (t.positionParts.map List.length).find? (Grammar.maxPositionDigits < ·)

namespace Feed

/-- How many tokens there are, with the end if the text has one. -/
def size (f : Feed) : Nat :=
  f.tokens.length + f.ending.toOption.toList.length

/-- The token at `k` is a dot, behind it stands a number whose first part that is too long for a
position has `n` characters, and a token follows. -/
def LongAt (f : Feed) (k n : Nat) : Prop :=
  ∃ dot number, f.tokens[k]? = some dot ∧ f.tokens[k + 1]? = some number ∧
    dot.lexeme = .symbol .dot ∧ number.longPart? = some n ∧ k + 2 < f.size

/-- The first `k` tokens, and a failure in place of the rest. -/
def breakOff (f : Feed) (k : Nat) (e : Located LexError) : Feed :=
  ⟨f.tokens.take k, .error e⟩

end Feed

namespace Grammar

variable {α β : Type}

/-! ## Runs of parsers -/

/-- A token that is not the end is taken by going on behind it. -/
theorem advance_bind_apply {s : Stream} (h : s.current.isEof = false) {g : Token → Parser β} :
    (advance >>= g) s = s.tail.bind (g s.current) := by
  show (advance s >>= fun p => g p.1 p.2) = _
  unfold advance
  rw [if_neg (by simp [h])]
  cases s.tail <;> rfl

theorem position_bind_apply {ds : List Char} {g : Member → Parser β} {s : Stream} :
    (position ds >>= g) s = if maxPositionDigits < ds.length then .error (.longPosition ds.length)
      else g (.position (Decimal.toNat ds)) s := by
  unfold position
  split <;> rfl

/-! ## Members -/

section Members

variable {s s' : Stream} {target e : Expr} {dot : Token} {n : Nat}

/-- Behind the current token the scan fails, or there is a next token. -/
theorem tail_cases (s : Stream) : (∃ e, s.tail = .error (.scan e)) ∨ ∃ s', s.tail = .ok s' := by
  obtain ⟨current, rest, ending⟩ := s
  cases rest with
  | cons t rest => exact Or.inr ⟨_, rfl⟩
  | nil =>
    cases ending with
    | error e => exact Or.inl ⟨e, rfl⟩
    | ok eof => exact Or.inr ⟨_, rfl⟩

/-- The first part of an integer that is too long. -/
theorem longPart?_int {t : Token} {i : Int} (hlex : t.lexeme = .literal (.int i)) :
    t.longPart? = if maxPositionDigits < t.text.toList.length then some t.text.toList.length
      else none := by
  rw [Token.longPart?, Token.positionParts, hlex]
  dsimp only
  rw [List.map_singleton, List.find?_singleton]
  simp only [decide_eq_true_iff]

/-- The first part of a real that is too long. -/
theorem longPart?_real {t : Token} {x : Float} (hspells : t.SpellsNumber)
    (hlex : t.lexeme = .literal (.real x)) :
    t.longPart? =
      if maxPositionDigits < (t.text.toList.takeWhile Decimal.isDigit).length then
        some (t.text.toList.takeWhile Decimal.isDigit).length
      else if maxPositionDigits < ((t.text.toList.dropWhile Decimal.isDigit).drop 1).length then
        some ((t.text.toList.dropWhile Decimal.isDigit).drop 1).length
      else none := by
  rw [Token.longPart?, Token.positionParts, hlex]
  dsimp only
  rw [aroundPoint_eq hspells hlex, List.map_cons, List.map_singleton, List.find?_cons,
    List.find?_singleton]
  split
  next h => rw [if_pos (of_decide_eq_true h)]
  next h => rw [if_neg (of_decide_eq_false h)]; simp only [decide_eq_true_iff]

/-- What a member does: it fails at a token that is none, or it takes one token and, if that is a
number with a part that is too long, gives up. -/
theorem member_cases (target : Expr) (dot : Token) (hspells : s.current.SpellsNumber) :
    (s.current.longPart? = none ∧ ∃ cause, member target dot s = failAt s.current cause s) ∨
      ∃ e, member target dot s = s.tail.bind fun s' =>
        s.current.longPart?.elim (.ok (e, s')) fun n => .error (.longPosition n) := by
  have hint := fun i => longPart?_int (t := s.current) (i := i)
  have hreal := fun x => longPart?_real (x := x) hspells
  obtain ⟨⟨lexeme, text, pos⟩, rest, ending⟩ := s
  cases lexeme with
  | name =>
    refine Or.inr ⟨.member dot.pos target (.named text), ?_⟩
    change (advance >>= fun _ => pure (Expr.member dot.pos target (.named text)) :
      Parser Expr) _ = _
    rw [advance_bind_apply rfl]
    rfl
  | literal value =>
    cases value with
    | int i =>
      refine Or.inr ⟨.member dot.pos target (.position (Decimal.toNat text.toList)), ?_⟩
      change (advance >>= fun _ => position text.toList >>= fun m =>
        pure (Expr.member dot.pos target m) : Parser Expr) _ = _
      rw [hint i rfl, advance_bind_apply rfl]
      refine congrArg _ (funext fun s' => ?_)
      rw [position_bind_apply]
      split <;> rfl
    | real x =>
      refine Or.inr ⟨.member pos (.member dot.pos target
        (.position (Decimal.toNat (text.toList.takeWhile Decimal.isDigit))))
        (.position (Decimal.toNat ((text.toList.dropWhile Decimal.isDigit).drop 1))), ?_⟩
      change (advance >>= fun _ => position (text.toList.takeWhile Decimal.isDigit) >>= fun m =>
        position ((text.toList.dropWhile Decimal.isDigit).drop 1) >>= fun m' =>
          pure (Expr.member pos (.member dot.pos target m) m') : Parser Expr) _ = _
      rw [hreal x rfl, advance_bind_apply rfl]
      refine congrArg _ (funext fun s' => ?_)
      rw [position_bind_apply]
      split
      · rfl
      · rw [position_bind_apply]
        split <;> rfl
    | none => exact Or.inl ⟨rfl, _, rfl⟩
    | bool b => exact Or.inl ⟨rfl, _, rfl⟩
    | str t => exact Or.inl ⟨rfl, _, rfl⟩
  | keyword k => cases k <;> exact Or.inl ⟨rfl, _, rfl⟩
  | symbol k => exact Or.inl ⟨rfl, _, rfl⟩
  | newline => exact Or.inl ⟨rfl, _, rfl⟩
  | eof => exact Or.inl ⟨rfl, _, rfl⟩

end Members

/-! ## Where long positions come from -/

section Traces

variable {f : Feed} {s s' : Stream}

theorem Stream.Within.skipFrom {test : Token → Bool} {ending : Except (Located LexError) Token}
    {t : Token} {rest : List Token} (h : (⟨t, rest, ending⟩ : Stream).Within f)
    (hs : Stream.skipFrom test ending t rest = .ok s') : s'.Within f := by
  induction rest generalizing t with
  | nil =>
    unfold Stream.skipFrom at hs
    split at hs
    · exact h.tail hs
    · cases hs
      exact h
  | cons next rest ih =>
    unfold Stream.skipFrom at hs
    split at hs
    · exact ih (h.tail rfl) hs
    · cases hs
      exact h

/-- Taking tokens fails only with the failure of the scan. -/
theorem skipFrom_cases {test : Token → Bool} {ending : Except (Located LexError) Token} (t : Token)
    (rest : List Token) :
    (∃ e, Stream.skipFrom test ending t rest = .error (.scan e)) ∨
      ∃ s', Stream.skipFrom test ending t rest = .ok s' := by
  induction rest generalizing t with
  | nil =>
    unfold Stream.skipFrom
    split
    · exact tail_cases _
    · exact Or.inr ⟨_, rfl⟩
  | cons next rest ih =>
    unfold Stream.skipFrom
    split
    · exact ih next
    · exact Or.inr ⟨_, rfl⟩

/-- A result whose stream is in the feed, or a failure that has its cause there if it is a long
position. -/
inductive Traced (f : Feed) {α : Type} : Except Failure (α × Stream) → Prop
  | ok (a : α) {s : Stream} (h : s.Within f) : Traced f (.ok (a, s))
  | long {k n : Nat} (h : f.LongAt k n) : Traced f (.error (.longPosition n))
  | other {g : Failure} (h : ∀ n, g ≠ .longPosition n) : Traced f (.error g)

/-- A parser stays in the feed, and if it gives up on a long position, there is one in the feed. -/
def Traces (f : Feed) {α : Type} (pre : Token → Prop) (x : Parser α) : Prop :=
  ∀ s, s.Within f → pre s.current → Traced f (x s)

theorem Traces.bind {pre : Token → Prop} {x : Parser α} {g : α → Parser β} (hx : Traces f pre x)
    (hg : ∀ a, Traces f anyToken (g a)) : Traces f pre (x >>= g) := by
  intro s hs hpre
  show Traced f (x s >>= fun p => g p.1 p.2)
  have htraced := hx s hs hpre
  generalize x s = result at htraced ⊢
  cases htraced with
  | ok a hs' => exact hg a _ hs' trivial
  | long hlong => exact .long hlong
  | other hother => exact .other hother

theorem traces_advance {pre : Token → Prop} : Traces f pre advance := by
  intro s hs _
  unfold advance
  split
  · exact .ok _ hs
  · rcases tail_cases s with ⟨e, htail⟩ | ⟨s', htail⟩
    · rw [htail]
      exact .other (by simp)
    · rw [htail]
      exact .ok _ (hs.tail htail)

theorem traces_skipWhile {pre : Token → Prop} (test : Token → Bool) :
    Traces f pre (skipWhile test) := by
  intro s hs _
  unfold skipWhile
  rcases skipFrom_cases s.current s.rest with ⟨e, hskip⟩ | ⟨s', hskip⟩
  · rw [hskip]
    exact .other (by simp)
  · rw [hskip]
    exact .ok _ (hs.skipFrom hskip)

/-- A dot, a number with a part that is too long, and a token behind it. -/
theorem Stream.Within.longAt {s₁ s₂ : Stream} {n : Nat} (h : s.Within f)
    (hdot : s.current.lexeme = .symbol .dot) (hfirst : s.tail = .ok s₁)
    (hlong : s₁.current.longPart? = some n) (hsecond : s₁.tail = .ok s₂) : ∃ k, f.LongAt k n := by
  have hwithin := h.tail hfirst
  have hinside : ∀ {s : Stream}, s.Within f → s.current.lexeme ≠ .eof →
      (s.current :: s.rest) <:+ f.tokens := by
    intro s hs hne
    rcases hs.place with hplace | ⟨-, hend⟩
    · exact hplace
    · exact absurd (of_decide_eq_true (hs.clean.ending _ hend)) hne
  have hnumber : s₁.current.lexeme ≠ .eof := by
    intro heof
    rw [Token.longPart?, Token.positionParts, heof] at hlong
    cases hlong
  obtain ⟨front, hfront⟩ := hinside h (by simp [hdot])
  obtain ⟨current, rest, ending⟩ := s
  cases rest with
  | nil =>
    cases ending with
    | error e => cases hfirst
    | ok eof =>
      cases hfirst
      exact absurd (of_decide_eq_true (h.clean.ending eof h.ending.symm)) hnumber
  | cons number rest =>
    cases hfirst
    refine ⟨front.length, current, number, ?_, ?_, hdot, hlong, ?_⟩
    · rw [← hfront]
      simp
    · rw [← hfront]
      simp
    · -- The token behind the number is the next one or the end.
      rw [Feed.size, ← hfront, ← h.ending]
      cases rest with
      | cons next rest => simp only [List.length_append, List.length_cons]; omega
      | nil =>
        cases ending with
        | error e => cases hsecond
        | ok eof =>
          simp only [List.length_append, List.length_cons, Except.toOption, Option.toList]; simp

/-- Behind a dot, a number is given up only if it is too long. -/
theorem traces_access (target : Expr) {t : Token} (ht : t.lexeme = .symbol .dot) :
    Traces f (· = t) (advance >>= fun _ => member target t) := by
  intro s hs hcurrent
  have hdot : s.current.lexeme = .symbol .dot := by rw [hcurrent, ht]
  rw [advance_bind_apply (by simp [Token.isEof, hdot])]
  rcases tail_cases s with ⟨e, hfirst⟩ | ⟨s₁, hfirst⟩
  · rw [hfirst]
    exact .other (by simp)
  · rw [hfirst, Except.bind]
    have hs₁ := hs.tail hfirst
    rcases member_cases target t hs₁.exact.2 with ⟨-, cause, hm⟩ | ⟨e, hm⟩
    · rw [hm]
      exact .other (by simp)
    · rw [hm]
      rcases tail_cases s₁ with ⟨e', hsecond⟩ | ⟨s₂, hsecond⟩
      · rw [hsecond]
        exact .other (by simp)
      · rw [hsecond, Except.bind]
        cases hlong : s₁.current.longPart? with
        | none => exact .ok _ (hs₁.tail hsecond)
        | some n =>
          obtain ⟨k, hk⟩ := hs.longAt hdot hfirst hlong hsecond
          exact .long hk

theorem compositional_traces (f : Feed) : Compositional (Traces f) where
  weaken h s hs _ := h s hs trivial
  pure a s hs _ := .ok a hs
  tooDeep _ _ _ := .other (by simp)
  failAt _ _ _ _ _ := .other (by simp)
  bind hx hg := hx.bind hg
  current hg s hs _ := hg s.current s hs rfl
  advance _ := traces_advance
  skipWhile _ := traces_skipWhile _
  access target _ ht := traces_access target ht

end Traces

/-! ## Tokens that break off -/

section Follows

variable {dot number : Token} {e : Located LexError} {n : Nat} {s₁ s₂ : Stream}

/-- Two streams with the same tokens up to a dot and a number; the first breaks off behind the
number, and the second goes on. -/
inductive Ahead (dot number : Token) (e : Located LexError) : Stream → Stream → Prop
  | intro {t : Token} {rest back : List Token} {ending : Except (Located LexError) Token}
    (htokens : [dot, number] <:+ t :: rest) (hback : back ≠ [] ∨ ∃ eof, ending = .ok eof) :
    Ahead dot number e ⟨t, rest, .error e⟩ ⟨t, rest ++ back, ending⟩

/-- What a parser gives on two such streams: the same, while the dot is still ahead, and a break on
the first where the second has the number that is given up. -/
inductive Agree (dot number : Token) (e : Located LexError) (n : Nat) {α : Type} :
    Except Failure (α × Stream) → Except Failure (α × Stream) → Prop
  | ok (a : α) {s₁ s₂ : Stream} (h : Ahead dot number e s₁ s₂) :
    Agree dot number e n (.ok (a, s₁)) (.ok (a, s₂))
  | same {g : Failure} (h : ∀ e', g ≠ .scan e') : Agree dot number e n (.error g) (.error g)
  | long : Agree dot number e n (.error (.scan e)) (.error (.longPosition n))

/-- A parser does the same on tokens that break off behind a number as on all tokens, up to the
number. -/
def Follows (dot number : Token) (e : Located LexError) (n : Nat) {α : Type} (pre : Token → Prop)
    (x : Parser α) : Prop :=
  ∀ s₁ s₂, Ahead dot number e s₁ s₂ → pre s₁.current → Agree dot number e n (x s₁) (x s₂)

/-- A token that is not the dot is behind both streams. -/
theorem Ahead.tail (h : Ahead dot number e s₁ s₂) (hne : s₁.current ≠ dot) :
    ∃ s₁' s₂', s₁.tail = .ok s₁' ∧ s₂.tail = .ok s₂' ∧ Ahead dot number e s₁' s₂' := by
  obtain @⟨t, rest, back, ending, htokens, hback⟩ := h
  rcases List.suffix_cons_iff.mp htokens with heq | hsuffix
  · cases heq
    exact absurd rfl hne
  · cases rest with
    | nil =>
      have hlength := hsuffix.length_le
      simp at hlength
    | cons u rest => exact ⟨_, _, rfl, rfl, .intro hsuffix hback⟩

theorem Ahead.current (h : Ahead dot number e s₁ s₂) : s₂.current = s₁.current := by
  cases h
  rfl

theorem Follows.bind {α β : Type} {pre : Token → Prop} {x : Parser α} {g : α → Parser β}
    (hx : Follows dot number e n pre x) (hg : ∀ a, Follows dot number e n anyToken (g a)) :
    Follows dot number e n pre (x >>= g) := by
  intro s₁ s₂ hs hpre
  show Agree _ _ _ _ (x s₁ >>= fun p => g p.1 p.2) (x s₂ >>= fun p => g p.1 p.2)
  have hagree := hx s₁ s₂ hs hpre
  generalize x s₁ = result₁ at hagree ⊢
  generalize x s₂ = result₂ at hagree ⊢
  cases hagree with
  | ok a hs' => exact hg a _ _ hs' trivial
  | same hg => exact .same hg
  | long => exact .long

theorem follows_advance {pre : Token → Prop} (hpre : ∀ t, pre t → t ≠ dot) :
    Follows dot number e n pre advance := by
  intro s₁ s₂ hs hcurrent
  obtain ⟨s₁', s₂', htail₁, htail₂, hs'⟩ := hs.tail (hpre _ hcurrent)
  unfold advance
  rw [hs.current, htail₁, htail₂]
  split
  · exact .ok _ hs
  · exact .ok _ hs'

theorem follows_skipWhile {pre : Token → Prop} {test : Token → Bool}
    (htest : ∀ t, test t = true → t ≠ dot) : Follows dot number e n pre (skipWhile test) := by
  -- The break is behind the dot, which is not taken; so the induction is on the tokens up to the
  -- break.
  have key : ∀ (rest : List Token) (t : Token) (s₂ : Stream),
      Ahead dot number e ⟨t, rest, .error e⟩ s₂ →
      ∃ s₁' s₂', Stream.skipFrom test (.error e) t rest = .ok s₁' ∧
        Stream.skipFrom test s₂.ending s₂.current s₂.rest = .ok s₂' ∧
          Ahead dot number e s₁' s₂' := by
    intro rest
    induction rest with
    | nil =>
      intro t s₂ hs
      obtain ⟨htokens, -⟩ := hs
      have hlength := htokens.length_le
      simp at hlength
    | cons next rest ih =>
      intro t s₂ hs
      have hstay := hs
      obtain ⟨htokens, hback⟩ := hs
      simp only [List.cons_append, Stream.skipFrom]
      split
      next ht =>
        obtain ⟨s₁', s₂', htail₁, htail₂, hs'⟩ := hstay.tail (htest t ht)
        cases htail₁
        cases htail₂
        exact ih next _ hs'
      next => exact ⟨_, _, rfl, rfl, hstay⟩
  intro s₁ s₂ hs _
  have hstay := hs
  obtain @⟨t, rest, back, ending, -, -⟩ := hs
  obtain ⟨s₁', s₂', hskip₁, hskip₂, hs'⟩ := key rest t _ hstay
  unfold skipWhile
  rw [hskip₁, hskip₂]
  exact .ok () hs'

theorem follows_pure {α : Type} {pre : Token → Prop} (a : α) :
    Follows dot number e n pre (pure a : Parser α) :=
  fun _ _ hs _ => .ok a hs

theorem follows_throw {α : Type} {pre : Token → Prop} {g : Failure} (hg : ∀ e', g ≠ .scan e') :
    Follows dot number e n pre (throw g : Parser α) :=
  fun _ _ _ _ => .same hg

theorem follows_failAt {α : Type} {pre : Token → Prop} (t : Token) (cause : ParseError) :
    Follows dot number e n pre (failAt t cause : Parser α) :=
  follows_throw (by simp)

theorem follows_current_bind {β : Type} {pre : Token → Prop} {g : Token → Parser β}
    (hg : ∀ t, Follows dot number e n (· = t) (g t)) :
    Follows dot number e n pre (current >>= g) := by
  intro s₁ s₂ hs _
  show Agree _ _ _ _ (g s₁.current s₁) (g s₂.current s₂)
  rw [hs.current]
  exact hg s₁.current s₁ s₂ hs rfl

theorem follows_position {pre : Token → Prop} (ds : List Char) :
    Follows dot number e n pre (position ds) := by
  unfold position
  split
  · exact follows_throw (by simp)
  · exact follows_pure _

/-- A member before the dot is taken in both streams. -/
theorem follows_member (hdot : dot.lexeme = .symbol .dot) (target : Expr) (t : Token) :
    Follows dot number e n anyToken (member target t) := by
  unfold member
  refine follows_current_bind fun u => ?_
  have htake : ∀ {lexeme : Lexeme}, u.lexeme = lexeme → lexeme ≠ .symbol .dot →
      Follows dot number e n (· = u) advance := by
    rintro _ rfl hne
    refine follows_advance ?_
    rintro _ rfl rfl
    exact hne hdot
  split
  next hlex => exact (htake hlex (by simp)).bind fun _ => follows_pure _
  next hlex =>
    refine (htake hlex (by simp)).bind fun _ => ?_
    exact (follows_position _).bind fun _ => follows_pure _
  next hlex =>
    refine (htake hlex (by simp)).bind fun _ => (follows_position _).bind fun _ => ?_
    exact (follows_position _).bind fun _ => follows_pure _
  next => split <;> exact follows_failAt _ _

/-- The dot itself: the number behind it is where the first stream breaks off and the second gives
up. -/
theorem follows_access (hdot : dot.lexeme = .symbol .dot) (hspells : number.SpellsNumber)
    (hlong : number.longPart? = some n) (target : Expr) {t : Token} (ht : t.lexeme = .symbol .dot) :
    Follows dot number e n (· = t) (advance >>= fun _ => member target t) := by
  intro s₁ s₂ hs hcurrent
  have hne : ∀ {s : Stream}, s.current = t → s.current.isEof = false := by
    intro s hs
    rw [hs, Token.isEof, ht]
    rfl
  rw [advance_bind_apply (hne hcurrent), advance_bind_apply (hne (hs.current.trans hcurrent))]
  obtain @⟨u, rest, back, ending, htokens, hback⟩ := hs
  rcases List.suffix_cons_iff.mp htokens with heq | hsuffix
  · -- The number is taken before its digits are counted, so the first stream does not get to the
    -- count.
    cases heq
    have hbroken : member target t ⟨number, [], .error e⟩ = .error (.scan e) := by
      rcases member_cases (s := ⟨number, [], .error e⟩) target t hspells with ⟨hnone, -⟩ | ⟨e', hm⟩
      · rw [hlong] at hnone
        cases hnone
      · exact hm
    have hgoes : member target t ⟨number, back, ending⟩ = .error (.longPosition n) := by
      rcases member_cases (s := ⟨number, back, ending⟩) target t hspells with ⟨hnone, -⟩ | ⟨e', hm⟩
      · rw [hlong] at hnone
        cases hnone
      · rw [hm, hlong]
        cases back with
        | cons next back => rfl
        | nil =>
          obtain ⟨eof, rfl⟩ := hback.resolve_left (by simp)
          rfl
    show Agree _ _ _ _ (member target t ⟨number, [], .error e⟩)
      (member target t ⟨number, back, ending⟩)
    rw [hbroken, hgoes]
    exact .long
  · cases rest with
    | nil =>
      have hlength := hsuffix.length_le
      simp at hlength
    | cons v rest => exact follows_member hdot target t _ _ (.intro hsuffix hback) trivial

/-- On tokens that break off behind a dot and a number that is too long, the grammar does as on all
tokens, up to the number. -/
theorem compositional_follows (hdot : dot.lexeme = .symbol .dot) (hspells : number.SpellsNumber)
    (hlong : number.longPart? = some n) : Compositional (Follows dot number e n) where
  weaken h s₁ s₂ hs _ := h s₁ s₂ hs trivial
  pure a := follows_pure a
  tooDeep := follows_throw (by simp)
  failAt t cause := follows_failAt t cause
  bind hx hg := hx.bind hg
  current hg := follows_current_bind hg
  advance ht := follows_advance (by
    rintro _ rfl rfl
    simp [Token.isSymbol, hdot] at ht)
  skipWhile htest := follows_skipWhile (by
    rintro _ ht rfl
    have hsymbol := htest _ ht
    simp [Token.isSymbol, hdot] at hsymbol)
  access target _ ht := follows_access hdot hspells hlong target ht

end Follows

/-! ## Whole feeds -/

section Feeds

variable {f : Feed} {k n : Nat}

/-- Reads the statements of a feed. -/
def readFeed (r : Rules) (f : Feed) : Except Failure (List Stmt × Stream) :=
  Stream.ofFeed f >>= statements r .file

theorem parseFeed_eq (nesting : Nat) (f : Feed) :
    parseFeed nesting f =
      (readFeed (.ofLevel (f.tokens.length + 1) nesting) f).map fun result =>
        ⟨result.1, .start⟩ := by
  unfold parseFeed readFeed
  cases Stream.ofFeed f with
  | error g => rfl
  | ok s =>
    show (statements _ .file s >>= fun result => _) = (statements _ .file s).map _
    cases statements (.ofLevel (f.tokens.length + 1) nesting) .file s <;> rfl

/-- The streams of a feed and of its tokens up to a number that is too long. -/
theorem ahead_ofFeed {dot number : Token} (hdot : f.tokens[k]? = some dot)
    (hnumber : f.tokens[k + 1]? = some number) (hsize : k + 2 < f.size) (e : Located LexError) :
    ∃ s₁ s₂, Stream.ofFeed (f.breakOff (k + 2) e) = .ok s₁ ∧ Stream.ofFeed f = .ok s₂ ∧
      Ahead dot number e s₁ s₂ := by
  obtain ⟨tokens, ending⟩ := f
  dsimp only at hdot hnumber
  have htake : tokens.take (k + 2) = tokens.take k ++ [dot, number] := by
    rw [List.take_add_one, List.take_add_one, hdot, hnumber]
    simp
  have hsplit : tokens = tokens.take (k + 2) ++ tokens.drop (k + 2) :=
    (List.take_append_drop _ _).symm
  have hback : tokens.drop (k + 2) ≠ [] ∨ ∃ eof, ending = .ok eof := by
    cases ending with
    | ok eof => exact Or.inr ⟨eof, rfl⟩
    | error e =>
      refine Or.inl (List.ne_nil_of_length_pos ?_)
      simp only [Feed.size, Except.toOption, Option.toList, List.length_nil] at hsize
      rw [List.length_drop]
      omega
  unfold Feed.breakOff
  generalize tokens.take (k + 2) = front at hsplit htake ⊢
  generalize tokens.drop (k + 2) = back at hsplit hback
  subst hsplit
  cases front with
  | nil =>
    have hlength := congrArg List.length htake
    simp at hlength
  | cons t rest =>
    refine ⟨_, _, rfl, rfl, .intro ?_ hback⟩
    rw [htake]
    exact List.suffix_append _ _

/-- What is long in the first tokens is long in all of them. -/
theorem longAt_of_breakOff {j : Nat} {e : Located LexError} (h : (f.breakOff (k + 2) e).LongAt j n)
    (hk : k + 2 ≤ f.tokens.length) : j < k ∧ f.LongAt j n := by
  obtain ⟨dot, number, hdot, hnumber, hlex, hlong, hsize⟩ := h
  have hj : j < k := by
    have hle := List.length_take_le (k + 2) f.tokens
    simp only [Feed.size, Feed.breakOff, Except.toOption, Option.toList, List.length_nil] at hsize
    omega
  refine ⟨hj, dot, number, ?_, ?_, hlex, hlong, ?_⟩
  · exact (List.getElem?_take_of_lt (by omega)).symm.trans hdot
  · exact (List.getElem?_take_of_lt (by omega)).symm.trans hnumber
  · rw [Feed.size]
    omega

theorem clean_breakOff (hf : f.Clean) (e : Located LexError) : (f.breakOff k e).Clean where
  tokens t ht := hf.tokens t (List.mem_of_mem_take ht)
  ending t ht := by cases ht

/-- Reading a feed that is given up for a long position has one in its tokens. -/
theorem longAt_of_readFeed (hf : f.Clean) {rounds level : Nat}
    (h : readFeed (.ofLevel rounds level) f = .error (.longPosition n)) : ∃ k, f.LongAt k n := by
  have hc := compositional_traces f
  unfold readFeed at h
  cases hs : Stream.ofFeed f with
  | error g =>
    rw [hs] at h
    obtain ⟨tokens, ending⟩ := f
    cases h
    cases tokens with
    | cons t rest => cases hs
    | nil => cases ending <;> cases hs
  | ok s =>
    rw [hs] at h
    have htraced :=
      hc.statements (hc.ofLevel rounds level) .file s (Stream.Within.ofFeed hf hs).1 trivial
    change statements (.ofLevel rounds level) .file s = .error (.longPosition n) at h
    rw [h] at htraced
    cases htraced with
    | long hlong => exact ⟨_, hlong⟩
    | other hother => exact absurd rfl (hother n)

/-- What reading gives on a feed and on its tokens up to a number that is too long. -/
theorem agree_readFeed (hf : f.Clean) (hlong : f.LongAt k n) (rounds level : Nat)
    (e : Located LexError) :
    ∃ dot number, Agree dot number e n (readFeed (.ofLevel rounds level) (f.breakOff (k + 2) e))
      (readFeed (.ofLevel rounds level) f) := by
  obtain ⟨dot, number, hdot, hnumber, hlex, hpart, hsize⟩ := hlong
  obtain ⟨s₁, s₂, hs₁, hs₂, hahead⟩ := ahead_ofFeed hdot hnumber hsize e
  have hspells := (hf.tokens number (List.mem_of_getElem? hnumber)).2.2
  have hc := compositional_follows (e := e) hlex hspells hpart
  refine ⟨dot, number, ?_⟩
  unfold readFeed
  rw [hs₁, hs₂]
  exact hc.statements (hc.ofLevel rounds level) .file s₁ s₂ hahead trivial

/-- Reading is given up for a long position exactly if there is one that reading gets to: a dot and
behind it a number that is too long, such that reading meets a break behind the number. -/
theorem readFeed_longPosition_iff (hf : f.Clean) (rounds level : Nat) :
    readFeed (.ofLevel rounds level) f = .error (.longPosition n) ↔
      ∃ k, f.LongAt k n ∧
        ∀ e, readFeed (.ofLevel rounds level) (f.breakOff (k + 2) e) = .error (.scan e) := by
  constructor
  · intro h
    -- Of all long positions, reading stops at the first.
    have hexists : ∃ k n, f.LongAt k n := by
      obtain ⟨k, hk⟩ := longAt_of_readFeed hf h
      exact ⟨k, n, hk⟩
    classical
    obtain ⟨n', hfirst⟩ := Nat.find_spec hexists
    generalize hk : Nat.find hexists = k at hfirst
    have hbreak : ∀ e, readFeed (.ofLevel rounds level) (f.breakOff (k + 2) e) = .error (.scan e) ∧
        n' = n := by
      intro e
      obtain ⟨dot, number, hagree⟩ := agree_readFeed hf hfirst rounds level e
      rw [h] at hagree
      generalize hcut : readFeed (.ofLevel rounds level) (f.breakOff (k + 2) e) = result at hagree
      cases hagree with
      | same _ =>
        obtain ⟨j, hj⟩ := longAt_of_readFeed (clean_breakOff hf e) hcut
        obtain ⟨_, _, _, hnumber, _⟩ := hfirst
        obtain ⟨hlt, hbefore⟩ := longAt_of_breakOff hj (List.getElem?_eq_some_iff.mp hnumber).1
        exact absurd ⟨n, hbefore⟩ (Nat.find_min hexists (hk ▸ hlt))
      | long => exact ⟨rfl, rfl⟩
    obtain rfl := (hbreak ⟨.unclosedString, .start⟩).2
    exact ⟨k, hfirst, fun e => (hbreak e).1⟩
  · rintro ⟨k, hlong, hbreak⟩
    have hcut := hbreak ⟨.unclosedString, .start⟩
    obtain ⟨dot, number, hagree⟩ := agree_readFeed hf hlong rounds level ⟨.unclosedString, .start⟩
    rw [hcut] at hagree
    generalize readFeed (.ofLevel rounds level) f = result at hagree
    cases hagree with
    | same hne => exact absurd rfl (hne _)
    | long => rfl

end Feeds

end Grammar

/-! ## Whole texts -/

/-- Parsing a text takes its first `k` tokens: if the tokens break off behind them, with whatever
failure, parsing stops at the break. -/
def TakesTokens (limits : Limits) (source : String) (k : Nat) : Prop :=
  ∀ e, Grammar.readFeed (.ofLevel ((Feed.ofText source).tokens.length + 1) limits.nesting)
    ((Feed.ofText source).breakOff k e) = .error (.scan e)

/-- Parsing is given up for a long position exactly if it takes a dot and a number that is too
long. -/
theorem parse_longPosition_iff {limits : Limits} {source : String} {n : Nat} :
    parse source limits = .error (.longPosition n) ↔
      ∃ k, (Feed.ofText source).LongAt k n ∧ TakesTokens limits source (k + 2) := by
  unfold parse TakesTokens
  rw [← Grammar.readFeed_longPosition_iff (Feed.clean_ofText source), Grammar.parseFeed_eq]
  generalize Grammar.readFeed _ (Feed.ofText source) = result
  cases result with
  | error g => simp [Except.map]
  | ok p => simp [Except.map]

end Dee
