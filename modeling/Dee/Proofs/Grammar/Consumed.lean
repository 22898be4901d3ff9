import Dee.Proofs.Grammar.Blames
import Dee.Proofs.Grammar.Position
import Dee.Proofs.Token.Before

/-!
# Scanning while parsing

The parser scans the text as it goes, and so it meets a failure of the scan only when it gets there.
What it fails with is nevertheless settled by the scan of the whole text: a text that can be scanned
never fails for the scan, and a text that cannot be scanned fails at the failure of its scan or
before it.

A program is read to its end. The proof runs the parser on tokens that break off, beside the run on
all tokens (`Breaks`): as long as it does not meet the break it does the same on both, so a parser
that came through without all tokens would have found an end where there is none.

Main statement: `scan_while_parsing`.
-/

namespace Dee

namespace Grammar

variable {α β : Type} {e : Located LexError} {s₁ s₂ : Stream}

/-! ## Tokens that break off -/

/-- Two streams with the same tokens, up to where the first one breaks off. -/
inductive Cut (e : Located LexError) : Stream → Stream → Prop
  | intro (t : Token) (rest back : List Token) (ending : Except (Located LexError) Token) :
    Cut e ⟨t, rest, .error e⟩ ⟨t, rest ++ back, ending⟩

/-- What a parser gives on two such streams: the same, unless it meets the break. -/
inductive Mirrors (e : Located LexError) {α : Type} :
    Except Failure (α × Stream) → Except Failure (α × Stream) → Prop
  | broken (result : Except Failure (α × Stream)) : Mirrors e (.error (.scan e)) result
  | ok (a : α) {s₁ s₂ : Stream} (h : Cut e s₁ s₂) : Mirrors e (.ok (a, s₁)) (.ok (a, s₂))
  | same (g : Failure) : Mirrors e (.error g) (.error g)

/-- On tokens that break off, a parser meets the break or does the same as on all tokens. -/
def Breaks (e : Located LexError) {α : Type} (x : Parser α) : Prop :=
  ∀ s₁ s₂, Cut e s₁ s₂ → Mirrors e (x s₁) (x s₂)

theorem Cut.current (h : Cut e s₁ s₂) : s₂.current = s₁.current := by
  cases h
  rfl

theorem Cut.tail (h : Cut e s₁ s₂) :
    s₁.tail = .error (.scan e) ∨
      ∃ s₁' s₂', s₁.tail = .ok s₁' ∧ s₂.tail = .ok s₂' ∧ Cut e s₁' s₂' := by
  obtain ⟨t, rest, back, ending⟩ := h
  cases rest with
  | nil => exact Or.inl rfl
  | cons next rest => exact Or.inr ⟨_, _, rfl, rfl, .intro next rest back ending⟩

theorem breaks_pure (a : α) : Breaks e (pure a : Parser α) :=
  fun _ _ hs => .ok a hs

theorem breaks_throw (g : Failure) : Breaks e (throw g : Parser α) :=
  fun _ _ _ => .same g

theorem Breaks.bind {x : Parser α} {g : α → Parser β} (hx : Breaks e x) (hg : ∀ a, Breaks e (g a)) :
    Breaks e (x >>= g) := by
  intro s₁ s₂ hs
  show Mirrors e (x s₁ >>= fun p => g p.1 p.2) (x s₂ >>= fun p => g p.1 p.2)
  have hmirrors := hx s₁ s₂ hs
  generalize x s₁ = result₁ at hmirrors ⊢
  generalize x s₂ = result₂ at hmirrors ⊢
  cases hmirrors with
  | broken => exact .broken _
  | ok a hs' => exact hg a _ _ hs'
  | same g => exact .same g

theorem breaks_current_bind {g : Token → Parser β} (hg : ∀ t, Breaks e (g t)) :
    Breaks e (current >>= g) := by
  intro s₁ s₂ hs
  show Mirrors e (g s₁.current s₁) (g s₂.current s₂)
  rw [hs.current]
  exact hg s₁.current s₁ s₂ hs

theorem breaks_advance : Breaks e advance := by
  intro s₁ s₂ hs
  unfold advance
  rw [hs.current]
  split
  · exact .ok _ hs
  · rcases hs.tail with htail | ⟨s₁', s₂', htail₁, htail₂, hs'⟩
    · rw [htail]
      exact .broken _
    · rw [htail₁, htail₂]
      exact .ok _ hs'

theorem breaks_skipWhile (test : Token → Bool) : Breaks e (skipWhile test) := by
  -- The induction is on the tokens before the break.
  have key : ∀ (rest : List Token) (t : Token) (back : List Token)
      (ending : Except (Located LexError) Token),
      Stream.skipFrom test (.error e) t rest = .error (.scan e) ∨
        ∃ s₁' s₂', Stream.skipFrom test (.error e) t rest = .ok s₁' ∧
          Stream.skipFrom test ending t (rest ++ back) = .ok s₂' ∧ Cut e s₁' s₂' := by
    intro rest
    induction rest with
    | nil =>
      intro t back ending
      unfold Stream.skipFrom
      by_cases ht : test t = true
      · rw [if_pos ht]
        exact Or.inl rfl
      · refine Or.inr ⟨⟨t, [], .error e⟩, ⟨t, back, ending⟩, if_neg ht, ?_, .intro t [] back ending⟩
        cases back <;> exact if_neg ht
    | cons next rest ih =>
      intro t back ending
      simp only [List.cons_append, Stream.skipFrom]
      split
      · exact ih next back ending
      · exact Or.inr ⟨_, _, rfl, rfl, .intro t (next :: rest) back ending⟩
  intro s₁ s₂ hs
  obtain ⟨t, rest, back, ending⟩ := hs
  unfold skipWhile
  rcases key rest t back ending with hskip | ⟨s₁', s₂', hskip₁, hskip₂, hs'⟩
  · rw [hskip]
    exact .broken _
  · rw [hskip₁, hskip₂]
    exact .ok () hs'

theorem breaks_position (ds : List Char) : Breaks e (position ds) := by
  unfold position
  split
  · exact breaks_throw _
  · exact breaks_pure _

theorem breaks_member (target : Expr) (dot : Token) : Breaks e (member target dot) := by
  unfold member
  refine breaks_current_bind fun t => ?_
  split
  next => exact breaks_advance.bind fun _ => breaks_pure _
  next => exact breaks_advance.bind fun _ => (breaks_position _).bind fun _ => breaks_pure _
  next =>
    refine breaks_advance.bind fun _ => (breaks_position _).bind fun _ => ?_
    exact (breaks_position _).bind fun _ => breaks_pure _
  next => split <;> exact breaks_throw _

theorem compositional_breaks (e : Located LexError) : Compositional fun _ x => Breaks e x where
  weaken h := h
  pure := breaks_pure
  tooDeep := breaks_throw _
  failAt _ _ := breaks_throw _
  bind hx hg := hx.bind hg
  current := breaks_current_bind
  advance _ := breaks_advance
  skipWhile _ := breaks_skipWhile _
  access target t _ := breaks_advance.bind fun _ => breaks_member target t

/-! ## Whole feeds -/

variable {f : Feed} {rounds level : Nat}

/-- Reading on tokens that break off meets the break or does the same as on all tokens. -/
theorem mirrors_readFeed (f : Feed) (rounds level k : Nat) (e : Located LexError) :
    Mirrors e (readFeed (.ofLevel rounds level) (f.breakOff k e))
      (readFeed (.ofLevel rounds level) f) := by
  obtain ⟨tokens, ending⟩ := f
  have hsplit := List.take_append_drop k tokens
  have hc := compositional_breaks e
  unfold Feed.breakOff
  dsimp only
  generalize tokens.take k = front at hsplit ⊢
  generalize tokens.drop k = back at hsplit
  subst hsplit
  cases front with
  | nil => exact .broken _
  | cons t rest =>
    exact hc.statements (hc.ofLevel rounds level) .file _ _ (.intro t rest back ending)

/-- Reading that succeeds leaves nothing but the end. -/
theorem atEnd_of_readFeed (hf : f.Clean) {ss : List Stmt} {s : Stream}
    (h : readFeed (.ofLevel rounds level) f = .ok (ss, s)) :
    ∃ eof, f.ending = .ok eof ∧ s = ⟨eof, [], .ok eof⟩ := by
  have hc := compositional_traces f
  unfold readFeed at h
  cases hs : Stream.ofFeed f with
  | error g =>
    rw [hs] at h
    cases h
  | ok s₀ =>
    rw [hs] at h
    change statements (.ofLevel rounds level) .file s₀ = .ok (ss, s) at h
    have htraced :=
      hc.statements (hc.ofLevel rounds level) .file s₀ (Stream.Within.ofFeed hf hs).1 trivial
    rw [h] at htraced
    obtain ⟨_, s₁, -, hmore⟩ := bind_eq_ok.mp h
    have heof := isEof_of_moreStatements hmore
    cases htraced with
    | ok _ hwithin =>
      rcases hwithin.place with hplace | ⟨hrest, hend⟩
      · -- No token of the text but its end stands for the end.
        rw [(hf.tokens _ (hplace.subset List.mem_cons_self)).1] at heof
        cases heof
      · obtain ⟨current, rest, ending⟩ := s
        refine ⟨current, hend, ?_⟩
        rw [show rest = [] from hrest, show ending = f.ending from hwithin.ending, hend]

end Grammar

/-! ## Whole texts -/

section Texts

variable {limits : Limits} {source : String}

/-- The rules that a text is read by. -/
abbrev textRules (limits : Limits) (source : String) : Grammar.Rules :=
  .ofLevel ((Feed.ofText source).tokens.length + 1) limits.nesting

/-- A text that is read as a program is read to its end. -/
theorem atEnd_of_parse {p : Program} (h : parse source limits = .ok p) :
    ∃ eof, (Feed.ofText source).ending = .ok eof ∧
      Grammar.readFeed (textRules limits source) (Feed.ofText source) =
        .ok (p.statements, ⟨eof, [], .ok eof⟩) := by
  unfold parse at h
  rw [Grammar.parseFeed_eq] at h
  cases hread : Grammar.readFeed (textRules limits source) (Feed.ofText source) with
  | error g =>
    rw [hread] at h
    cases h
  | ok result =>
    obtain ⟨ss, s⟩ := result
    obtain ⟨eof, hend, rfl⟩ := Grammar.atEnd_of_readFeed (Feed.clean_ofText source) hread
    rw [hread] at h
    cases h
    exact ⟨eof, hend, rfl⟩

/-- Wherever the tokens of such a text break off, parsing meets the break. -/
theorem takesTokens_of_parse {p : Program} (h : parse source limits = .ok p) (k : Nat) :
    TakesTokens limits source k := by
  obtain ⟨eof, -, hread⟩ := atEnd_of_parse h
  intro e
  have hmirrors := Grammar.mirrors_readFeed (Feed.ofText source)
    ((Feed.ofText source).tokens.length + 1) limits.nesting k e
  rw [hread] at hmirrors
  generalize hcut : Grammar.readFeed _ ((Feed.ofText source).breakOff k e) = result at hmirrors ⊢
  cases hmirrors with
  | broken => rfl
  | ok _ hs =>
    -- Reading would have come to an end, but tokens that break off have none.
    obtain ⟨_, hend, -⟩ := Grammar.atEnd_of_readFeed
      (Grammar.clean_breakOff (Feed.clean_ofText source) e) hcut
    cases hend

theorem tokenize_eq_ok {tokens : List Token} :
    tokenize source = .ok tokens ↔
      ∃ eof, (Feed.ofText source).ending = .ok eof ∧
        tokens = (Feed.ofText source).tokens ++ [eof] := by
  unfold tokenize Feed.toTokens
  cases (Feed.ofText source).ending with
  | error e => simp [Except.map]
  | ok eof => simp [Except.map, eq_comm]

theorem tokenize_eq_error {e : Located LexError} :
    tokenize source = .error e ↔ (Feed.ofText source).ending = .error e := by
  unfold tokenize Feed.toTokens
  cases (Feed.ofText source).ending with
  | error e' => simp [Except.map]
  | ok eof => simp [Except.map]

/-- What a parser may fail with on a text whose scan fails. -/
inductive Grammar.Failure.Foreseen (source : String) (e : Located LexError) : Grammar.Failure → Prop
  /-- The failure of the scan itself. -/
  | scan : Foreseen source e (.scan e)
  /-- A failure of parsing before it. -/
  | parse (fault : Located Grammar.ParseError) (hpos : fault.pos.Before e.pos) :
    Foreseen source e (.parse fault)
  /-- A number before it that is too long for the position of a member. -/
  | longPosition {n : Nat} (number : Token) (hmem : number ∈ (Feed.ofText source).tokens)
    (hlong : number.longPart? = some n) (hpos : number.pos.Before e.pos) :
    Foreseen source e (.longPosition n)

/-- A text whose scan fails is not parsed, for a reason that lies there or before. -/
theorem foreseen_of_failure {e : Located LexError}
    (hnesting : parse source limits ≠ .error .tooDeep)
    (h : (Feed.ofText source).ending = .error e) :
    ∃ g, parse source limits = .error g ∧ g.Foreseen source e := by
  have hbefore := Feed.before_failure h
  cases hparse : parse source limits with
  | ok p =>
    obtain ⟨eof, hend, -⟩ := atEnd_of_parse hparse
    rw [h] at hend
    cases hend
  | error g =>
    refine ⟨g, rfl, ?_⟩
    have hblames : g.Blames (fun t => t.pos.Before e.pos) (· = e) := by
      refine (Grammar.blames_parseFeed hbefore ?_ ?_ _).1 g hparse
      · intro t ht
        rw [h] at ht
        cases ht
      · intro e' he'
        rw [h] at he'
        cases he'
        rfl
    cases g with
    | scan e' =>
      cases hblames
      exact .scan
    | parse fault =>
      obtain ⟨t, ht, hpos⟩ := hblames
      exact .parse fault (hpos ▸ ht)
    | tooDeep => exact absurd hparse hnesting
    | longPosition n =>
      obtain ⟨k, ⟨dot, number, -, hnumber, -, hlong, -⟩, -⟩ := parse_longPosition_iff.mp hparse
      have hmem := List.mem_of_getElem? hnumber
      exact .longPosition number hmem hlong (hbefore number hmem)

/-- A text that can be scanned is not refused for its scan. -/
theorem parse_ne_scan {eof : Token} (h : (Feed.ofText source).ending = .ok eof)
    (e : Located LexError) :
    parse source limits ≠ .error (.scan e) := by
  intro hparse
  refine (Grammar.blames_parseFeed (T := fun _ => True) (E := fun _ => False) (fun _ _ => trivial)
    (fun _ _ => trivial) ?_ _).1 _ hparse
  intro e' he'
  rw [h] at he'
  cases he'

/-- Scanning while parsing and scanning the whole text agree on failures. Take a text that is not
nested too deeply. If all of it can be scanned, parsing never fails for the scan. If its scan fails,
parsing fails: with that very failure, with a failure of parsing that lies strictly before it, or at
a number strictly before it that is too long for the position of a member. A text that is parsed can
be scanned, and is read to its end: parsing stops at the end with no token left, and wherever the
tokens break off, it meets the break. -/
theorem scan_while_parsing (source : String) (hnesting : parse source limits ≠ .error .tooDeep) :
    (∀ tokens, tokenize source = .ok tokens → ∀ e, parse source limits ≠ .error (.scan e)) ∧
    (∀ e, tokenize source = .error e → ∃ g, parse source limits = .error g ∧ g.Foreseen source e) ∧
    (∀ p, parse source limits = .ok p → ∃ tokens eof, tokenize source = .ok (tokens ++ [eof]) ∧
      eof.isEof = true ∧
      Grammar.readFeed (textRules limits source) (Feed.ofText source) =
        .ok (p.statements, ⟨eof, [], .ok eof⟩) ∧
      ∀ k, TakesTokens limits source k) := by
  refine ⟨?_, ?_, ?_⟩
  · intro tokens htokens e
    obtain ⟨eof, hend, -⟩ := tokenize_eq_ok.mp htokens
    exact parse_ne_scan hend e
  · intro e he
    exact foreseen_of_failure hnesting (tokenize_eq_error.mp he)
  · intro p hparse
    obtain ⟨eof, hend, hread⟩ := atEnd_of_parse hparse
    exact ⟨(Feed.ofText source).tokens, eof, tokenize_eq_ok.mpr ⟨eof, hend, rfl⟩,
      (Feed.clean_ofText source).ending eof hend, hread, takesTokens_of_parse hparse⟩

/-- The third token is refused before the scan gets to the character that starts none. Without it,
parsing takes the second token and meets that character. -/
theorem scan_while_parsing_either_failure :
    (∃ e fault, tokenize "print 1 2 @" = .error e ∧ parse "print 1 2 @" = .error (.parse fault) ∧
      fault.pos.Before e.pos) ∧
    ∃ e, tokenize "print 1 @" = .error e ∧ parse "print 1 @" = .error (.scan e) := by
  constructor
  · have heval : (match tokenize "print 1 2 @", parse "print 1 2 @" with
        | .error _, .error (.parse _) => true
        | _, _ => false) = true := by
      decide +kernel
    split at heval
    next e fault he hparse =>
      have hnesting : parse "print 1 2 @" ≠ .error .tooDeep := by simp [hparse]
      obtain ⟨g, hg, hforeseen⟩ := (scan_while_parsing _ hnesting).2.1 e he
      cases hparse.symm.trans hg
      cases hforeseen with
      | parse _ hpos => exact ⟨e, fault, he, hparse, hpos⟩
    next => cases heval
  · have heval : (match tokenize "print 1 @", parse "print 1 @" with
        | .error _, .error (.scan _) => true
        | _, _ => false) = true := by
      decide +kernel
    split at heval
    next e e' he hparse =>
      have hnesting : parse "print 1 @" ≠ .error .tooDeep := by simp [hparse]
      obtain ⟨g, hg, hforeseen⟩ := (scan_while_parsing _ hnesting).2.1 e he
      cases hparse.symm.trans hg
      cases hforeseen with
      | scan => exact ⟨e, he, hparse⟩
    next => cases heval

end Texts

end Dee
