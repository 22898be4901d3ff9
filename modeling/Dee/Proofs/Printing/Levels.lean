import Dee.Grammar.Program
import Dee.Proofs.Printing.Reads
import Dee.Proofs.Program.Erased

/-!
# Precedence

The rules of expressions form a chain: the rule of each strength reads an operand by the rule of the
next one and then goes on in a loop. `ReadsAt` says that the rule of one strength takes given pieces
and is then in its loop with the expression that they stand for; whether the loop goes on is left to
what follows. So an operand on the left is read by the same loop that reads the operator, and an
expression that is stronger than its place is handed down from rule to rule.
-/

namespace Dee.Grammar

variable {S : Setting} {ps qs : List Piece} {p : Piece} {next follow : Token → Prop}

/-! ## What goes on with an expression -/

/-- Whether a token is the first of a call, an index, a member or a type check. -/
def isTrailer (t : Token) : Bool :=
  t.isSymbol .openParen || t.isSymbol .openBracket || t.isSymbol .dot || t.isKeyword .isKw

/-- Whether a token goes on with an expression by something of the given strength. -/
def continues : (strength : Nat) → Token → Bool
  | 1 => isLogicalOp
  | 2 => isComparisonOp
  | 3 => isSumOp
  | 4 => isProductOp
  | 6 => isTrailer
  | _ => fun _ => false

/-- A token goes on with nothing that is at least as strong. -/
def Stops (strength : Nat) (t : Token) : Prop :=
  ∀ j, strength ≤ j → continues j t = false

theorem Stops.mono {j k : Nat} {t : Token} (h : Stops j t) (hjk : j ≤ k) : Stops k t :=
  fun i hi => h i (Nat.le_trans hjk hi)

/-- The strength of what a meaning goes on with; zero if it goes on with nothing. -/
def lexemeStrength : Lexeme → Nat
  | .keyword .andKw | .keyword .orKw | .keyword .xorKw => 1
  | .symbol .less | .symbol .lessEqual | .symbol .greater | .symbol .greaterEqual => 2
  | .symbol .equal | .symbol .notEqual => 2
  | .symbol .plus | .symbol .minus => 3
  | .symbol .star | .symbol .slash => 4
  | .symbol .openParen | .symbol .openBracket | .symbol .dot | .keyword .isKw => 6
  | _ => 0

/-- A token goes on with something of one strength at most. -/
theorem continues_iff {j : Nat} {t : Token} :
    continues j t = true ↔ j ≠ 0 ∧ lexemeStrength t.lexeme = j := by
  constructor
  · intro h
    unfold continues at h
    split at h
    · simp only [isLogicalOp, Token.isKeyword, Bool.or_eq_true, decide_eq_true_iff] at h
      rcases h with (h | h) | h <;> rw [h] <;> exact ⟨by decide, rfl⟩
    · simp only [isComparisonOp, Token.isSymbol, Bool.or_eq_true, decide_eq_true_iff] at h
      rcases h with ((((h | h) | h) | h) | h) | h <;> rw [h] <;> exact ⟨by decide, rfl⟩
    · simp only [isSumOp, Token.isSymbol, Bool.or_eq_true, decide_eq_true_iff] at h
      rcases h with h | h <;> rw [h] <;> exact ⟨by decide, rfl⟩
    · simp only [isProductOp, Token.isSymbol, Bool.or_eq_true, decide_eq_true_iff] at h
      rcases h with h | h <;> rw [h] <;> exact ⟨by decide, rfl⟩
    · simp only [isTrailer, Token.isSymbol, Token.isKeyword, Bool.or_eq_true,
        decide_eq_true_iff] at h
      rcases h with ((h | h) | h) | h <;> rw [h] <;> exact ⟨by decide, rfl⟩
    · cases h
  · rintro ⟨hne, rfl⟩
    obtain ⟨lexeme, text, pos⟩ := t
    cases lexeme with
    | keyword k => cases k <;> first | rfl | exact absurd rfl hne
    | symbol s => cases s <;> first | rfl | exact absurd rfl hne
    | literal value => exact absurd rfl hne
    | name => exact absurd rfl hne
    | newline => exact absurd rfl hne
    | eof => exact absurd rfl hne

theorem stops_of_strength {t : Token} {k : Nat} (h : lexemeStrength t.lexeme < k) : Stops k t := by
  intro j hj
  rw [Bool.eq_false_iff]
  intro hcontinues
  have hstrength := (continues_iff.mp hcontinues).2
  omega

/-! ## The chain of rules -/

/-- The rule for expressions of at least the given strength. -/
def rule (r : Rules) : (strength : Nat) → Parser Expr
  | 0 => expression r
  | 1 => expression r
  | 2 => joined r.rounds isComparisonOp <| joined r.rounds isSumOp <|
      joined r.rounds isProductOp (unary r)
  | 3 => joined r.rounds isSumOp <| joined r.rounds isProductOp (unary r)
  | 4 => joined r.rounds isProductOp (unary r)
  | 5 => unary r
  | 6 => unary r
  | _ => primary r

/-- How the rule of a strength goes on behind what it has read. -/
def loop (r : Rules) : (strength : Nat) → (rounds : Nat) → Expr → Parser Expr
  | 1 => moreOperands isLogicalOp (rule r 2)
  | 2 => moreOperands isComparisonOp (rule r 3)
  | 3 => moreOperands isSumOp (rule r 4)
  | 4 => moreOperands isProductOp (rule r 5)
  | 6 => trailers r
  | _ => fun _ e => pure e

/-- The four strengths of binary operators have rules of one form. -/
theorem rule_eq_joined (r : Rules) {k : Nat} (hk : 1 ≤ k ∧ k ≤ 4) :
    rule r k = joined r.rounds (continues k) (rule r (k + 1)) ∧
      loop r k = moreOperands (continues k) (rule r (k + 1)) := by
  obtain ⟨hlow, hhigh⟩ := hk
  match k, hlow, hhigh with
  | 1, _, _ => exact ⟨rfl, rfl⟩
  | 2, _, _ => exact ⟨rfl, rfl⟩
  | 3, _, _ => exact ⟨rfl, rfl⟩
  | 4, _, _ => exact ⟨rfl, rfl⟩

/-- Takes one call, index, member or type check, which starts with the token `t`. -/
def trailer (r : Rules) (e : Expr) (t : Token) : Parser Expr :=
  match t.lexeme with
  | .symbol .openParen => do
    let _ ← advance
    let args ← bracketed r.rounds .closeParen .closeParen r.expression
    return .call t.pos e args
  | .symbol .openBracket => do
    let _ ← advance
    skipNewlines
    let index ← r.expression
    skipNewlines
    let _ ← expect (·.isSymbol .closeBracket) .closeBracket
    return .index t.pos e index
  | .symbol .dot => do
    let _ ← advance
    member e t
  | _ => do
    let _ ← advance
    let text ← indicator
    return .typeCheck t.pos e text

/-- The loop of calls, indices, members and type checks takes one after the other. -/
theorem trailers_succ (r : Rules) (rounds : Nat) (e : Expr) :
    trailers r (rounds + 1) e = (do
      let t ← current
      if isTrailer t then trailer r e t >>= trailers r rounds else return e) := by
  rw [trailers]
  refine bind_congr fun t => ?_
  cases hlex : t.lexeme with
  | symbol s =>
    cases s <;> simp [isTrailer, trailer, Token.isSymbol, Token.isKeyword, hlex]
  | keyword k =>
    cases k <;> simp [isTrailer, trailer, Token.isSymbol, Token.isKeyword, hlex]
  | literal v => simp [isTrailer, Token.isSymbol, Token.isKeyword, hlex]
  | name => simp [isTrailer, Token.isSymbol, Token.isKeyword, hlex]
  | newline => simp [isTrailer, Token.isSymbol, Token.isKeyword, hlex]
  | eof => simp [isTrailer, Token.isSymbol, Token.isKeyword, hlex]

/-- A loop stops at a token that does not go on. -/
theorem loop_stops (r : Rules) {k : Nat} (rounds : Nat) (e : Expr) {s : Stream}
    (h : continues k s.current = false) : loop r k (rounds + 1) e s = .ok (e, s) := by
  have hmore : ∀ (isOp : Token → Bool) (operand : Parser Expr), isOp s.current = false →
      moreOperands isOp operand (rounds + 1) e s = .ok (e, s) := by
    intro isOp operand hop
    rw [moreOperands]
    refine bind_eq_ok.mpr ⟨none, s, ?_, rfl⟩
    unfold accept
    refine bind_eq_ok.mpr ⟨s.current, s, rfl, ?_⟩
    rw [hop]
    rfl
  unfold loop
  split
  · exact hmore _ _ h
  · exact hmore _ _ h
  · exact hmore _ _ h
  · exact hmore _ _ h
  · rw [trailers_succ]
    refine bind_eq_ok.mpr ⟨s.current, s, rfl, ?_⟩
    have htrailer : isTrailer s.current = false := h
    rw [htrailer]
    rfl
  · rfl

/-! ## Reading up to a loop -/

/-- In front of the pieces, `x` takes them and is then in a loop with an expression that is `ok`.
Each piece has cost at most one round. -/
def Leads (S : Setting) (x : Parser Expr) (ps : List Piece) (next : Token → Prop)
    (loop : Nat → Expr → Parser Expr) (ok : Expr → Prop) : Prop :=
  ∀ ts rest, AreTokens ps ts → next (S.stream rest).current →
    ts.length + rest.length < S.rounds →
    ∃ e rounds, x (S.stream (ts ++ rest)) = loop rounds e (S.stream rest) ∧
      S.rounds ≤ rounds + ts.length ∧ ok e

variable {x : Parser Expr} {ok : Expr → Prop} {r : Rules} {e left right : Expr} {k n : Nat}

/-- Reading by the rule of a strength is reading up to its loop, which then stops. -/
theorem Leads.reads (h : Leads S x ps (Stops n) (loop r k) ok) :
    Reads S x ps (Stops (min n k)) ok := by
  intro ts rest hts hnext hlength
  obtain ⟨e, rounds, hx, hrounds, hok⟩ :=
    h ts rest hts (hnext.mono (Nat.min_le_left n k)) hlength
  obtain ⟨rounds, rfl⟩ : ∃ m, rounds = m + 1 := ⟨rounds - 1, by omega⟩
  refine ⟨e, ?_, hok⟩
  rw [hx]
  exact loop_stops r rounds e (hnext k (Nat.min_le_right n k))

/-- Where there is no loop, reading up to it is all. -/
theorem reads_iff_leads : Reads S x ps next ok ↔ Leads S x ps next (fun _ e => pure e) ok := by
  constructor
  · intro h ts rest hts hnext hlength
    obtain ⟨e, hx, hok⟩ := h ts rest hts hnext hlength
    exact ⟨e, S.rounds, hx, Nat.le_add_right _ _, hok⟩
  · intro h ts rest hts hnext hlength
    obtain ⟨e, rounds, hx, -, hok⟩ := h ts rest hts hnext hlength
    exact ⟨e, hx, hok⟩

/-- An operand is the first of those that a loop joins. -/
theorem Reads.leads_joined {isOp : Token → Bool} (h : Reads S x ps next ok) :
    Leads S (joined S.rounds isOp x) ps next (moreOperands isOp x) ok := by
  intro ts rest hts hnext hlength
  obtain ⟨e, hx, hok⟩ := h ts rest hts hnext hlength
  refine ⟨e, S.rounds, ?_, Nat.le_add_right _ _, hok⟩
  exact bind_of_ok hx

/-- No sign stands where something without a sign can be read. -/
theorem isUnaryOp_of_primary {r : Rules} {s s' : Stream} (h : primary r s = .ok (e, s')) :
    isUnaryOp s.current = false := by
  rw [Bool.eq_false_iff]
  intro hop
  simp only [isUnaryOp, Token.isSymbol, Token.isKeyword, Bool.or_eq_true, decide_eq_true_iff] at hop
  obtain ⟨t, s₁, ht, hs₁⟩ := bind_eq_ok.mp h
  obtain ⟨rfl, rfl⟩ := current_eq_ok.mp ht
  rcases hop with (hop | hop) | hop <;> rw [hop] at hs₁ <;> simp only [Token.isTypeWord, hop] at hs₁
  · exact failAt_ne_ok hs₁
  · exact failAt_ne_ok hs₁
  · exact failAt_ne_ok hs₁

theorem Reads.leads_unary (hr : r.rounds = S.rounds) (h : Reads S (primary r) ps next ok) :
    Leads S (unary r) ps next (trailers r) ok := by
  intro ts rest hts hnext hlength
  obtain ⟨e, hx, hok⟩ := h ts rest hts hnext hlength
  refine ⟨e, S.rounds, ?_, Nat.le_add_right _ _, hok⟩
  have hunary : unary r (S.stream (ts ++ rest)) =
      (primary r >>= trailers r r.rounds) (S.stream (ts ++ rest)) := by
    unfold unary
    show (if isUnaryOp (S.stream (ts ++ rest)).current then _ else _ : Parser Expr) _ = _
    rw [isUnaryOp_of_primary hx]
    rfl
  rw [hunary, hr]
  exact bind_of_ok hx

/-- What the rule of a strength reads, the rule before it reads up to its own loop. -/
theorem Reads.leads_rule (hr : r.rounds = S.rounds) (hk : k ≤ 6)
    (h : Reads S (rule r (k + 1)) ps next ok) : Leads S (rule r k) ps next (loop r k) ok := by
  by_cases hbinary : 1 ≤ k ∧ k ≤ 4
  · obtain ⟨hrule, hloop⟩ := rule_eq_joined r hbinary
    rw [hrule, hloop, hr]
    exact h.leads_joined
  · match k, hk, hbinary, h with
    | 0, _, _, h => exact reads_iff_leads.mp h
    | 5, _, _, h => exact reads_iff_leads.mp h
    | 6, _, _, h => exact h.leads_unary hr

/-! ## Places of a strength -/

/-- The rule of strength `k` takes the pieces as an expression and is then in its loop, if what
follows is weaker than `n`. -/
def ReadsAt (S : Setting) (r : Rules) (ps : List Piece) (e : Expr) (k n : Nat) : Prop :=
  Leads S (rule r k) ps (Stops n) (loop r k) fun e' => e'.erase = e.erase

/-- Every rule before the one of an expression reads it too. -/
theorem ReadsAt.descend (hr : r.rounds = S.rounds) {j : Nat} (hjk : j ≤ k) (hk : k ≤ 7)
    (hn : n ≤ k + 1) (h : ReadsAt S r ps e k n) : ReadsAt S r ps e j (min n (j + 1)) := by
  obtain ⟨steps, rfl⟩ := Nat.exists_eq_add_of_le hjk
  induction steps generalizing n with
  | zero =>
    rw [Nat.add_zero] at h hn
    rwa [Nat.min_eq_left hn]
  | succ steps ih =>
    have hstep : ReadsAt S r ps e (j + steps) (min n (j + steps + 1)) :=
      (Leads.reads h).leads_rule hr (by omega)
    have hj := ih (Nat.le_add_right _ _) (by omega) (Nat.min_le_right _ _) hstep
    rwa [Nat.min_assoc, Nat.min_eq_right (by omega : j + 1 ≤ j + steps + 1)] at hj

/-- An expression of some strength is read as a whole, if nothing goes on with it. -/
theorem ReadsAt.expression (hr : r.rounds = S.rounds) (hk : k ≤ 7) (hn : n ≤ k + 1) (hn' : 1 ≤ n)
    (h : ReadsAt S r ps e k n) :
    Reads S (expression r) ps (Stops 1) fun e' => e'.erase = e.erase := by
  have hzero := h.descend hr (Nat.zero_le k) hk hn
  rw [Nat.zero_add, Nat.min_eq_right hn'] at hzero
  exact reads_iff_leads.mpr hzero

/-- What stands by itself is read as a primary expression. -/
theorem readsAt_primary (h : Reads S (primary r) ps (Stops n) fun e' => e'.erase = e.erase) :
    ReadsAt S r ps e 7 n :=
  reads_iff_leads.mp h

/-- A binary operator goes on with its left operand in the loop of its strength. -/
theorem ReadsAt.binary (hk : 1 ≤ k ∧ k ≤ 4) {op : String} (pos : Pos)
    (hop : ∀ t, (Piece.operator op).IsToken t → continues k t = true ∧ Stops (k + 1) t)
    (hleft : ReadsAt S r ps left k (k + 1)) (hright : ReadsAt S r qs right (k + 1) (k + 2)) :
    ReadsAt S r (ps ++ .operator op :: qs) (.binary pos op left right) k (k + 1) := by
  intro ts rest hts hnext hlength
  obtain ⟨us, vs, hus, hvs, rfl⟩ := areTokens_append hts
  cases hvs with
  | @cons _ t _ vs ht hvs =>
    rw [List.length_append, List.length_cons] at hlength
    obtain ⟨hcontinues, hstops⟩ := hop t ht
    obtain ⟨l, rounds, hl, hrounds, hlok⟩ := hleft us (t :: (vs ++ rest)) hus hstops
      (by rw [List.length_cons, List.length_append]; omega)
    obtain ⟨rounds, rfl⟩ : ∃ m, rounds = m + 1 := ⟨rounds - 1, by omega⟩
    -- The right operand is read as a whole: only what is weaker than it may follow.
    have hoperand : Reads S (rule r (k + 1)) qs (Stops (k + 1)) fun e' =>
        e'.erase = right.erase := by
      have := Leads.reads hright
      rwa [Nat.min_eq_right (Nat.le_succ _)] at this
    obtain ⟨q, hq, hqok⟩ := hoperand vs rest hvs hnext (by omega)
    refine ⟨.binary t.pos t.text l q, rounds, ?_, ?_, ?_⟩
    · rw [List.append_assoc, List.cons_append, hl, (rule_eq_joined r hk).2, moreOperands,
        bind_of_ok (accept_stream ht hcontinues (vs ++ rest))]
      exact bind_of_ok hq
    · rw [List.length_append, List.length_cons]
      omega
    · simp only [Expr.erase, hlok, hqok, ht.2]

/-- A call, an index, a member or a type check goes on with its base. -/
theorem ReadsAt.trailer {e' : Expr} (hp : ∀ t, p.IsToken t → isTrailer t = true)
    (hbase : ReadsAt S r ps e 6 7)
    (htrailer : ∀ base t, base.erase = e.erase → p.IsToken t →
      Reads S (trailer r base t) (p :: qs) (fun _ => True) fun e₁ => e₁.erase = e'.erase) :
    ReadsAt S r (ps ++ p :: qs) e' 6 7 := by
  intro ts rest hts hnext hlength
  obtain ⟨us, vs, hus, hvs, rfl⟩ := areTokens_append hts
  have hvs' := hvs
  cases hvs' with
  | @cons _ t _ vs ht _ =>
    rw [List.length_append, List.length_cons] at hlength
    have hstops : Stops 7 t := by
      intro j hj
      match j, hj with
      | j + 7, _ => rfl
    obtain ⟨base, rounds, hb, hrounds, hbok⟩ := hbase us (t :: vs ++ rest) hus hstops
      (by rw [List.length_append, List.length_cons]; omega)
    obtain ⟨rounds, rfl⟩ : ∃ m, rounds = m + 1 := ⟨rounds - 1, by omega⟩
    obtain ⟨e₁, he₁, hok⟩ := htrailer base t hbok ht (t :: vs) rest hvs trivial
      (by rw [List.length_cons]; omega)
    refine ⟨e₁, rounds, ?_, ?_, hok⟩
    · have hloop : loop r 6 (rounds + 1) base (S.stream (t :: vs ++ rest)) =
          (Grammar.trailer r base t >>= trailers r rounds) (S.stream (t :: vs ++ rest)) := by
        show trailers r (rounds + 1) base _ = _
        rw [trailers_succ, bind_of_ok (current_eq_ok.mpr ⟨rfl, rfl⟩)]
        show (if isTrailer t then _ else _ : Parser Expr) _ = _
        rw [hp t ht]
        rfl
      rw [List.append_assoc, hb, hloop]
      exact bind_of_ok he₁
    · rw [List.length_append, List.length_cons]
      omega

/-- A sign takes an operand that is at least as strong. -/
theorem readsAt_unary {op : String} (pos : Pos)
    (hop : ∀ t, (Piece.operator op).IsToken t → isUnaryOp t = true)
    (h : Reads S r.operand ps (Stops 6) fun e' => e'.erase = e.erase) :
    ReadsAt S r (.operator op :: ps) (.unary pos op e) 5 6 := by
  refine reads_iff_leads.mp ?_
  show Reads S (Grammar.unary r) _ _ _
  unfold Grammar.unary
  refine reads_current_bind fun t ht => ?_
  rw [hop t ht, if_pos rfl]
  refine Reads.bind_cons reads_advance fun _ _ => ?_
  refine h.bind_pure fun e' he' => ?_
  have htext : t.text = op := ht.2
  simp only [Expr.erase, htext, he']

/-- An expression in parentheses is as strong as can be. -/
theorem readsAt_parenthesized (h : Reads S r.expression ps (Stops 1) fun e' => e'.erase = e.erase)
    (hhead : Heads ps fun t => t.isNewline = false) :
    ReadsAt S r (.symbol .openParen :: (ps ++ [.symbol .closeParen])) e 7 8 := by
  refine readsAt_primary ?_
  unfold primary
  refine reads_current_bind fun t ht => ?_
  have hlexeme : t.lexeme = .symbol .openParen := ht
  have hclose : ∀ u, Opens [Piece.symbol .closeParen] (Stops 8) u →
      u.lexeme = .symbol .closeParen :=
    fun u hu => hu
  simp only [hlexeme]
  refine Reads.bind_cons reads_advance fun _ _ => ?_
  refine Reads.bind_nil (reads_skipWhile_none hhead.opens) fun _ _ => ?_
  refine Reads.bind (h.before fun u hu => stops_of_strength ?_) fun e' he' => ?_
  · rw [hclose u hu]
    decide
  · refine Reads.bind_nil (reads_skipWhile_none fun u hu => ?_) fun _ _ => ?_
    · exact decide_eq_false (by rw [hclose u hu]; nofun)
    · refine Reads.bind_cons (reads_expect fun u hu => isSymbol_of_lexeme hu) fun _ _ => ?_
      exact reads_pure he'

end Dee.Grammar
