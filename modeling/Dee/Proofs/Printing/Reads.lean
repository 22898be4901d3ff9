import Dee.Proofs.Grammar.Gives
import Dee.Proofs.Printing.Spelled

/-!
# Parsers on printed pieces

`Reads S x ps next ok` says of the parser `x`: in front of the pieces `ps`, behind which a token
with `next` stands, it takes exactly these pieces and gives a result that is `ok`. The lemmas follow
the ways in which parsers are put together.
-/

namespace Dee.Grammar

variable {α β γ : Type}

/-! ## Streams of pieces -/

/-- What all streams of one text share: the token at their end, and the bound on rounds, which
exceeds the number of tokens. -/
structure Setting where
  eof : Token
  rounds : Nat

/-- The stream of the tokens that are left. -/
def Setting.stream (S : Setting) : List Token → Stream
  | [] => ⟨S.eof, [], .ok S.eof⟩
  | t :: rest => ⟨t, rest, .ok S.eof⟩

/-- Tokens are pieces, one by one. -/
abbrev AreTokens (ps : List Piece) (ts : List Token) : Prop :=
  List.Forall₂ (fun p t => p.IsToken t) ps ts

/-- What a token satisfies that stands first: it is the first piece, or it has `next` if there is
none. -/
def Opens (ps : List Piece) (next : Token → Prop) : Token → Prop :=
  match ps with
  | [] => next
  | p :: _ => fun t => p.IsToken t

variable {S : Setting} {ps qs : List Piece} {p : Piece} {next follow : Token → Prop}

theorem opens_current {ts rest : List Token} (h : AreTokens ps ts)
    (hnext : next (S.stream rest).current) : Opens ps next (S.stream (ts ++ rest)).current := by
  cases h with
  | nil => exact hnext
  | cons hp _ => exact hp

theorem areTokens_append {ts : List Token} (h : AreTokens (ps ++ qs) ts) :
    ∃ us vs, AreTokens ps us ∧ AreTokens qs vs ∧ ts = us ++ vs := by
  induction ps generalizing ts with
  | nil => exact ⟨[], ts, .nil, h, rfl⟩
  | cons p ps ih =>
    cases h with
    | cons hp hrest =>
      obtain ⟨us, vs, hus, hvs, rfl⟩ := ih hrest
      exact ⟨_ :: us, vs, .cons hp hus, hvs, rfl⟩

/-- No piece is the end of the text. -/
theorem isEof_of_isToken {t : Token} (h : p.IsToken t) : t.isEof = false := by
  refine decide_eq_false ?_
  intro heof
  cases p with
  | literal value => cases heof.symm.trans h
  | position index =>
    obtain ⟨⟨n, hn⟩, -⟩ := h
    cases heof.symm.trans hn
  | name text => cases heof.symm.trans h.1
  | keyword k => cases heof.symm.trans h
  | symbol s => cases heof.symm.trans h
  | operator text => exact ofOperator_ne_eof text (h.1.symm.trans heof)
  | indicator text =>
    have hword := h.1
    simp [isIndicatorWord, Token.isTypeWord, Token.isKeyword, heof] at hword
  | separator =>
    have hseparator : t.isSeparator = true := h
    simp [Token.isSeparator, Token.isNewline, Token.isSymbol, heof] at hseparator
  | bodyArrow =>
    rcases h with h | h
    · cases heof.symm.trans h
    · cases heof.symm.trans h

/-! ## Reading -/

/-- What follows a parser runs on what the parser leaves. -/
theorem bind_of_ok {x : Parser α} {f : α → Parser β} {a : α} {s s' : Stream}
    (h : x s = .ok (a, s')) : (x >>= f) s = f a s' := by
  show (x s >>= fun q => f q.1 q.2) = f a s'
  rw [h]
  rfl

/-- In front of the pieces, `x` takes them and no more, with a result that is `ok`. -/
def Reads (S : Setting) (x : Parser α) (ps : List Piece) (next : Token → Prop) (ok : α → Prop) :
    Prop :=
  ∀ ts rest, AreTokens ps ts → next (S.stream rest).current →
    ts.length + rest.length < S.rounds →
    ∃ a, x (S.stream (ts ++ rest)) = .ok (a, S.stream rest) ∧ ok a

variable {x : Parser α} {f : α → Parser β} {ok : α → Prop}

theorem Reads.before (h : Reads S x ps follow ok) (himp : ∀ t, next t → follow t) :
    Reads S x ps next ok := by
  intro ts rest hts hnext hlength
  exact h ts rest hts (himp _ hnext) hlength

theorem Reads.mono {ok' : α → Prop} (h : Reads S x ps next ok) (himp : ∀ a, ok a → ok' a) :
    Reads S x ps next ok' := by
  intro ts rest hts hnext hlength
  obtain ⟨a, ha, hok⟩ := h ts rest hts hnext hlength
  exact ⟨a, ha, himp a hok⟩

/-- The bound on rounds exceeds the number of pieces. -/
theorem Reads.of_length (h : ps.length < S.rounds → Reads S x ps next ok) :
    Reads S x ps next ok := by
  intro ts rest hts hnext hlength
  have hpieces : ps.length = ts.length := hts.length_eq
  exact h (by omega) ts rest hts hnext hlength

theorem reads_pure {a : α} (h : ok a) : Reads S (pure a) [] next ok := by
  intro ts rest hts _ _
  cases hts
  exact ⟨a, rfl, h⟩

/-- What follows a parser reads the pieces that the parser leaves. -/
theorem Reads.bind {good : β → Prop} (hx : Reads S x ps (Opens qs next) ok)
    (hf : ∀ a, ok a → Reads S (f a) qs next good) : Reads S (x >>= f) (ps ++ qs) next good := by
  intro ts rest hts hnext hlength
  obtain ⟨us, vs, hus, hvs, rfl⟩ := areTokens_append hts
  rw [List.length_append] at hlength
  obtain ⟨a, ha, hok⟩ := hx us (vs ++ rest) hus (opens_current hvs hnext)
    (by rw [List.length_append]; omega)
  obtain ⟨b, hb, hgood⟩ := hf a hok vs rest hvs hnext (by omega)
  refine ⟨b, ?_, hgood⟩
  rw [List.append_assoc]
  exact bind_eq_ok.mpr ⟨a, _, ha, hb⟩

/-- A parser that takes one piece, and what follows it. -/
theorem Reads.bind_cons {good : β → Prop} (hx : Reads S x [p] (Opens qs next) ok)
    (hf : ∀ a, ok a → Reads S (f a) qs next good) : Reads S (x >>= f) (p :: qs) next good :=
  Reads.bind hx hf

/-- A parser that takes nothing, and what follows it. -/
theorem Reads.bind_nil {good : β → Prop} (hx : Reads S x [] (Opens ps next) ok)
    (hf : ∀ a, ok a → Reads S (f a) ps next good) : Reads S (x >>= f) ps next good :=
  Reads.bind hx hf

/-- A parser that takes all pieces, and what follows it. -/
theorem Reads.bind_last {good : β → Prop} (hx : Reads S x ps next ok)
    (hf : ∀ a, ok a → Reads S (f a) [] next good) : Reads S (x >>= f) ps next good := by
  rw [← List.append_nil ps]
  exact Reads.bind hx hf

/-- A parser that takes all pieces, and a result made of what it gives. -/
theorem Reads.bind_pure {g : α → β} {good : β → Prop} (hx : Reads S x ps next ok)
    (hg : ∀ a, ok a → good (g a)) : Reads S (x >>= fun a => pure (g a)) ps next good :=
  hx.bind_last fun a ha => reads_pure (hg a ha)

/-- Looking at the current token: it is the first piece. -/
theorem reads_current_bind {f : Token → Parser β} {good : β → Prop}
    (hf : ∀ t, Opens ps next t → Reads S (f t) ps next good) :
    Reads S (current >>= f) ps next good := by
  intro ts rest hts hnext hlength
  obtain ⟨b, hb, hgood⟩ := hf _ (opens_current hts hnext) ts rest hts hnext hlength
  exact ⟨b, bind_eq_ok.mpr ⟨_, _, rfl, hb⟩, hgood⟩

/-- Taking a piece leaves the tokens behind it. -/
theorem advance_stream {t : Token} (h : p.IsToken t) (rest : List Token) :
    advance (S.stream (t :: rest)) = .ok (t, S.stream rest) := by
  have heof : (S.stream (t :: rest)).current.isEof = false := isEof_of_isToken h
  unfold advance
  rw [heof]
  cases rest <;> rfl

theorem reads_advance : Reads S advance [p] next fun t => p.IsToken t := by
  intro ts rest hts _ _
  cases hts with
  | @cons _ t _ us hp hus =>
    cases hus
    exact ⟨t, advance_stream hp rest, hp⟩

theorem accept_stream {test : Token → Bool} {t : Token} (h : p.IsToken t) (htest : test t = true)
    (rest : List Token) : accept test (S.stream (t :: rest)) = .ok (some t, S.stream rest) := by
  unfold accept
  rw [bind_of_ok (current_eq_ok.mpr ⟨rfl, rfl⟩)]
  show (if test t then _ else _ : Parser (Option Token)) _ = _
  rw [htest, if_pos rfl]
  exact bind_of_ok (advance_stream h rest)

theorem reads_accept {test : Token → Bool} (htest : ∀ t, p.IsToken t → test t = true) :
    Reads S (accept test) [p] next fun o => ∃ t, o = some t ∧ p.IsToken t := by
  unfold accept
  refine reads_current_bind fun t ht => ?_
  rw [htest t ht, if_pos rfl]
  refine Reads.bind_cons reads_advance fun u hu => ?_
  exact reads_pure ⟨u, rfl, hu⟩

theorem reads_accept_none {test : Token → Bool} (htest : ∀ t, next t → test t = false) :
    Reads S (accept test) [] next fun o => o = none := by
  unfold accept
  refine reads_current_bind fun t ht => ?_
  rw [htest t ht, if_neg Bool.false_ne_true]
  exact reads_pure rfl

theorem reads_expect {test : Token → Bool} {wanted : Wanted}
    (htest : ∀ t, p.IsToken t → test t = true) :
    Reads S (expect test wanted) [p] next fun t => p.IsToken t := by
  unfold expect
  refine reads_current_bind fun t ht => ?_
  rw [htest t ht, if_pos rfl]
  exact reads_advance

theorem reads_expectName {text : String} :
    Reads S expectName [.name text] next fun t => t.text = text := by
  unfold expectName
  refine reads_current_bind fun t ht => ?_
  have hname : t.lexeme = .name := ht.1
  rw [Token.isTypeWord, hname, if_neg Bool.false_ne_true]
  refine (reads_expect fun u hu => ?_).mono fun u hu => hu.2
  exact decide_eq_true hu.1

/-- Nothing is skipped before a token that fails the test. -/
theorem reads_skipWhile_none {test : Token → Bool} (htest : ∀ t, next t → test t = false) :
    Reads S (skipWhile test) [] next fun _ => True := by
  intro ts rest hts hnext _
  cases hts
  refine ⟨(), ?_, trivial⟩
  have hfalse := htest _ hnext
  unfold skipWhile
  cases rest with
  | nil =>
    simp only [Setting.stream, List.append_nil] at hfalse ⊢
    rw [Stream.skipFrom, hfalse, if_neg Bool.false_ne_true]
    rfl
  | cons t rest =>
    simp only [Setting.stream, List.nil_append] at hfalse ⊢
    cases rest with
    | nil =>
      rw [Stream.skipFrom, hfalse, if_neg Bool.false_ne_true]
      rfl
    | cons u rest =>
      rw [Stream.skipFrom, hfalse, if_neg Bool.false_ne_true]
      rfl

/-- One piece is skipped before a token that fails the test. -/
theorem reads_skipWhile_one {test : Token → Bool} (hp : ∀ t, p.IsToken t → test t = true)
    (htest : ∀ t, next t → test t = false) :
    Reads S (skipWhile test) [p] next fun _ => True := by
  intro ts rest hts hnext hlength
  cases hts with
  | @cons _ t _ us ht hus =>
    cases hus
    obtain ⟨u, hu, -⟩ := reads_skipWhile_none htest [] rest .nil hnext (by simp at hlength ⊢; omega)
    refine ⟨u, ?_, trivial⟩
    rw [← hu]
    unfold skipWhile
    cases rest with
    | nil =>
      have hfalse := htest _ hnext
      simp only [Setting.stream, List.append_nil] at hfalse ⊢
      rw [Stream.skipFrom, hp t ht, if_pos rfl, Stream.skipFrom, hfalse,
        if_neg Bool.false_ne_true]
      rfl
    | cons v rest =>
      simp only [Setting.stream, List.singleton_append, List.nil_append]
      rw [Stream.skipFrom, hp t ht, if_pos rfl]

/-! ## Lists -/

/-- There is a first piece, and its tokens are good. -/
def Heads (ps : List Piece) (good : Token → Prop) : Prop :=
  ∃ p qs, ps = p :: qs ∧ ∀ t, p.IsToken t → good t

theorem Heads.opens {good : Token → Prop} (h : Heads ps good) :
    ∀ t, Opens (ps ++ qs) next t → good t := by
  obtain ⟨p, more, rfl, hp⟩ := h
  exact hp

theorem Heads.opens_self {good : Token → Prop} (h : Heads ps good) :
    ∀ t, Opens ps next t → good t := by
  obtain ⟨p, more, rfl, hp⟩ := h
  exact hp

/-- A comma stands next, or what follows a list. -/
def AfterItem (next : Token → Prop) (t : Token) : Prop :=
  t.lexeme = .symbol .comma ∨ next t

section Lists

variable {item : Parser α} {groups : List (List Piece)} {xs : List γ} {R : γ → α → Prop}

theorem isSymbol_of_lexeme {t : Token} {s : Symbol} (h : t.lexeme = .symbol s) :
    t.isSymbol s = true :=
  decide_eq_true h

/-- Items with commas between them, up to a token that is no comma. -/
theorem reads_moreItems {between : Parser Unit} {good : Token → Prop}
    (hbetween : Reads S between [] good fun _ => True)
    (hnext : ∀ t, next t → t.isSymbol .comma = false)
    (h : List.Forall₂ (fun ps z => Heads ps good ∧
      Reads S item ps (AfterItem next) (R z)) groups xs)
    {rounds : Nat} (hrounds : groups.length < rounds) (seen : List α) :
    Reads S (moreItems between item rounds seen)
      (groups.flatMap fun ps => .symbol .comma :: ps) next
      fun ys => ∃ zs, ys = seen.reverse ++ zs ∧ List.Forall₂ R xs zs := by
  induction h generalizing rounds seen with
  | nil =>
    obtain ⟨rounds, rfl⟩ : ∃ n, rounds = n + 1 := ⟨rounds - 1, by simp at hrounds; omega⟩
    rw [moreItems]
    refine Reads.bind_nil (reads_accept_none hnext) fun o ho => ?_
    subst ho
    exact reads_pure ⟨[], by simp, .nil⟩
  | @cons group z groups xs hgroup _ ih =>
    obtain ⟨rounds, rfl⟩ : ∃ n, rounds = n + 1 := ⟨rounds - 1, by simp at hrounds; omega⟩
    obtain ⟨hhead, hitem⟩ := hgroup
    rw [moreItems, List.flatMap_cons, List.cons_append]
    refine Reads.bind_cons (reads_accept fun t ht => isSymbol_of_lexeme ht) fun o ho => ?_
    obtain ⟨t, rfl, -⟩ := ho
    refine Reads.bind_nil (hbetween.before hhead.opens) fun _ _ => ?_
    refine Reads.bind (hitem.before ?_) fun a ha => ?_
    · cases groups with
      | nil => exact fun u hu => Or.inr hu
      | cons _ _ => exact fun u hu => Or.inl hu
    · refine (ih (by simp at hrounds; omega) (a :: seen)).mono fun ys hys => ?_
      obtain ⟨zs, rfl, hzs⟩ := hys
      exact ⟨a :: zs, by simp, .cons ha hzs⟩

/-- Behind an item stands a comma, or the list is over. -/
theorem afterItem_of_opens {closing : List Piece} {groups : List (List Piece)}
    (hnext : ∀ t, Opens closing next t → follow t) :
    ∀ t, Opens (groups.flatMap (.symbol .comma :: ·) ++ closing) next t → AfterItem follow t := by
  cases groups with
  | nil => exact fun t ht => Or.inr (hnext t ht)
  | cons _ _ => exact fun t ht => Or.inl ht

/-- A list of items, none of them in brackets. -/
theorem reads_items {between : Parser Unit} {good : Token → Prop}
    (hbetween : Reads S between [] good fun _ => True)
    (hnext : ∀ t, next t → t.isSymbol .comma = false)
    (h : List.Forall₂ (fun ps z => Heads ps good ∧
      Reads S item ps (AfterItem next) (R z)) groups xs)
    (hne : groups ≠ []) :
    Reads S (items S.rounds between item) (Piece.commas groups) next (List.Forall₂ R xs) := by
  cases h with
  | nil => exact absurd rfl hne
  | @cons group z groups xs hgroup hrest =>
    rw [Piece.commas, intercalate_cons_eq, items]
    refine Reads.of_length fun hlength => ?_
    rw [List.length_append] at hlength
    have hrounds := length_le_flatMap_cons (.symbol .comma) groups
    refine Reads.bind (hgroup.2.before ?_) fun a ha => ?_
    · have hopens : ∀ t, Opens (groups.flatMap (.symbol .comma :: ·) ++ []) next t →
          AfterItem next t := afterItem_of_opens fun t ht => ht
      rwa [List.append_nil] at hopens
    · refine (reads_moreItems hbetween hnext hrest (by omega) [a]).mono fun ys hys => ?_
      obtain ⟨zs, rfl, hzs⟩ := hys
      exact .cons ha hzs

variable {closing : Symbol} {wanted : Wanted}

/-- What stands behind an item in brackets is no line end. -/
theorem isNewline_afterItem {t : Token} (h : AfterItem (·.lexeme = .symbol closing) t) :
    t.isNewline = false := by
  rcases h with h | h <;> exact decide_eq_false (by rw [h]; nofun)

/-- Whether an item in brackets may start with a token. -/
def startsItem (closing : Symbol) (t : Token) : Prop :=
  t.isNewline = false ∧ t.isSymbol closing = false

theorem reads_bracketedItems (hclosing : closing ≠ .comma) {group : List Piece} {x : γ}
    (hfirst : Reads S item group (AfterItem (·.lexeme = .symbol closing)) (R x))
    (h : List.Forall₂ (fun ps z => Heads ps (startsItem closing) ∧
      Reads S item ps (AfterItem (·.lexeme = .symbol closing)) (R z)) groups xs)
    {rounds : Nat} (hrounds : groups.length < rounds) (seen : List α) :
    Reads S (bracketedItems closing wanted item rounds seen)
      (group ++ (groups.flatMap (.symbol .comma :: ·) ++ [.symbol closing])) next
      fun ys => ∃ zs, ys = seen.reverse ++ zs ∧ List.Forall₂ R (x :: xs) zs := by
  induction h generalizing group x rounds seen with
  | nil =>
    obtain ⟨rounds, rfl⟩ : ∃ n, rounds = n + 1 := ⟨rounds - 1, by simp at hrounds; omega⟩
    rw [bracketedItems]
    have hopens : ∀ t, Opens ([].flatMap (.symbol .comma :: ·) ++ [Piece.symbol closing]) next t →
        AfterItem (·.lexeme = .symbol closing) t := afterItem_of_opens fun t ht => ht
    refine Reads.bind (hfirst.before hopens) fun a ha => ?_
    refine Reads.bind_nil (reads_skipWhile_none fun t ht => isNewline_afterItem (hopens t ht))
      fun _ _ => ?_
    refine Reads.bind_nil (reads_accept_none fun t ht => ?_) fun o ho => ?_
    · have hlexeme : t.lexeme = .symbol closing := ht
      exact decide_eq_false (by rw [hlexeme]; simpa using hclosing)
    · subst ho
      refine Reads.bind_cons (reads_expect fun t ht => isSymbol_of_lexeme ht) fun _ _ => ?_
      exact reads_pure ⟨[a], by simp, .cons ha .nil⟩
  | @cons second z groups xs hgroup _ ih =>
    obtain ⟨rounds, rfl⟩ : ∃ n, rounds = n + 1 := ⟨rounds - 1, by simp at hrounds; omega⟩
    obtain ⟨hhead, hitem⟩ := hgroup
    rw [bracketedItems]
    have hopens : ∀ t, Opens ((second :: groups).flatMap (.symbol .comma :: ·) ++
        [Piece.symbol closing]) next t → AfterItem (·.lexeme = .symbol closing) t :=
      afterItem_of_opens fun t ht => ht
    refine Reads.bind (hfirst.before hopens) fun a ha => ?_
    refine Reads.bind_nil (reads_skipWhile_none fun t ht => isNewline_afterItem (hopens t ht))
      fun _ _ => ?_
    rw [List.flatMap_cons, List.append_assoc, List.cons_append]
    refine Reads.bind_cons (reads_accept fun t ht => isSymbol_of_lexeme ht) fun o ho => ?_
    obtain ⟨t, rfl, -⟩ := ho
    refine Reads.bind_nil (reads_skipWhile_none fun u hu => (hhead.opens u hu).1) fun _ _ => ?_
    refine (ih hitem (by simp at hrounds; omega) (a :: seen)).mono fun ys hys => ?_
    obtain ⟨zs, rfl, hzs⟩ := hys
    exact ⟨a :: zs, by simp, .cons ha hzs⟩

/-- A list of items in brackets, behind the opening one. -/
theorem reads_bracketed (hclosing : closing ≠ .comma)
    (h : List.Forall₂ (fun ps z => Heads ps (startsItem closing) ∧
      Reads S item ps (AfterItem (·.lexeme = .symbol closing)) (R z)) groups xs) :
    Reads S (bracketed S.rounds closing wanted item) (Piece.commas groups ++ [.symbol closing]) next
      (List.Forall₂ R xs) := by
  unfold bracketed
  cases h with
  | nil =>
    have hopens : ∀ t, Opens [Piece.symbol closing] next t →
        AfterItem (·.lexeme = .symbol closing) t := fun t ht => Or.inr ht
    refine Reads.bind_nil (reads_skipWhile_none fun t ht => isNewline_afterItem (hopens t ht))
      fun _ _ => ?_
    refine Reads.bind_cons (reads_accept fun t ht => isSymbol_of_lexeme ht) fun o ho => ?_
    obtain ⟨t, rfl, -⟩ := ho
    exact reads_pure .nil
  | @cons group z groups xs hgroup hrest =>
    obtain ⟨hhead, hitem⟩ := hgroup
    rw [Piece.commas, intercalate_cons_eq, List.append_assoc]
    refine Reads.of_length fun hlength => ?_
    rw [List.length_append, List.length_append] at hlength
    have hrounds := length_le_flatMap_cons (.symbol .comma) groups
    refine Reads.bind_nil (reads_skipWhile_none fun t ht => (hhead.opens t ht).1) fun _ _ => ?_
    refine Reads.bind_nil (reads_accept_none fun t ht => (hhead.opens t ht).2) fun o ho => ?_
    subst ho
    refine (reads_bracketedItems hclosing hitem hrest (by omega) []).mono fun ys hys => ?_
    obtain ⟨zs, rfl, hzs⟩ := hys
    exact hzs

end Lists

end Dee.Grammar
