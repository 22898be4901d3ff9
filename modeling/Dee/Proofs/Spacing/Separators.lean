import Dee.Proofs.Spacing.Statements
import Dee.Proofs.Token.Relaid
import Mathlib.Logic.Relation

/-!
# Separators collapse

A line end beside a line end, any separator beside a semicolon, and separators at the start or at
the end of a text change nothing: with one of them inserted or removed the tokens are read as the
same program, or not at all, wherever the place is. Where the positions of the tokens change as
well, the programs are the same up to positions.

Main statement: `separators_collapse`.
-/

namespace Dee

/-! ## Insertions -/

/-- The second list has one separator more, where it does not count. -/
inductive AddsSeparator : List Token → List Token → Prop
  | afterNewline (front back : List Token) {newline t : Token} (hnewline : newline.isNewline = true)
      (ht : t.isNewline = true) :
      AddsSeparator (front ++ newline :: back) (front ++ newline :: t :: back)
  | beforeSemicolon (front back : List Token) {semicolon t : Token}
      (hsemicolon : semicolon.isSymbol .semicolon = true) (ht : t.isSeparator = true) :
      AddsSeparator (front ++ semicolon :: back) (front ++ t :: semicolon :: back)
  | afterSemicolon (front back : List Token) {semicolon t : Token}
      (hsemicolon : semicolon.isSymbol .semicolon = true) (ht : t.isSeparator = true) :
      AddsSeparator (front ++ semicolon :: back) (front ++ semicolon :: t :: back)
  | first (ts : List Token) {t : Token} (ht : t.isSeparator = true) : AddsSeparator ts (t :: ts)
  | last (ts : List Token) {t : Token} (ht : t.isSeparator = true) : AddsSeparator ts (ts ++ [t])

/-- No token of the list stands for the end of the text. -/
def Endless (ts : List Token) : Prop := ∀ t ∈ ts, t.isEof = false

instance (ts : List Token) : Decidable (Endless ts) :=
  inferInstanceAs (Decidable (∀ t ∈ ts, t.isEof = false))

/-! ## Gaps -/

namespace SameGap

variable {run run' more more' : List Token}

theorem append (h : SameGap run run') (h' : SameGap more more') :
    SameGap (run ++ more) (run' ++ more') where
  left t ht := (List.mem_append.mp ht).elim (h.left t) (h'.left t)
  right t ht := (List.mem_append.mp ht).elim (h.right t) (h'.right t)
  isEmpty := by rw [List.append_eq_nil_iff, List.append_eq_nil_iff, h.isEmpty, h'.isEmpty]
  semicolon := by
    have hsemicolon := h.semicolon
    have hsemicolon' := h'.semicolon
    unfold hasSemicolon at hsemicolon hsemicolon' ⊢
    rw [List.any_append, List.any_append, hsemicolon, hsemicolon']

/-- A line end beside a line end does not count. -/
theorem newline_newline {s t : Token} (hs : s.isNewline = true) (ht : t.isNewline = true) :
    SameGap [s] [s, t] := by
  have hsymbol : t.isSymbol .semicolon = false := by
    have hlex : t.lexeme = .newline := of_decide_eq_true ht
    simp [Token.isSymbol, hlex]
  refine ⟨?_, ?_, by simp, ?_⟩
  · simp [Token.isSeparator, hs]
  · simp [Token.isSeparator, hs, ht]
  · simp [hasSemicolon, hsymbol]

/-- Nothing counts beside a semicolon, whether before or behind it. -/
theorem semicolon_beside {s t : Token} (hs : s.isSymbol .semicolon = true)
    (ht : t.isSeparator = true) :
    SameGap [s] [t, s] ∧ SameGap [s] [s, t] := by
  have hseparator : s.isSeparator = true := by simp [Token.isSeparator, hs]
  refine ⟨⟨?_, ?_, by simp, ?_⟩, ⟨?_, ?_, by simp, ?_⟩⟩ <;> simp [hasSemicolon, hs, ht, hseparator]

end SameGap

namespace Resembles

variable {V : View} {ts ts' run run' : List Token}

/-- Separators may stand before resembling lists if they do the same. -/
theorem prepend (hgap : SameGap run run') (h : Resembles V ts ts') :
    Resembles V (run ++ ts) (run' ++ ts') := by
  cases h with
  | ending hrun hrun' =>
    exact .ending (fun t ht => (List.mem_append.mp ht).elim (hgap.left t) (hrun t))
      (fun t ht => (List.mem_append.mp ht).elim (hgap.right t) (hrun' t))
  | mark hmore ht hsame more =>
    rw [← List.append_assoc, ← List.append_assoc]
    exact .mark (hgap.append hmore) ht hsame more

/-- Tokens that look the same may stand before resembling lists. -/
theorem cons {t t' : Token} (ht : t.isEof = false) (hsame : V.token t = V.token t')
    (h : Resembles V ts ts') :
    Resembles V (t :: ts) (t' :: ts') := by
  cases hmark : t.isMark with
  | true => exact .mark .nil hmark hsame h
  | false =>
    have hseparator : t.isSeparator = true := by simpa [Token.isMark, ht] using hmark
    have hsymbol : t'.isSymbol .semicolon = t.isSymbol .semicolon := by
      rw [Token.isSymbol, Token.isSymbol, View.lexeme_eq hsame]
    have hseparator' : t'.isSeparator = true := by
      rwa [Token.isSeparator, Token.isNewline, hsymbol, View.lexeme_eq hsame]
    have hgap : SameGap [t] [t'] := ⟨by simpa, by simpa, by simp, by simp [hasSemicolon, hsymbol]⟩
    exact prepend hgap h

/-- Lists whose tokens look the same one by one resemble each other. -/
theorem of_map (hts : Endless ts) (h : ts.map V.token = ts'.map V.token) : Resembles V ts ts' := by
  induction ts generalizing ts' with
  | nil =>
    obtain rfl : ts' = [] := by simpa using h.symm
    exact .ending (by simp) (by simp)
  | cons t ts ih =>
    cases ts' with
    | nil => cases h
    | cons t' ts' =>
      obtain ⟨ht, hrest⟩ := List.forall_mem_cons.mp hts
      rw [List.map_cons, List.map_cons, List.cons.injEq] at h
      exact cons ht h.1 (ih hrest h.2)

theorem refl (hts : Endless ts) : Resembles V ts ts := of_map hts rfl

/-- What stands before a change does not matter. -/
theorem append_left {front : List Token} (hfront : Endless front) (h : Resembles V ts ts') :
    Resembles V (front ++ ts) (front ++ ts') := by
  induction front with
  | nil => exact h
  | cons t front ih =>
    obtain ⟨ht, hrest⟩ := List.forall_mem_cons.mp hfront
    exact cons ht rfl (ih hrest)

/-- A separator that does not count leaves a list that resembles the one before, but for the
separators at its start. -/
theorem of_addsSeparator (h : AddsSeparator ts ts') (hts : Endless ts) :
    Resembles V (ts.dropWhile Token.isSeparator) (ts'.dropWhile Token.isSeparator) := by
  have hinner : ∀ {front back run run' : List Token}, Endless (front ++ (run ++ back)) →
    SameGap run run' →
      Resembles V ((front ++ (run ++ back)).dropWhile Token.isSeparator)
        ((front ++ (run' ++ back)).dropWhile Token.isSeparator) := by
    intro front back run run' hends hgap
    have hfront : Endless front := fun t ht => hends t (by simp [ht])
    have hback : Endless back := fun t ht => hends t (by simp [ht])
    exact ((prepend hgap (refl hback)).append_left hfront).dropSeparators
  cases h with
  | afterNewline front back hnewline ht => exact hinner hts (.newline_newline hnewline ht)
  | beforeSemicolon front back hsemicolon ht =>
    exact hinner hts (SameGap.semicolon_beside hsemicolon ht).1
  | afterSemicolon front back hsemicolon ht =>
    exact hinner hts (SameGap.semicolon_beside hsemicolon ht).2
  | first _ ht =>
    rw [List.dropWhile_cons, if_pos ht]
    exact (refl hts).dropSeparators
  | @last _ t ht =>
    have hending : Resembles V [] [t] := .ending (by simp) (by simpa using ht)
    have hlast := hending.append_left hts
    rw [List.append_nil] at hlast
    exact hlast.dropSeparators

end Resembles

/-! ## Readings -/

theorem AddsSeparator.endless_iff {ts ts' : List Token} (h : AddsSeparator ts ts') :
    Endless ts' ↔ Endless ts := by
  have hinserted : ∀ {t : Token}, t.isSeparator = true → ∀ front back : List Token,
      (Endless (front ++ t :: back) ↔ Endless (front ++ back)) := by
    intro t ht front back
    have heof := Token.isEof_of_isSeparator ht
    simp only [Endless, List.mem_append, List.mem_cons]
    constructor
    · exact fun h u hu => h u (hu.imp_right Or.inr)
    · rintro h u (hu | rfl | hu)
      · exact h u (Or.inl hu)
      · exact heof
      · exact h u (Or.inr hu)
  cases h with
  | @afterNewline front back newline t hnewline ht =>
    have ht : t.isSeparator = true := by simp [Token.isSeparator, ht]
    simpa using hinserted ht (front ++ [newline]) back
  | @beforeSemicolon front back semicolon t _ ht => exact hinserted ht front (semicolon :: back)
  | @afterSemicolon front back semicolon t _ ht =>
    simpa using hinserted ht (front ++ [semicolon]) back
  | first ts ht => exact hinserted ht [] ts
  | last ts ht => simpa using hinserted ht ts []

namespace Grammar

variable {ts ts' us us' : List Token} {eof eof' : Token}

/-- Lists that resemble each other behind the separators at their start are read alike. -/
theorem parseFeed_alike_iff {V : View} (heof : eof.isEof = true) (heof' : eof'.isEof = true)
    (hts : Resembles V (ts.dropWhile Token.isSeparator) (ts'.dropWhile Token.isSeparator))
    (nesting : Nat) (seen : Program) :
    (∃ p, parseFeed nesting ⟨ts, .ok eof⟩ = .ok p ∧ V.program p = seen) ↔
      ∃ p, parseFeed nesting ⟨ts', .ok eof'⟩ = .ok p ∧ V.program p = seen := by
  constructor
  · rintro ⟨p, hp, rfl⟩
    exact parseFeed_alike heof heof' hts hp
  · rintro ⟨p, hp, rfl⟩
    exact parseFeed_alike heof' heof hts.symm hp

/-- Where a separator does not count, the same program is read with it and without it. -/
theorem parseFeed_addsSeparator (h : Relation.EqvGen AddsSeparator ts ts') :
    (Endless ts' ↔ Endless ts) ∧ (Endless ts → ∀ eof eof' : Token, eof.isEof = true →
      eof'.isEof = true →
      ∀ nesting p, parseFeed nesting ⟨ts, .ok eof⟩ = .ok p ↔
        parseFeed nesting ⟨ts', .ok eof'⟩ = .ok p) := by
  induction h with
  | rel ts ts' h =>
    refine ⟨h.endless_iff, fun hts eof eof' heof heof' nesting p => ?_⟩
    have hiff := parseFeed_alike_iff (V := .exact) heof heof' (.of_addsSeparator h hts) nesting p
    simpa [View.program_exact] using hiff
  | refl ts =>
    refine ⟨Iff.rfl, fun hts eof eof' heof heof' nesting p => ?_⟩
    have hiff :=
      parseFeed_alike_iff (V := .exact) heof heof' (Resembles.refl hts).dropSeparators nesting p
    simpa [View.program_exact] using hiff
  | symm ts ts' _ ih =>
    refine ⟨ih.1.symm, fun hts eof eof' heof heof' nesting p => ?_⟩
    exact (ih.2 (ih.1.mp hts) eof' eof heof' heof nesting p).symm
  | trans ts mid ts' _ _ ih ih' =>
    refine ⟨ih'.1.trans ih.1, fun hts eof eof' heof heof' nesting p => ?_⟩
    exact (ih.2 hts eof eof heof heof nesting p).trans
      (ih'.2 (ih.1.mpr hts) eof eof' heof heof' nesting p)

/-- Tokens that say the same are read alike up to positions. -/
theorem parseFeed_saying_iff (hts : Endless ts) (h : us.map Token.saying = ts.map Token.saying)
    (heof : eof.isEof = true) (heof' : eof'.isEof = true) (nesting : Nat) (e : Program) :
    (∃ p, parseFeed nesting ⟨ts, .ok eof⟩ = .ok p ∧ p.erase = e) ↔
      ∃ p, parseFeed nesting ⟨us, .ok eof'⟩ = .ok p ∧ p.erase = e := by
  have hsame : ts.map (View.token .unplaced) = us.map (View.token .unplaced) := by
    have hfrom : ∀ ts : List Token, ts.map (View.token .unplaced) =
        (ts.map Token.saying).map fun said => ⟨said.1, said.2, .nowhere⟩ := by
      intro ts
      rw [List.map_map]
      rfl
    rw [hfrom, hfrom, h]
  have hiff := parseFeed_alike_iff heof heof' (Resembles.of_map hts hsame).dropSeparators nesting e
  simpa only [View.program_unplaced] using hiff

/-- Take two lists of tokens that differ by separators that do not count: line ends beside line
ends, separators beside semicolons, separators at the start and at the end, any number of them
inserted or removed. They are read as the same program, or both are refused. If their tokens stand
elsewhere than in these lists, the programs are the same up to positions. -/
theorem separators_collapse (hts : Endless ts) (h : Relation.EqvGen AddsSeparator ts ts')
    (heof : eof.isEof = true) (heof' : eof'.isEof = true) (nesting : Nat) :
    (∀ p, parseFeed nesting ⟨ts, .ok eof⟩ = .ok p ↔ parseFeed nesting ⟨ts', .ok eof'⟩ = .ok p) ∧
    ∀ us us' : List Token, us.map Token.saying = ts.map Token.saying →
      us'.map Token.saying = ts'.map Token.saying → ∀ e,
      (∃ p, parseFeed nesting ⟨us, .ok eof⟩ = .ok p ∧ p.erase = e) ↔
        ∃ p, parseFeed nesting ⟨us', .ok eof'⟩ = .ok p ∧ p.erase = e := by
  obtain ⟨hends, hread⟩ := parseFeed_addsSeparator h
  refine ⟨hread hts eof eof' heof heof' nesting, fun us us' hus hus' e => ?_⟩
  rw [← parseFeed_saying_iff hts hus heof heof nesting e,
    ← parseFeed_saying_iff (hends.mpr hts) hus' heof' heof' nesting e]
  exact exists_congr fun p => and_congr_left' (hread hts eof eof' heof heof' nesting p)

/-- A conditional with a list over two lines and a bare return, and the same with a line end more
inside the brackets and a line end between the semicolon and the word that ends the block. -/
theorem separators_collapse_in_block :
    let word (k : Keyword) (line column : Int) : Token := ⟨.keyword k, k.text, ⟨line, column⟩⟩
    let int (n : Int) (line column : Int) : Token := ⟨.literal (.int n), "", ⟨line, column⟩⟩
    let mark (s : Symbol) (line column : Int) : Token := ⟨.symbol s, "", ⟨line, column⟩⟩
    let newline (line column : Int) : Token := ⟨.newline, "", ⟨line, column⟩⟩
    let opening :=
      [word .ifKw 1 1, int 1 1 4, word .thenKw 1 6, mark .semicolon 1 10, word .printKw 1 12,
      mark .openBracket 1 18, int 2 1 19, mark .comma 1 20]
    let middle := [int 3 2 1, mark .closeBracket 2 2, newline 2 3, word .returnKw 3 1]
    let closing := [word .endKw 3 9]
    let ts := opening ++ newline 1 21 :: (middle ++ mark .semicolon 3 7 :: closing)
    let ts' :=
      opening ++ newline 1 21 :: newline 1 21 ::
        (middle ++ mark .semicolon 3 7 :: newline 3 8 :: closing)
    let eof : Token := ⟨.eof, "", ⟨4, 1⟩⟩
    let p : Program := ⟨[.conditional ⟨1, 1⟩ (.literal ⟨1, 4⟩ (.int 1) .int) ⟨⟨1, 6⟩,
      [.print ⟨1, 12⟩ [.array ⟨1, 18⟩ [.literal ⟨1, 19⟩ (.int 2) .int,
        .literal ⟨2, 1⟩ (.int 3) .int]],
        .returnStmt ⟨3, 1⟩ none]⟩ none], .start⟩
    parseFeed 20 ⟨ts, .ok eof⟩ = .ok p ∧ parseFeed 20 ⟨ts', .ok eof⟩ = .ok p := by
  intro word int mark newline opening middle closing ts ts' eof p
  have hfirst : AddsSeparator ts (opening ++ newline 1 21 :: newline 1 21 ::
      (middle ++ mark .semicolon 3 7 :: closing)) :=
    .afterNewline opening (middle ++ mark .semicolon 3 7 :: closing) rfl rfl
  have hsecond : AddsSeparator (opening ++ newline 1 21 :: newline 1 21 ::
      (middle ++ mark .semicolon 3 7 :: closing)) ts' :=
    .afterSemicolon (opening ++ newline 1 21 :: newline 1 21 :: middle) closing rfl rfl
  have hboth : Relation.EqvGen AddsSeparator ts ts' :=
    .trans _ _ _ (.rel _ _ hfirst) (.rel _ _ hsecond)
  have heof : eof.isEof = true := rfl
  have hcollapse := separators_collapse (by decide) hboth heof heof 20
  have hp : parseFeed 20 ⟨ts, .ok eof⟩ = .ok p := by rfl
  exact ⟨hp, (hcollapse.1 p).mp hp⟩

end Grammar

end Dee
