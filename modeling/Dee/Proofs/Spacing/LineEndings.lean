import Dee.Proofs.Grammar.Consumed
import Dee.Proofs.Spacing.Separators
import Dee.Proofs.Token.Calls
import Dee.Proofs.Token.Returns

/-!
# Line endings of two kinds

A text is scanned beside the same text with carriage returns before its line ends, call by call.
Where no string runs over a line end, the tokens are the same but for the columns of the line ends,
and no node of a program is placed at a line end.

Main statement: `line_endings_are_harmless`.
-/

namespace Dee

/-- The text with carriage returns before its line ends. -/
def crlf (source : String) : String := String.ofList (withReturns source.toList)

/-! ## Scanning side by side -/

theorem Token.isEof_behindReturn (t : Token) : t.behindReturn.isEof = t.isEof := by
  rw [isEof, isEof, lexeme_behindReturn]

theorem Token.behindReturn_of_isEof {t : Token} (h : t.isEof = true) : t.behindReturn = t := by
  have hlex : t.lexeme = .eof := of_decide_eq_true h
  exact behindReturn_of_ne (by simp [hlex])

namespace Feed

/-- The tokens of a scan with carriage returns before the line ends among them. -/
def behindReturns (f : Feed) : Feed := ⟨f.tokens.map Token.behindReturn, f.ending⟩

/-- What is seen stays seen. -/
theorem mem_scan {t : Token} {seen : List Token} (ht : t ∈ seen) (steps : Nat) (c : Cursor) :
    t ∈ (scan steps c seen).tokens := by
  induction steps generalizing c seen with
  | zero => exact List.mem_reverse.mpr ht
  | succ steps ih =>
    unfold scan
    split
    · exact List.mem_reverse.mpr ht
    · split
      · exact List.mem_reverse.mpr ht
      · exact ih (List.mem_cons_of_mem _ ht) _

/-- A scan beside one that comes to the end finds the same tokens behind carriage returns. -/
theorem scan_withReturns {steps steps' : Nat} {c d : Cursor} {seen : List Token} {eof : Token}
    (h : c.Beside d) (hsteps : c.rest.length < steps) (hsteps' : d.rest.length < steps')
    (hend : (scan steps c seen).ending = .ok eof)
    (hline : ∀ t ∈ (scan steps c seen).tokens, t.KeepsToLine) :
    scan steps' d (seen.map Token.behindReturn) = (scan steps c seen).behindReturns := by
  induction steps generalizing c d seen steps' with
  | zero => cases hsteps
  | succ steps ih =>
    obtain ⟨steps', rfl⟩ := Nat.exists_eq_succ_of_ne_zero (Nat.ne_of_gt (Nat.zero_lt_of_lt hsteps'))
    rcases hx : c.next with ⟨answer, c'⟩
    unfold scan at hend hline ⊢
    rw [hx] at hend hline ⊢
    cases answer with
    | error e => cases hend
    | ok t =>
      dsimp only at hend hline ⊢
      cases heof : t.isEof with
      | true =>
        have hkeeps : t.KeepsToLine := by
          intro value hvalue
          simp [Token.isEof, hvalue] at heof
        obtain ⟨d', hd, -⟩ := h.next hx hkeeps
        rw [hd, Token.behindReturn_of_isEof heof]
        simp only [heof, if_true, behindReturns, List.map_reverse]
      | false =>
        rw [heof, if_neg Bool.false_ne_true] at hend hline
        obtain ⟨d', hd, hbeside⟩ := h.next hx (hline t (mem_scan List.mem_cons_self steps c'))
        have heof' : t.behindReturn.isEof = false := by rw [Token.isEof_behindReturn, heof]
        have hless := Cursor.length_lt_of_token hx heof
        have hless' := Cursor.length_lt_of_token hd heof'
        simp only [hd, heof', Bool.false_eq_true, if_false, ← List.map_cons]
        exact ih hbeside (by omega) (by omega) hend hline

theorem ofText_crlf {source : String} {eof : Token} (hend : (ofText source).ending = .ok eof)
    (hline : ∀ t ∈ (ofText source).tokens, t.KeepsToLine) :
    ofText (crlf source) = (ofText source).behindReturns := by
  have hbeside : (Cursor.ofText source.toList).Beside (.ofText (withReturns source.toList)) :=
    ⟨rfl, rfl⟩
  unfold ofText crlf
  rw [String.toList_ofList]
  exact scan_withReturns hbeside (Nat.lt_succ_self _) (Nat.lt_succ_self _) hend hline

end Feed

/-! ## Reading -/

/-- No token but a line end looks different. -/
theorem Resembles.behindReturn {ts : List Token} (hts : Endless ts) :
    Resembles .exact ts (ts.map Token.behindReturn) := by
  induction ts with
  | nil => exact .ending (by simp) (by simp)
  | cons t ts ih =>
    obtain ⟨ht, hrest⟩ := List.forall_mem_cons.mp hts
    by_cases hnewline : t.lexeme = .newline
    · have hgap : SameGap [t] [t.behindReturn] := by
        refine ⟨?_, ?_, by simp, ?_⟩
        · simp [Token.isSeparator, Token.isNewline, hnewline]
        · simp [Token.isSeparator, Token.isNewline, hnewline]
        · simp [hasSemicolon, Token.isSymbol]
      exact prepend hgap (ih hrest)
    · rw [List.map_cons, Token.behindReturn_of_ne hnewline]
      exact cons ht rfl (ih hrest)

theorem Grammar.parseFeed_behindReturns {f : Feed} (hf : f.Clean) {eof : Token}
    (hend : f.ending = .ok eof)
    (nesting : Nat) (p : Program) :
    parseFeed nesting f.behindReturns = .ok p ↔ parseFeed nesting f = .ok p := by
  obtain ⟨ts, ending⟩ := f
  subst hend
  have hts : Endless ts := fun t ht => (hf.tokens t ht).1
  have heof := hf.ending eof rfl
  have hiff := parseFeed_alike_iff heof heof (Resembles.behindReturn hts).dropSeparators nesting p
  simpa [View.program_exact, Feed.behindReturns] using hiff.symm

/-- Line endings of two characters are harmless. Take a text that has tokens, none of them a string
that runs over a line end. With a carriage return before each line end it has the same tokens, with
the same meanings, texts and positions, except that each line end stands one column further on. The
same program is read from it, positions included, or none from either. -/
theorem line_endings_are_harmless {source : String} {tokens : List Token}
    (h : tokenize source = .ok tokens) (hline : ∀ t ∈ tokens, t.KeepsToLine) :
    tokenize (crlf source) = .ok (tokens.map Token.behindReturn) ∧
      ∀ limits p, parse (crlf source) limits = .ok p ↔ parse source limits = .ok p := by
  obtain ⟨eof, hend, rfl⟩ := tokenize_eq_ok.mp h
  have hclean := Feed.clean_ofText source
  have hfeed := Feed.ofText_crlf hend fun t ht => hline t (List.mem_append_left _ ht)
  constructor
  · refine tokenize_eq_ok.mpr ⟨eof, by rw [hfeed]; exact hend, ?_⟩
    rw [hfeed, List.map_append, List.map_singleton, Token.behindReturn_of_isEof
      (hclean.ending eof hend)]
    rfl
  · intro limits p
    unfold parse
    rw [hfeed]
    exact Grammar.parseFeed_behindReturns hclean hend _ p

/-- A number right before a line end, comments of both kinds, one of them over lines, and a string
with an escaped line end. -/
theorem line_endings_are_harmless_in_comments :
    let source := "print 1\n/* a // b\n*/ print 'c\\n' // d\n"
    let tokens (first second : Int) : List Token :=
      [⟨.keyword .printKw, "print", ⟨1, 1⟩⟩, ⟨.literal (.int 1), "1", ⟨1, 7⟩⟩,
        ⟨.newline, "\n", ⟨1, first⟩⟩,
        ⟨.keyword .printKw, "print", ⟨3, 4⟩⟩, ⟨.literal (.str "c\n"), "'c\\n'", ⟨3, 10⟩⟩,
        ⟨.newline, "\n", ⟨3, second⟩⟩, ⟨.eof, "", ⟨4, 1⟩⟩]
    tokenize source = .ok (tokens 8 20) ∧ tokenize (crlf source) = .ok (tokens 9 21) ∧
      ∃ p, parse source = .ok p ∧ parse (crlf source) = .ok p := by
  intro source tokens
  have htokens : tokenize source = .ok (tokens 8 20) := by decide +kernel
  have hreads : (parse source).toOption.isSome = true := by decide +kernel
  obtain ⟨hcrlf, hparse⟩ := line_endings_are_harmless htokens (by simp [tokens, Token.KeepsToLine])
  refine ⟨htokens, hcrlf, ?_⟩
  cases hp : parse source with
  | error f =>
    rw [hp] at hreads
    cases hreads
  | ok p => exact ⟨p, rfl, (hparse .standard p).mpr hp⟩

end Dee
