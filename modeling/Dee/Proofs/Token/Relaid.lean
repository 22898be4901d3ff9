import Dee.Proofs.Token.Tiles

/-!
# Layout carries no meaning

The token at a place depends on its own characters only: they spell its meaning, and characters that
spell a meaning are scanned as such before every blank and at the end of the text. So the tokens of
a text can be laid out anew with any gaps that begin with a blank, and a scan finds the same tokens
again.

Main statement: `layout_keeps_tokens`.
-/

namespace Dee

/-- A spelling that stands apart is scanned as what it spells. -/
theorem Lexeme.scans_spelling {lexeme : Lexeme} {cs : List Char} (h : lexeme.Spelling cs) :
    Scans cs lexeme := by
  cases lexeme with
  | literal value => exact Scalar.scans_spelling h
  | name =>
    obtain ⟨hword, hname⟩ := isWord_of_isIdentifier h
    exact hname ▸ scans_ofWord hword rfl
  | keyword k => exact ofWord_keyword k ▸ scans_ofWord (isWord_keyword k) h
  | symbol s => exact scans_isSpelled h
  | newline =>
    obtain rfl : cs = ['\n'] := h
    exact scans_newline
  | eof => exact h.elim

/-- A comment without stars is closed by the first star and slash behind it. -/
theorem closesFirst_of_not_mem {body : List Char} (h : '*' ∉ body) : ClosesFirst body := by
  induction body with
  | nil => exact closesFirst_nil
  | cons c body ih =>
    rw [List.mem_cons, not_or] at h
    exact closesFirst_cons (ih h.2) [] fun _ hstar _ => h.1 hstar.symm

/-! ## Tokens of a text -/

/-- What a token says apart from its place: its meaning and its text. -/
def Token.saying (t : Token) : Lexeme × String := (t.lexeme, t.text)

/-- The texts of all tokens but the end. -/
def Token.texts (tokens : List Token) : List (List Char) :=
  (tokens.filter fun t => !t.isEof).map fun t => t.text.toList

/-- The tokens of a text are spelled by their texts, up to the end. -/
theorem spelled_of_tokenize {source : String} {tokens : List Token}
    (h : tokenize source = .ok tokens) :
    ∃ ts pos, tokens = ts ++ [⟨.eof, "", pos⟩] ∧
      ∀ t ∈ ts, t.isEof = false ∧ t.lexeme.Spelling t.text.toList := by
  obtain ⟨tiles, last, htokens, -, htiles, -⟩ :=
    Feed.tiles_of_scan (c := .ofText source.toList) [] rfl (Nat.lt_succ_self _) h
  refine ⟨tiles.map Tile.token, _, htokens, ?_⟩
  intro t ht
  obtain ⟨tile, htile, rfl⟩ := List.mem_map.mp ht
  obtain ⟨before, after, hsplit⟩ := List.append_of_mem htile
  have hfits := htiles before tile after hsplit
  exact ⟨Tile.isEof_eq_false hfits, hfits.longest.spelling⟩

theorem Token.texts_append_eof {ts : List Token} (h : ∀ t ∈ ts, t.isEof = false) (pos : Pos) :
    Token.texts (ts ++ [⟨.eof, "", pos⟩]) = ts.map fun t => t.text.toList := by
  have hts : ts.filter (fun t => !t.isEof) = ts :=
    List.filter_eq_self.mpr fun t ht => by simp [h t ht]
  rw [Token.texts, List.filter_append, hts]
  simp [Token.isEof]

/-- Layout carries no meaning. If a text has tokens, and their texts are laid out anew in the same
order, with any gap before the first of them and behind each a gap that begins with a blank, then
the new text has tokens with the same meanings and texts in the same order. -/
theorem layout_keeps_tokens {source source' : String} {tokens : List Token}
    (h : tokenize source = .ok tokens) {lead text : List Char} (hlead : Gap lead text)
    (htext : LaidOut (Token.texts tokens) text) (hsource : source'.toList = lead ++ text) :
    ∃ tokens', tokenize source' = .ok tokens' ∧
      tokens'.map Token.saying = tokens.map Token.saying := by
  obtain ⟨ts, pos, rfl, hts⟩ := spelled_of_tokenize h
  rw [Token.texts_append_eof fun t ht => (hts t ht).1] at htext
  have hscans : List.Forall₂ (fun said cs => ∃ lexeme, Scans cs lexeme ∧ lexeme ≠ .eof ∧
      ∀ pos, said = (⟨lexeme, String.ofList cs, pos⟩ : Token).saying)
      (ts.map Token.saying) (ts.map fun t => t.text.toList) := by
    rw [List.forall₂_map_left_iff, List.forall₂_map_right_iff, List.forall₂_same]
    intro t ht
    obtain ⟨heof, hspelling⟩ := hts t ht
    refine ⟨t.lexeme, Lexeme.scans_spelling hspelling, of_decide_eq_false heof, fun _ => ?_⟩
    rw [String.ofList_toList]
    rfl
  obtain ⟨ts', pos', hscan, hsame⟩ := Feed.ofText_laidOut (P := fun said t => said = t.saying)
    hscans htext hlead hsource
  rw [← List.forall₂_map_right_iff, List.forall₂_eq_eq_eq] at hsame
  refine ⟨ts' ++ [⟨.eof, "", pos'⟩], ?_, ?_⟩
  · rw [tokenize, hscan]
    rfl
  · rw [List.map_append, List.map_append, hsame]
    rfl

/-- Signs that are one symbol without a blank and two with it, a number before a name, and marks of
strings inside a comment and of comments inside a string. -/
theorem layout_keeps_tokens_close_calls :
    let source := "1..5/=1abc//c\n'//'"
    let source' := "1\t..\r5 /*\"*/ /= 1 abc //'x\n '//'"
    ∃ tokens text, tokenize source = .ok tokens ∧ Gap [] text ∧
      LaidOut (Token.texts tokens) text ∧ source'.toList = [] ++ text ∧
      ∃ tokens', tokenize source' = .ok tokens' ∧
        tokens'.map Token.saying = tokens.map Token.saying := by
  intro source source'
  have heval : ((tokenize source).toOption.elim false fun tokens => decide (Token.texts tokens =
      [['1'], ['.', '.'], ['5'], ['/', '='], ['1'], ['a', 'b', 'c'], ['\n'],
        ['\'', '/', '/', '\'']])) = true := by
    decide +kernel
  cases htokens : tokenize source with
  | error e =>
    rw [htokens] at heval
    cases heval
  | ok tokens =>
    rw [htokens] at heval
    have htab : ∀ ahead, Gap.Parts ['\t'] ahead := fun _ => .of_blank rfl (.nil _)
    have hreturn : ∀ ahead, Gap.Parts ['\r'] ahead := fun _ => .of_blank rfl (.nil _)
    have hspace : ∀ ahead, Gap.Parts [' '] ahead := fun _ => .of_blank rfl (.nil _)
    have hquote : ClosesFirst ['"'] := closesFirst_of_not_mem (by simp)
    have hcomment : ∀ ahead, Gap.Parts [' ', '/', '*', '"', '*', '/', ' '] ahead :=
      fun _ => .of_blank rfl (.block hquote (.blank rfl (.nil _)))
    have hline : ∀ ahead, Gap.Parts [' ', '/', '/', '\'', 'x'] (['\n'] ++ ahead) :=
      fun _ => .of_blank rfl (.line (by simp) (by simp))
    have hlast : Gap.Parts [] [] := ⟨.nil _, by simp, by simp⟩
    obtain ⟨text, htext, hsource⟩ : ∃ text, LaidOut [['1'], ['.', '.'], ['5'], ['/', '='], ['1'],
        ['a', 'b', 'c'], ['\n'], ['\'', '/', '/', '\'']] text ∧ source'.toList = [] ++ text :=
      ⟨_, .cons (htab _) (.cons (hreturn _) (.cons (hcomment _) (.cons (hspace _) (.cons (hspace _)
        (.cons (hline _) (.cons (hspace _) (.cons hlast .nil))))))), by decide +kernel⟩
    rw [← of_decide_eq_true heval] at htext
    exact ⟨tokens, text, rfl, .nil _, htext, hsource,
      layout_keeps_tokens htokens (.nil _) htext hsource⟩

end Dee
