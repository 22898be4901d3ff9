import Dee.Proofs.Token.Gap
import Dee.Proofs.Token.Longest

/-!
# Tokens tile the text

The tokens of a text and the gaps between them are laid side by side: read in order they are the
text, and the position of each token counts the lines and columns before it.

Main statement: `tokens_tile_source`.
-/

namespace Dee

/-! ## Tiles -/

/-- A token and the gap before it. -/
structure Tile where
  gap : List Char
  token : Token

/-- The characters of a tile. -/
def Tile.text (tile : Tile) : List Char := tile.gap ++ tile.token.text.toList

/-- The characters of tiles that are laid side by side. -/
def Tile.join (tiles : List Tile) : List Char := tiles.flatMap Tile.text

/-- A tile lies between the characters `behind` it and `ahead` of it: its gap is all that stands
there before a token, its token is the longest that starts there, and the position is counted from
what lies before the token. -/
structure Tile.Fits (tile : Tile) (behind ahead : List Char) : Prop where
  gap : Gap tile.gap (tile.token.text.toList ++ ahead)
  whole : NoGapAhead (tile.token.text.toList ++ ahead)
  longest : tile.token.lexeme.Longest tile.token.text.toList (tile.token.text.toList ++ ahead)
  pos : tile.token.pos = .behind (behind ++ tile.gap)

/-- Tiles lie side by side behind `behind`, up to a last gap. -/
def Tile.FitAll (behind : List Char) (tiles : List Tile) (last : List Char) : Prop :=
  ∀ before tile after, tiles = before ++ tile :: after →
    tile.Fits (behind ++ Tile.join before) (Tile.join after ++ last)

theorem Tile.fitAll_nil (behind last : List Char) : Tile.FitAll behind [] last := by
  intro before tile after h
  exact absurd h (by simp)

theorem Tile.fitAll_cons {behind last : List Char} {tile : Tile} {tiles : List Tile}
    (htile : tile.Fits behind (Tile.join tiles ++ last))
    (htiles : Tile.FitAll (behind ++ tile.text) tiles last) :
    Tile.FitAll behind (tile :: tiles) last := by
  intro before tile' after h
  cases before with
  | nil =>
    rw [List.nil_append, List.cons.injEq] at h
    obtain ⟨rfl, rfl⟩ := h
    rw [Tile.join, List.flatMap_nil, List.append_nil]
    exact htile
  | cons first before =>
    rw [List.cons_append, List.cons.injEq] at h
    obtain ⟨rfl, rfl⟩ := h
    rw [Tile.join, List.flatMap_cons, ← List.append_assoc]
    exact htiles before tile' after rfl

/-! ## Scanning lays tiles -/

/-- One step of a scan lays a tile, or finds that a last gap is all there is. -/
theorem Cursor.tile_of_next {c c' : Cursor} {behind : List Char} (hpos : c.pos = .behind behind)
    {t : Token} (h : c.next = (.ok t, c')) :
    (Gap c.rest [] ∧ t = ⟨.eof, "", .behind (behind ++ c.rest)⟩) ∨
      ∃ tile : Tile, tile.token = t ∧ c.rest = tile.text ++ c'.rest ∧ tile.Fits behind c'.rest ∧
        c'.pos = .behind (behind ++ tile.text) := by
  unfold next at h
  split at h
  · cases h
  next c₁ hskip =>
    obtain ⟨gap, hrest, hpos₁, hgap, hwhole⟩ := skipGap_ok hskip
    rw [hpos, Pos.advance_behind] at hpos₁
    rcases token_ok h with ⟨hend, rfl⟩ | htakes
    · refine Or.inl ?_
      rw [hend, List.append_nil] at hrest
      rw [hrest, ← hpos₁, ← hend]
      exact ⟨hgap, rfl⟩
    · have hlongest := longest_token h htakes
      rw [htakes.text] at hrest hgap hwhole hlongest
      refine Or.inr ⟨⟨gap, t⟩, rfl, ?_, ⟨hgap, hwhole, hlongest, ?_⟩, ?_⟩
      · rw [hrest, Tile.text, List.append_assoc]
      · exact htakes.pos.trans hpos₁
      · rw [htakes.next, hpos₁, Pos.advance_behind, Tile.text, List.append_assoc]

theorem Tile.length_pos {tile : Tile} {behind ahead : List Char} (h : tile.Fits behind ahead) :
    0 < tile.text.length := by
  have := List.length_pos_iff.mpr h.longest.spelling.ne_nil
  rw [Tile.text, List.length_append]
  omega

theorem Tile.isEof_eq_false {tile : Tile} {behind ahead : List Char} (h : tile.Fits behind ahead) :
    tile.token.isEof = false :=
  decide_eq_false h.longest.spelling.ne_eof

/-- A scan that reaches the end lays tiles from the cursor on. -/
theorem Feed.tiles_of_scan {steps : Nat} {c : Cursor} {seen tokens : List Token}
    (behind : List Char) (hpos : c.pos = .behind behind) (hsteps : c.rest.length < steps)
    (h : (scan steps c seen).toTokens = .ok tokens) :
    ∃ (tiles : List Tile) (last : List Char),
      tokens = seen.reverse ++ tiles.map Tile.token ++ [⟨.eof, "", .behind (behind ++ c.rest)⟩] ∧
      c.rest = Tile.join tiles ++ last ∧ Tile.FitAll behind tiles last ∧ Gap last [] := by
  induction steps generalizing c behind seen with
  | zero => omega
  | succ steps ih =>
    rcases hx : c.next with ⟨result, c'⟩
    unfold scan at h
    rw [hx] at h
    cases result with
    | error e => cases h
    | ok t =>
      dsimp only at h
      rcases Cursor.tile_of_next hpos hx with ⟨hgap, rfl⟩ | ⟨tile, rfl, hrest, hfits, hpos'⟩
      · rw [show Token.isEof ⟨.eof, "", _⟩ = true from rfl, if_pos rfl] at h
        cases h
        exact ⟨[], c.rest, by simp, rfl, Tile.fitAll_nil _ _, hgap⟩
      · rw [Tile.isEof_eq_false hfits, if_neg Bool.false_ne_true] at h
        -- A tile has a character, so the steps that are left still suffice.
        have hlength : c'.rest.length < steps := by
          have hcs := congrArg List.length hrest
          have htile := Tile.length_pos hfits
          rw [List.length_append] at hcs
          omega
        obtain ⟨tiles, last, htokens, hjoin, htiles, hlast⟩ := ih _ hpos' hlength h
        refine ⟨tile :: tiles, last, ?_, ?_, ?_, hlast⟩
        · rw [htokens, hrest, List.append_assoc behind]
          simp
        · rw [hrest, hjoin, Tile.join, Tile.join, List.flatMap_cons, List.append_assoc]
        · rw [hjoin] at hfits
          exact Tile.fitAll_cons hfits htiles

/-- Scanning tiles the text. If a text has tokens, it is made of gaps and tokens in turn, up to a
last gap: each gap is made of blanks and comments and leaves none of them to what follows it, each
token is the longest that starts where it stands, and lies at the line and column of that place. The
one token behind all these is the end of the text, at its end. -/
theorem tokens_tile_source (source : String) (tokens : List Token)
    (h : tokenize source = .ok tokens) :
    ∃ (tiles : List Tile) (last : List Char),
      source.toList = Tile.join tiles ++ last ∧ Gap last [] ∧
      tokens = tiles.map Tile.token ++ [⟨.eof, "", .behind source.toList⟩] ∧
      (∀ tile ∈ tiles, tile.token.isEof = false) ∧
      ∀ before tile after, tiles = before ++ tile :: after →
        tile.Fits (Tile.join before) (Tile.join after ++ last) := by
  obtain ⟨tiles, last, htokens, hjoin, htiles, hlast⟩ :=
    Feed.tiles_of_scan (c := .ofText source.toList) [] rfl (Nat.lt_succ_self _) h
  refine ⟨tiles, last, hjoin, hlast, htokens, ?_, htiles⟩
  intro tile htile
  obtain ⟨before, after, hsplit⟩ := List.append_of_mem htile
  exact Tile.isEof_eq_false (htiles before tile after hsplit)

/-- Signs that share their first characters, comments of both kinds, and strings and comments that
run over lines. -/
theorem tokens_tile_source_close_calls :
    let source := "1..5.25.x/=a /* * \n/ **/ // b\n'c\n\\''/d--> 07"
    ∃ tokens, tokenize source = .ok tokens ∧
      tokens.map Token.text =
        ["1", "..", "5.25", ".", "x", "/=", "a", "\n", "'c\n\\''", "/", "d", "-", "->", "07", ""] ∧
      ∃ (tiles : List Tile) (last : List Char),
        source.toList = Tile.join tiles ++ last ∧ Gap last [] ∧
        tokens = tiles.map Tile.token ++ [⟨.eof, "", .behind source.toList⟩] ∧
        (∀ tile ∈ tiles, tile.token.isEof = false) ∧
        ∀ before tile after, tiles = before ++ tile :: after →
          tile.Fits (Tile.join before) (Tile.join after ++ last) := by
  intro source
  have heval : ((tokenize source).toOption.elim false fun tokens => decide (tokens.map Token.text =
      ["1", "..", "5.25", ".", "x", "/=", "a", "\n", "'c\n\\''", "/", "d", "-", "->", "07", ""])) =
        true := by
    decide +kernel
  cases htokens : tokenize source with
  | error e =>
    rw [htokens] at heval
    cases heval
  | ok tokens =>
    rw [htokens] at heval
    exact ⟨tokens, rfl, of_decide_eq_true heval, tokens_tile_source source tokens htokens⟩

end Dee
