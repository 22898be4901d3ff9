import Dee.Token

/-!
# The reading cursor

A cursor stands between two characters of a source text. It knows how many characters lie behind
it, the position of the next one, and the characters ahead. `Cursor.take` is the only way forward,
so offset and position always speak of the characters taken.

Blanks and comments carry no meaning: `Cursor.skipGap` takes them in one walk over the characters.
-/

namespace Dee

/-- A place in a source text. -/
structure Cursor where
  offset : Nat
  pos : Pos
  rest : List Char
deriving Repr, DecidableEq

namespace Cursor

/-- The cursor before the first character. -/
def ofText (source : List Char) : Cursor := ⟨0, .start, source⟩

/-- The cursor behind `taken`, where `rest` is what follows it. -/
def take (c : Cursor) (taken rest : List Char) : Cursor :=
  ⟨c.offset + taken.length, c.pos.advance taken, rest⟩

/-! ## Gaps -/

/-- Blanks are spaces, tabs and carriage returns; a line end is a token of its own. -/
def isBlank (ch : Char) : Bool :=
  ch = ' ' || ch = '\t' || ch = '\r'

/-- Where in a gap the cursor stands. -/
inductive GapMode where
  | between
  /-- In a comment that runs up to the end of the line. -/
  | lineComment
  /-- In a comment that was opened at `opened` and runs up to the first star and slash. -/
  | blockComment (opened : Pos)
deriving Repr, DecidableEq

/-- Walks over a gap: blanks, comments up to the end of their line, comments between marks. A
comment that is never closed fails at its opening and leaves the cursor at the end of the text. -/
def skipGapFrom (offset : Nat) (pos : Pos) :
    GapMode → List Char → Except (Located LexError) Unit × Cursor
  | .between, '/' :: '/' :: rest =>
    skipGapFrom (offset + 2) (pos.advance ['/', '/']) .lineComment rest
  | .between, '/' :: '*' :: rest =>
    skipGapFrom (offset + 2) (pos.advance ['/', '*']) (.blockComment pos) rest
  | .between, ch :: rest =>
    if isBlank ch then skipGapFrom (offset + 1) (pos.next ch) .between rest
    else (.ok (), ⟨offset, pos, ch :: rest⟩)
  | .between, [] => (.ok (), ⟨offset, pos, []⟩)
  | .lineComment, ch :: rest =>
    if ch = '\n' then (.ok (), ⟨offset, pos, ch :: rest⟩)
    else skipGapFrom (offset + 1) (pos.next ch) .lineComment rest
  | .lineComment, [] => (.ok (), ⟨offset, pos, []⟩)
  | .blockComment _, '*' :: '/' :: rest =>
    skipGapFrom (offset + 2) (pos.advance ['*', '/']) .between rest
  | .blockComment opened, ch :: rest =>
    skipGapFrom (offset + 1) (pos.next ch) (.blockComment opened) rest
  | .blockComment opened, [] => (.error ⟨.unclosedComment, opened⟩, ⟨offset, pos, []⟩)

def skipGap (c : Cursor) : Except (Located LexError) Unit × Cursor :=
  skipGapFrom c.offset c.pos .between c.rest

end Cursor

end Dee
