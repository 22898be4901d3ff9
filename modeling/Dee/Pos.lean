/-!
# Positions

A place in a source text: line and column, both counted from one, in characters. Hosts may hand in
any pair of integers; a pair with no positive part names no place.
-/

namespace Dee

/-- A line and a column. -/
structure Pos where
  line : Int
  column : Int
deriving Repr, DecidableEq, Inhabited

namespace Pos

/-- No particular place. -/
def nowhere : Pos := ⟨0, 0⟩

/-- The first character of a text. -/
def start : Pos := ⟨1, 1⟩

/-- The position behind a character: a newline starts the next line, any other character takes one
column. -/
def next (p : Pos) (c : Char) : Pos :=
  if c = '\n' then ⟨p.line + 1, 1⟩ else ⟨p.line, p.column + 1⟩

/-- The position behind a run of characters. -/
def advance (p : Pos) (cs : List Char) : Pos :=
  cs.foldl next p

@[simp] theorem advance_nil (p : Pos) : p.advance [] = p := rfl

@[simp] theorem advance_cons (p : Pos) (c : Char) (cs : List Char) :
    p.advance (c :: cs) = (p.next c).advance cs := rfl

@[simp] theorem advance_append (p : Pos) (cs ds : List Char) :
    p.advance (cs ++ ds) = (p.advance cs).advance ds := by
  simp [advance]

end Pos

end Dee
