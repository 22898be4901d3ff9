import Dee.Grammar.Statement
import Dee.Limits

/-!
# Whole programs

Ties the rules together: the rules of one level read their nested parts by the rules of the level
below, and at level zero the text is nested too deeply. So parsing recurses on the level alone, and
every rule is a plain function of the rules below it.
-/

namespace Dee.Grammar

/-- The rules that accept `level` levels of nesting. -/
def Rules.ofLevel (rounds : Nat) : (level : Nat) → Rules
  | 0 =>
    { rounds
      expression := throw .tooDeep
      operand := throw .tooDeep
      statement := throw .tooDeep }
  | level + 1 =>
    let below := Rules.ofLevel rounds level
    { rounds
      expression := Grammar.expression below
      operand := Grammar.unary below
      statement := Grammar.statement below }

/-- Reads a program with a given bound on nesting. -/
def parseFeed (nesting : Nat) (f : Feed) : Except Failure Program := do
  let stream ← Stream.ofFeed f
  let rules := Rules.ofLevel (f.tokens.length + 1) nesting
  let (body, _) ← (statements rules .file).run stream
  return ⟨body, .start⟩

end Dee.Grammar

/-- The program that a text stands for. -/
def Dee.parse (source : String) (limits : Dee.Limits := .standard) :
    Except Dee.Grammar.Failure Dee.Program :=
  Dee.Grammar.parseFeed limits.nesting (Dee.Feed.ofText source)
