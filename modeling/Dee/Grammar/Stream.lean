import Dee.Program.Basic
import Dee.Token.Scan

/-!
# Token streams

A parser looks at one token and moves on by taking it. The stream ends with the token for the end
of the text, which is never passed, or with the failure that stopped the scan, which shows when the
last good token is taken.

Repetitions are bounded by the number of tokens, since every round takes at least one.
-/

namespace Dee.Grammar

/-! ## Failures -/

/-- What a parser wanted to see. -/
inductive Wanted where
  | endOfInput
  | elseOrEnd
  | endWord
  | separator
  | thenOrArrow
  | loopWord
  | identifier
  | closeParen
  | closeBracket
  | closeBrace
  | member
  | indicator
  | functionBody
deriving Repr, DecidableEq

def Wanted.label : Wanted → String
  | .endOfInput => "end of input"
  | .elseOrEnd => "'else' or 'end'"
  | .endWord => "'end'"
  | .separator => "';' or newline"
  | .thenOrArrow => "'then' or '=>'"
  | .loopWord => "'loop'"
  | .identifier => "identifier"
  | .closeParen => "')'"
  | .closeBracket => "']'"
  | .closeBrace => "'\x7d'"
  | .member => "member name or index"
  | .indicator => "type indicator"
  | .functionBody => "'is', '=>' or '->'"

/-- Why a list of tokens is no program. -/
inductive ParseError where
  | expected (wanted : Wanted) (found : Token)
  | unexpected (found : Token)
  | unexpectedEnd
  | reserved (word : String)
  | invalidTarget
deriving Repr, DecidableEq

def ParseError.message : ParseError → String
  | .expected wanted found => "Expected " ++ wanted.label ++ " but found " ++ found.describe
  | .unexpected found => "Unexpected token " ++ found.describe
  | .unexpectedEnd => "Unexpected end of input"
  | .reserved word => "Reserved word '" ++ word ++ "' cannot be used as an identifier"
  | .invalidTarget => "Invalid assignment target"

instance : Explain ParseError := ⟨ParseError.message⟩

/-- Why parsing stopped. -/
inductive Failure where
  /-- The text has no next token. -/
  | scan (e : Located LexError)
  /-- The tokens form no program. -/
  | parse (e : Located ParseError)
  /-- The text is nested beyond the limit. -/
  | tooDeep
  /-- The position of a member has more digits than the limit. -/
  | longPosition (digits : Nat)
deriving Repr, DecidableEq

/-! ## Streams -/

/-- The token that is looked at and what follows it. -/
structure Stream where
  current : Token
  rest : List Token
  ending : Except (Located LexError) Token

def Stream.ofFeed (f : Feed) : Except Failure Stream :=
  match f.tokens, f.ending with
  | t :: rest, ending => .ok ⟨t, rest, ending⟩
  | [], .ok eof => .ok ⟨eof, [], .ok eof⟩
  | [], .error e => .error (.scan e)

/-- The stream behind the current token, which is not the end. -/
def Stream.tail (s : Stream) : Except Failure Stream :=
  match s.rest, s.ending with
  | t :: rest, ending => .ok ⟨t, rest, ending⟩
  | [], .ok eof => .ok ⟨eof, [], .ok eof⟩
  | [], .error e => .error (.scan e)

/-- A parser reads from a stream and gives a result, or fails. -/
abbrev Parser := StateT Stream (Except Failure)

def current : Parser Token :=
  return (← get).current

/-- Takes a token. The end is not passed. -/
def advance : Parser Token := fun s =>
  if s.current.isEof then .ok (s.current, s)
  else s.tail.map fun s' => (s.current, s')

def failAt {α : Type} (t : Token) (cause : ParseError) : Parser α :=
  throw (.parse ⟨cause, t.pos⟩)

/-- Takes the current token if it passes a test. -/
def accept (test : Token → Bool) : Parser (Option Token) := do
  if test (← current) then
    return some (← advance)
  else
    return none

def acceptSymbol (s : Symbol) : Parser (Option Token) :=
  accept (·.isSymbol s)

def acceptKeyword (k : Keyword) : Parser (Option Token) :=
  accept (·.isKeyword k)

/-- Takes the current token, which must pass a test. -/
def expect (test : Token → Bool) (wanted : Wanted) : Parser Token := do
  let t ← current
  if test t then advance else failAt t (.expected wanted t)

def expectName : Parser Token := do
  let t ← current
  if t.isTypeWord then failAt t (.reserved t.text)
  else expect (·.lexeme = .name) .identifier

/-- The first stream whose token fails a test. -/
def Stream.skipFrom (test : Token → Bool) (ending : Except (Located LexError) Token) :
    Token → List Token → Except Failure Stream
  | t, next :: rest =>
    if test t then skipFrom test ending next rest else .ok ⟨t, next :: rest, ending⟩
  | t, [] => if test t then Stream.tail ⟨t, [], ending⟩ else .ok ⟨t, [], ending⟩

/-- Takes tokens while they pass a test, which the end of the text does not. -/
def skipWhile (test : Token → Bool) : Parser Unit := fun s =>
  (Stream.skipFrom test s.ending s.current s.rest).map fun s' => ((), s')

def skipNewlines : Parser Unit := skipWhile Token.isNewline

/-- Takes line ends and semicolons. -/
def skipSeparators : Parser Unit := skipWhile Token.isSeparator

/-! ## Lists -/

/-- Takes items while a comma stands before the next one; `between` runs behind each comma. `seen`
holds the items so far, the last one first. -/
def moreItems {α : Type} (between : Parser Unit) (item : Parser α) :
    (rounds : Nat) → (seen : List α) → Parser (List α)
  | 0, _ => throw .tooDeep
  | rounds + 1, seen => do
    match ← acceptSymbol .comma with
    | none => return seen.reverse
    | some _ =>
      between
      let x ← item
      moreItems between item rounds (x :: seen)

/-- Takes one item and those that follow behind commas. -/
def items {α : Type} (rounds : Nat) (between : Parser Unit) (item : Parser α) :
    Parser (List α) := do
  let x ← item
  moreItems between item rounds [x]

/-- Takes the items of a bracketed list up to the closing symbol; line ends may stand around each
item. -/
def bracketedItems {α : Type} (closing : Symbol) (wanted : Wanted) (item : Parser α) :
    (rounds : Nat) → (seen : List α) → Parser (List α)
  | 0, _ => throw .tooDeep
  | rounds + 1, seen => do
    let x ← item
    skipNewlines
    match ← acceptSymbol .comma with
    | some _ =>
      skipNewlines
      bracketedItems closing wanted item rounds (x :: seen)
    | none =>
      let _ ← expect (·.isSymbol closing) wanted
      return (x :: seen).reverse

/-- Takes a bracketed list, behind its opening symbol. -/
def bracketed {α : Type} (rounds : Nat) (closing : Symbol) (wanted : Wanted) (item : Parser α) :
    Parser (List α) := do
  skipNewlines
  match ← acceptSymbol closing with
  | some _ => return []
  | none => bracketedItems closing wanted item rounds []

end Dee.Grammar
