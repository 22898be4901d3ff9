import Dee.Grammar.Stream

/-!
# Expressions

Operators bind from weakest to strongest: `or`, `and` and `xor` together; comparisons; sums;
products; signs and `not`; calls, indices, members and type checks; and what stands in brackets.
All binary operators associate to the left.

Each rule is written over `Rules`, the parsers for what is nested inside. The rules are tied
together in `Dee.Grammar.Program`, level by level.
-/

namespace Dee.Grammar

/-- The parsers for nested parts. -/
structure Rules where
  /-- A bound on the rounds of every repetition. -/
  rounds : Nat
  expression : Parser Expr
  /-- An operand of a sign or of `not`. -/
  operand : Parser Expr
  statement : Parser Stmt

/-! ## Statement lists -/

/-- What a list of statements runs up to. -/
inductive Closing where
  | file
  | branch
  | body
deriving Repr, DecidableEq

def Closing.stops (c : Closing) (t : Token) : Bool :=
  match c with
  | .file => t.isEof
  | .branch => t.isKeyword .elseKw || t.isKeyword .endKw
  | .body => t.isKeyword .endKw

def Closing.wanted : Closing → Wanted
  | .file => .endOfInput
  | .branch => .elseOrEnd
  | .body => .endWord

/-- Whether a statement may end before a token without a separator. -/
def endsStatement (t : Token) : Bool :=
  t.isKeyword .endKw || t.isKeyword .elseKw || t.isEof

/-- Takes statements up to a closing token, which stays. -/
def moreStatements (statement : Parser Stmt) (closing : Closing) :
    (rounds : Nat) → (seen : List Stmt) → Parser (List Stmt)
  | 0, _ => throw .tooDeep
  | rounds + 1, seen => do
    let t ← current
    if closing.stops t then return seen.reverse
    else if t.isEof then failAt t (.expected closing.wanted t)
    else
      let s ← statement
      let t ← current
      if closing.stops t || endsStatement t then
        moreStatements statement closing rounds (s :: seen)
      else if t.isSeparator then
        skipSeparators
        moreStatements statement closing rounds (s :: seen)
      else failAt t (.expected .separator t)

/-- Takes a list of statements; separators may stand before the first. -/
def statements (r : Rules) (closing : Closing) : Parser (List Stmt) := do
  skipSeparators
  moreStatements r.statement closing r.rounds []

/-! ## Functions -/

/-- Takes a function, with the keyword as the current token. -/
def functionLiteral (r : Rules) : Parser Expr := do
  let start ← advance
  let params ←
    match ← acceptSymbol .openParen with
    | some _ => bracketed r.rounds .closeParen .closeParen expectName
    | none => pure []
  let names := params.map Token.text
  match ← acceptKeyword .isKw with
  | some _ =>
    let body ← statements r .body
    let _ ← expect (·.isKeyword .endKw) .endWord
    return .function start.pos names body none
  | none =>
    match ← accept fun t => t.isSymbol .arrow || t.isSymbol .thinArrow with
    | some _ =>
      let e ← r.expression
      return .function start.pos names [] (some e)
    | none =>
      let t ← current
      failAt t (.expected .functionBody t)

/-! ## Primary expressions -/

/-- Takes an entry of a tuple: a name with a value, or a value. -/
def tupleEntry (r : Rules) : Parser TupleEntry := do
  let e ← r.expression
  match e with
  | .reference _ name =>
    match ← acceptSymbol .assign with
    | some _ =>
      let value ← r.expression
      return ⟨some name, value⟩
    | none => return ⟨none, e⟩
  | _ => return ⟨none, e⟩

/-- Takes a literal, a name, a function or something in brackets. -/
def primary (r : Rules) : Parser Expr := do
  let t ← current
  match t.lexeme with
  | .literal value =>
    let _ ← advance
    return .ofScalar t.pos value
  | .name =>
    let _ ← advance
    return .reference t.pos t.text
  | .symbol .openParen =>
    let _ ← advance
    skipNewlines
    let e ← r.expression
    skipNewlines
    let _ ← expect (·.isSymbol .closeParen) .closeParen
    return e
  | .symbol .openBracket =>
    let _ ← advance
    let elements ← bracketed r.rounds .closeBracket .closeBracket r.expression
    return .array t.pos elements
  | .symbol .openBrace =>
    let _ ← advance
    let entries ← bracketed r.rounds .closeBrace .closeBrace (tupleEntry r)
    return .tuple t.pos entries
  | .keyword .funcKw => functionLiteral r
  | .eof => failAt t .unexpectedEnd
  | _ => if t.isTypeWord then failAt t (.reserved t.text) else failAt t (.unexpected t)

/-! ## Calls, indices, members, type checks -/

/-- The most digits that the position of a member may have. -/
def maxPositionDigits : Nat := 4300

/-- Reads the position of a member. -/
def position (ds : List Char) : Parser Member :=
  if maxPositionDigits < ds.length then throw (.longPosition ds.length)
  else return .position (Decimal.toNat ds)

/-- Takes what follows the dot of a member: a name, a position, or two positions that the scanner
took for a real. -/
def member (target : Expr) (dot : Token) : Parser Expr := do
  let t ← current
  match t.lexeme with
  | .name =>
    let _ ← advance
    return .member dot.pos target (.named t.text)
  | .literal (.int _) =>
    let _ ← advance
    let m ← position t.text.toList
    return .member dot.pos target m
  | .literal (.real _) =>
    let _ ← advance
    let ds := t.text.toList
    let first ← position (ds.takeWhile Decimal.isDigit)
    let second ← position ((ds.dropWhile Decimal.isDigit).drop 1)
    return .member t.pos (.member dot.pos target first) second
  | _ =>
    if t.isTypeWord then failAt t (.reserved t.text) else failAt t (.expected .member t)

/-- Whether a token is a word that indicates a type: a type word, `func`, `none` or a name. -/
def isIndicatorWord (t : Token) : Bool :=
  t.isTypeWord || t.isKeyword .funcKw || t.lexeme = .literal .none || t.lexeme = .name

def indicator : Parser String := do
  let t ← current
  if isIndicatorWord t then
    let _ ← advance
    return t.text
  else
    match ← acceptSymbol .openBracket with
    | some _ =>
      let _ ← expect (·.isSymbol .closeBracket) .closeBracket
      return Kind.arrayBrackets
    | none =>
      match ← acceptSymbol .openBrace with
      | some _ =>
        let _ ← expect (·.isSymbol .closeBrace) .closeBrace
        return Kind.tupleBrackets
      | none => failAt t (.expected .indicator t)

def trailers (r : Rules) : (rounds : Nat) → Expr → Parser Expr
  | 0, _ => throw .tooDeep
  | rounds + 1, e => do
    let t ← current
    match t.lexeme with
    | .symbol .openParen =>
      let _ ← advance
      let args ← bracketed r.rounds .closeParen .closeParen r.expression
      trailers r rounds (.call t.pos e args)
    | .symbol .openBracket =>
      let _ ← advance
      skipNewlines
      let index ← r.expression
      skipNewlines
      let _ ← expect (·.isSymbol .closeBracket) .closeBracket
      trailers r rounds (.index t.pos e index)
    | .symbol .dot =>
      let _ ← advance
      let e ← member e t
      trailers r rounds e
    | .keyword .isKw =>
      let _ ← advance
      let text ← indicator
      trailers r rounds (.typeCheck t.pos e text)
    | _ => return e

/-! ## Operators -/

def isUnaryOp (t : Token) : Bool :=
  t.isSymbol .plus || t.isSymbol .minus || t.isKeyword .notKw

def isProductOp (t : Token) : Bool :=
  t.isSymbol .star || t.isSymbol .slash

def isSumOp (t : Token) : Bool :=
  t.isSymbol .plus || t.isSymbol .minus

def isComparisonOp (t : Token) : Bool :=
  t.isSymbol .less || t.isSymbol .lessEqual || t.isSymbol .greater || t.isSymbol .greaterEqual ||
    t.isSymbol .equal || t.isSymbol .notEqual

def isLogicalOp (t : Token) : Bool :=
  t.isKeyword .andKw || t.isKeyword .orKw || t.isKeyword .xorKw

/-- Takes signs and `not` before an expression. -/
def unary (r : Rules) : Parser Expr := do
  let t ← current
  if isUnaryOp t then
    let _ ← advance
    let e ← r.operand
    return .unary t.pos t.text e
  else
    let e ← primary r
    trailers r r.rounds e

/-- Takes operators of one strength, each with its right operand. -/
def moreOperands (isOp : Token → Bool) (operand : Parser Expr) :
    (rounds : Nat) → Expr → Parser Expr
  | 0, _ => throw .tooDeep
  | rounds + 1, left => do
    match ← accept isOp with
    | none => return left
    | some op =>
      let right ← operand
      moreOperands isOp operand rounds (.binary op.pos op.text left right)

/-- Takes operands joined by operators of one strength. -/
def joined (rounds : Nat) (isOp : Token → Bool) (operand : Parser Expr) : Parser Expr := do
  let left ← operand
  moreOperands isOp operand rounds left

def expression (r : Rules) : Parser Expr :=
  joined r.rounds isLogicalOp <|
    joined r.rounds isComparisonOp <|
      joined r.rounds isSumOp <|
        joined r.rounds isProductOp (unary r)

end Dee.Grammar
