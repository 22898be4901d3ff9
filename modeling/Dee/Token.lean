import Dee.Diagnostic
import Dee.Scalar

/-!
# Tokens

A token is a piece of source text with its position and what the piece means: a literal with its
value, a name, a keyword, a symbol, a line end, or the end of the text. The words `true`, `false`
and `none` are literals.
-/

namespace Dee

/-! ## Keywords -/

/-- A word with a fixed meaning. -/
inductive Keyword where
  | varKw
  | ifKw
  | thenKw
  | elseKw
  | endKw
  | whileKw
  | forKw
  | inKw
  | loopKw
  | exitKw
  | continueKw
  | funcKw
  | isKw
  | returnKw
  | printKw
  | andKw
  | orKw
  | xorKw
  | notKw
  | intKw
  | realKw
  | boolKw
  | stringKw
  | arrayKw
  | tupleKw
deriving Repr, DecidableEq

namespace Keyword

def text : Keyword → String
  | .varKw => "var"
  | .ifKw => "if"
  | .thenKw => "then"
  | .elseKw => "else"
  | .endKw => "end"
  | .whileKw => "while"
  | .forKw => "for"
  | .inKw => "in"
  | .loopKw => "loop"
  | .exitKw => "exit"
  | .continueKw => "continue"
  | .funcKw => "func"
  | .isKw => "is"
  | .returnKw => "return"
  | .printKw => "print"
  | .andKw => "and"
  | .orKw => "or"
  | .xorKw => "xor"
  | .notKw => "not"
  | .intKw => "int"
  | .realKw => "real"
  | .boolKw => "bool"
  | .stringKw => "string"
  | .arrayKw => "array"
  | .tupleKw => "tuple"

def all : List Keyword :=
  [.varKw, .ifKw, .thenKw, .elseKw, .endKw, .whileKw, .forKw, .inKw, .loopKw, .exitKw, .continueKw,
   .funcKw, .isKw, .returnKw, .printKw, .andKw, .orKw, .xorKw, .notKw, .intKw, .realKw, .boolKw,
   .stringKw, .arrayKw, .tupleKw]

def ofText? (s : String) : Option Keyword :=
  all.find? fun k => k.text = s

theorem ofText?_text (k : Keyword) : ofText? k.text = some k := by
  cases k <;> decide

/-- Whether a keyword may only stand as a type indicator. -/
def isTypeWord : Keyword → Bool
  | .intKw | .realKw | .boolKw | .stringKw | .arrayKw | .tupleKw => true
  | _ => false

end Keyword

/-! ## Symbols -/

/-- A mark of one or two characters. -/
inductive Symbol where
  | assign
  | arrow
  | thinArrow
  | range
  | plus
  | minus
  | star
  | slash
  | equal
  | notEqual
  | less
  | lessEqual
  | greater
  | greaterEqual
  | openParen
  | closeParen
  | openBracket
  | closeBracket
  | openBrace
  | closeBrace
  | comma
  | semicolon
  | dot
deriving Repr, DecidableEq

namespace Symbol

/-- The symbol that a pair of characters is. -/
def ofPair? : Char → Char → Option Symbol
  | ':', '=' => some .assign
  | '=', '>' => some .arrow
  | '-', '>' => some .thinArrow
  | '.', '.' => some .range
  | '=', '=' => some .equal
  | '!', '=' => some .notEqual
  | '/', '=' => some .notEqual
  | '<', '=' => some .lessEqual
  | '>', '=' => some .greaterEqual
  | _, _ => none

/-- The symbol that a single character is. -/
def ofChar? : Char → Option Symbol
  | '+' => some .plus
  | '-' => some .minus
  | '*' => some .star
  | '/' => some .slash
  | '=' => some .equal
  | '<' => some .less
  | '>' => some .greater
  | '(' => some .openParen
  | ')' => some .closeParen
  | '[' => some .openBracket
  | ']' => some .closeBracket
  | '\x7b' => some .openBrace
  | '\x7d' => some .closeBrace
  | ',' => some .comma
  | ';' => some .semicolon
  | '.' => some .dot
  | _ => none

end Symbol

/-! ## Tokens -/

/-- What a piece of source text means. -/
inductive Lexeme where
  | literal (value : Scalar)
  | name
  | keyword (keyword : Keyword)
  | symbol (symbol : Symbol)
  | newline
  | eof
deriving Repr, DecidableEq

/-- A piece of source text. -/
structure Token where
  lexeme : Lexeme
  text : String
  pos : Pos
deriving Repr, DecidableEq

namespace Token

def isEof (t : Token) : Bool := t.lexeme = .eof

def isNewline (t : Token) : Bool := t.lexeme = .newline

def isKeyword (t : Token) (k : Keyword) : Bool := t.lexeme = .keyword k

def isSymbol (t : Token) (s : Symbol) : Bool := t.lexeme = .symbol s

/-- Whether a token separates statements: a line end or a semicolon. -/
def isSeparator (t : Token) : Bool := t.isNewline || t.isSymbol .semicolon

/-- Whether a token is a word that may only stand as a type indicator. -/
def isTypeWord (t : Token) : Bool :=
  match t.lexeme with
  | .keyword k => k.isTypeWord
  | _ => false

def describe (t : Token) : String :=
  match t.lexeme with
  | .eof => "end of input"
  | .newline => "newline"
  | _ => "'" ++ t.text ++ "'"

end Token

/-! ## Failures of scanning -/

/-- Why a text has no next token. -/
inductive LexError where
  | unexpected (c : Char)
  | unclosedComment
  | unclosedString
deriving Repr, DecidableEq

def LexError.message : LexError → String
  | .unexpected c => "Unexpected character: '" ++ String.ofList [c] ++ "'"
  | .unclosedComment => "Unterminated multi-line comment"
  | .unclosedString => "Unterminated string literal"

instance : Explain LexError := ⟨LexError.message⟩

end Dee
