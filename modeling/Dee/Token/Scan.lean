import Dee.Text.Letter
import Dee.Text.Numeral
import Dee.Token.Cursor

/-!
# Scanning

`Cursor.next` takes a gap and the token behind it. Which kind of token starts is decided by one or
two characters; each kind then has a splitting rule on the characters ahead that takes as many of
them as the kind allows.

A failed scan also moves the cursor: to the end of the text if something was left open, and not at
all if a character starts no token.

`Feed.ofText` scans a whole text: its tokens up to the end or up to the first failure.
-/

namespace Dee

/-! ## Splitting rules -/

def startsName (c : Char) : Bool :=
  Text.isLetter c || c = '_'

def continuesName (c : Char) : Bool :=
  Text.isLetter c || Text.isNumeral c || c = '_'

/-- The character that an escape sequence stands for: line end, tab and carriage return have
letters, every other character stands for itself. -/
def unescape : Char → Char
  | 'n' => '\n'
  | 't' => '\t'
  | 'r' => '\r'
  | c => c

/-- The inside of a quoted text, behind the opening quote. -/
structure Quoted where
  /-- The characters that the text stands for. -/
  value : List Char
  /-- The characters up to and including the closing quote. -/
  taken : List Char
  /-- The characters behind the closing quote. -/
  rest : List Char
deriving Repr, DecidableEq

/-- Reads up to the closing quote; a backslash takes the next character with it. There is no result
if the quote is never closed. -/
def Quoted.read? (quote : Char) : List Char → Option Quoted
  | [] => none
  | [c] => if c = quote then some ⟨[], [c], []⟩ else none
  | c :: d :: rest =>
    if c = quote then some ⟨[], [c], d :: rest⟩
    else if c = '\\' then
      (Quoted.read? quote rest).map fun q => ⟨unescape d :: q.value, c :: d :: q.taken, q.rest⟩
    else
      (Quoted.read? quote (d :: rest)).map fun q => ⟨c :: q.value, c :: q.taken, q.rest⟩

/-- Reading splits the characters: nothing is lost. -/
theorem Quoted.taken_append_rest {quote : Char} {s : List Char} {q : Quoted}
    (h : Quoted.read? quote s = some q) : q.taken ++ q.rest = s := by
  fun_induction Quoted.read? quote s generalizing q with
  | case1 => simp at h
  | case2 => cases h; rfl
  | case3 => simp at h
  | case4 => cases h; rfl
  | case5 d rest _ ih =>
    obtain ⟨r, hr, rfl⟩ := Option.map_eq_some_iff.mp h
    simp [ih hr]
  | case6 c d rest _ _ ih =>
    obtain ⟨r, hr, rfl⟩ := Option.map_eq_some_iff.mp h
    simp [ih hr]

/-- The digits of a number: the whole part, and the fraction if a point and a digit follow. -/
structure Numeric where
  whole : List Char
  fraction : List Char
  rest : List Char
deriving Repr, DecidableEq

/-- Reads a number. A point belongs to it only if a digit follows the point. -/
def Numeric.read (s : List Char) : Numeric :=
  let whole := s.takeWhile Decimal.isDigit
  match s.dropWhile Decimal.isDigit with
  | '.' :: d :: rest =>
    if Decimal.isDigit d then
      ⟨whole, (d :: rest).takeWhile Decimal.isDigit, (d :: rest).dropWhile Decimal.isDigit⟩
    else ⟨whole, [], '.' :: d :: rest⟩
  | rest => ⟨whole, [], rest⟩

/-- The characters that a number was read from. -/
def Numeric.taken (n : Numeric) : List Char :=
  if n.fraction.isEmpty then n.whole else n.whole ++ '.' :: n.fraction

/-- Reading splits the characters: nothing is lost. -/
theorem Numeric.taken_append_rest (s : List Char) :
    (Numeric.read s).taken ++ (Numeric.read s).rest = s := by
  have hs : s.takeWhile Decimal.isDigit ++ s.dropWhile Decimal.isDigit = s :=
    List.takeWhile_append_dropWhile
  unfold Numeric.read
  split
  next d rest h =>
    rw [h] at hs
    split
    next hd =>
      have hr : rest.takeWhile Decimal.isDigit ++ rest.dropWhile Decimal.isDigit = rest :=
        List.takeWhile_append_dropWhile
      rw [Numeric.taken, List.takeWhile_cons_of_pos hd, List.dropWhile_cons_of_pos hd]
      simp only [List.isEmpty_cons, Bool.false_eq_true, if_false, List.append_assoc,
        List.cons_append, hr]
      exact hs
    next => exact hs
  next => exact hs

/-- The value of a number: a real if it has a fraction, else an integer. -/
def Numeric.value (n : Numeric) : Scalar :=
  if n.fraction.isEmpty then .int (Decimal.toNat n.whole)
  else .real (Real.ofDigits n.whole n.fraction)

/-- What a word means: a literal, a keyword or a name. -/
def Lexeme.ofWord (s : String) : Lexeme :=
  if s = "true" then .literal (.bool true)
  else if s = "false" then .literal (.bool false)
  else if s = "none" then .literal .none
  else
    match Keyword.ofText? s with
    | some k => .keyword k
    | none => .name

/-! ## The next token -/

namespace Cursor

/-- The outcome of one scan and the cursor behind it. -/
abbrev Scanned := Except (Located LexError) Token × Cursor

/-- A token with the given meaning, made of `taken`. -/
def emit (c : Cursor) (lexeme : Lexeme) (taken rest : List Char) : Scanned :=
  (.ok ⟨lexeme, String.ofList taken, c.pos⟩, c.take taken rest)

/-- The symbol that starts at the cursor, with its text and what follows; two characters before
one. -/
def symbol? (s : List Char) : Option (Symbol × List Char × List Char) :=
  match s with
  | a :: b :: rest =>
    match Symbol.ofPair? a b with
    | some symbol => some (symbol, [a, b], rest)
    | none => (Symbol.ofChar? a).map fun symbol => (symbol, [a], b :: rest)
  | [a] => (Symbol.ofChar? a).map fun symbol => (symbol, [a], [])
  | [] => none

theorem symbol?_append {s taken rest : List Char} {symbol : Symbol}
    (h : symbol? s = some (symbol, taken, rest)) : taken ++ rest = s := by
  unfold symbol? at h
  split at h
  next a b _ =>
    split at h
    next => cases h; rfl
    next =>
      obtain ⟨_, _, he⟩ := Option.map_eq_some_iff.mp h
      cases he; rfl
  next =>
    obtain ⟨_, _, he⟩ := Option.map_eq_some_iff.mp h
    cases he; rfl
  next => simp at h

/-- Scans the token at a cursor that stands behind a gap. -/
def token (c : Cursor) : Scanned :=
  match c.rest with
  | [] => (.ok ⟨.eof, "", c.pos⟩, c)
  | ch :: rest =>
    if ch = '\n' then c.emit .newline [ch] rest
    else if Decimal.isDigit ch then
      let n := Numeric.read (ch :: rest)
      c.emit (.literal n.value) n.taken n.rest
    else if ch = '\x22' ∨ ch = '\x27' then
      match Quoted.read? ch rest with
      | some q => c.emit (.literal (.str (String.ofList q.value))) (ch :: q.taken) q.rest
      | none => (.error ⟨.unclosedString, c.pos⟩, c.take (ch :: rest) [])
    else if startsName ch then
      let word := (ch :: rest).takeWhile continuesName
      c.emit (.ofWord (String.ofList word)) word ((ch :: rest).dropWhile continuesName)
    else
      match symbol? (ch :: rest) with
      | some (symbol, taken, rest) => c.emit (.symbol symbol) taken rest
      | none => (.error ⟨.unexpected ch, c.pos⟩, c)

/-- Takes the gap at the cursor and the token behind it. -/
def next (c : Cursor) : Scanned :=
  match c.skipGap with
  | (.error e, c) => (.error e, c)
  | (.ok (), c) => c.token

end Cursor

/-! ## Whole texts -/

/-- The tokens of a text before its end, and the end: its token, or the failure that stopped the
scan. -/
structure Feed where
  tokens : List Token
  ending : Except (Located LexError) Token

namespace Feed

/-- Scans on from a cursor. Every token takes at least one character, so as many steps as there
are characters, and one for the end, are enough. -/
def scan : (steps : Nat) → Cursor → (seen : List Token) → Feed
  | 0, c, seen => ⟨seen.reverse, .ok ⟨.eof, "", c.pos⟩⟩
  | steps + 1, c, seen =>
    match c.next with
    | (.error e, _) => ⟨seen.reverse, .error e⟩
    | (.ok t, c) => if t.isEof then ⟨seen.reverse, .ok t⟩ else scan steps c (t :: seen)

def ofText (source : String) : Feed :=
  let cs := source.toList
  scan (cs.length + 1) (.ofText cs) []

/-- All tokens of a text with the end as the last one, or the first failure. -/
def toTokens (f : Feed) : Except (Located LexError) (List Token) :=
  f.ending.map fun eof => f.tokens ++ [eof]

end Feed

def tokenize (source : String) : Except (Located LexError) (List Token) :=
  (Feed.ofText source).toTokens

end Dee
