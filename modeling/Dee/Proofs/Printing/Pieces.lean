import Dee.Proofs.Token.Genuine
import Mathlib.Data.List.Forall2

/-!
# Printing programs

A program is printed as a list of pieces, each of which becomes one token. Brackets stand only where
precedence asks for them: around a left operand weaker than its operator, around a right operand not
stronger than it, around an operand weaker than a sign, around a base weaker than a call, an index,
a member or a type check, and around a function in any of these places.

A piece leaves some freedom in how it is spelled. A text prints a program if it consists of
spellings of its pieces with one blank between them.
-/

namespace Dee

/-! ## Pieces -/

/-- A piece of a printed program. -/
inductive Piece where
  | literal (value : Scalar)
  /-- The position of a member. -/
  | position (index : Int)
  | name (name : String)
  | keyword (keyword : Keyword)
  | symbol (symbol : Symbol)
  /-- An operator with one or two operands. -/
  | operator (text : String)
  /-- A word that indicates a type. -/
  | indicator (text : String)
  /-- What stands between statements. -/
  | separator
  /-- What stands between the parameters of a function and the expression that is its body. -/
  | bodyArrow
deriving DecidableEq

namespace Piece

/-- Pieces in parentheses, if they need them. -/
def guarded (needed : Bool) (ps : List Piece) : List Piece :=
  if needed then symbol .openParen :: (ps ++ [symbol .closeParen]) else ps

/-- Groups of pieces with commas between them. -/
def commas (groups : List (List Piece)) : List Piece :=
  [symbol .comma].intercalate groups

/-- Groups of pieces with separators between them. -/
def lines (groups : List (List Piece)) : List Piece :=
  [separator].intercalate groups

/-- The piece of a member. -/
def ofMember : Member → Piece
  | .named n => name n
  | .position index => position index

/-- The pieces of a type indicator. -/
def ofIndicator (text : String) : List Piece :=
  if text = Kind.arrayBrackets then [symbol .openBracket, symbol .closeBracket]
  else if text = Kind.tupleBrackets then [symbol .openBrace, symbol .closeBrace]
  else [indicator text]

/-- The piece of a loop before what it runs over. -/
def ofLoopVar : Option String → List Piece
  | none => []
  | some v => [name v, keyword .inKw]

end Piece

/-! ## Precedence -/

/-- The strength of a binary operator, from the weakest to the strongest. -/
def BinaryOp.strength : BinaryOp → Nat
  | .logical _ => 1
  | .order _ | .equality _ => 2
  | .arithmetic .add | .arithmetic .sub => 3
  | .arithmetic .mul | .arithmetic .div => 4

/-- The strength of the binary operator with a text. -/
def operatorStrength (text : String) : Nat :=
  ((BinaryOp.ofText? text).map BinaryOp.strength).getD 0

/-- The strength of signs and `not`. -/
def unaryStrength : Nat := 5

/-- The strength of calls, indices, members and type checks. -/
def postfixStrength : Nat := 6

/-- How strongly an expression holds together; a function is the weakest, since its body takes all
that follows. -/
def Expr.strength : Expr → Nat
  | .function _ _ _ _ => 0
  | .binary _ op _ _ => operatorStrength op
  | .unary _ _ _ => unaryStrength
  | .call _ _ _ | .index _ _ _ | .typeCheck _ _ _ | .member _ _ _ => postfixStrength
  | .literal _ _ _ | .reference _ _ | .array _ _ | .tuple _ _ => 7

/-! ## Printing -/

mutual

/-- The pieces of an expression. -/
@[simp] def Expr.pieces : Expr → List Piece
  | .literal _ value _ => [.literal value]
  | .reference _ name => [.name name]
  | .binary _ op left right =>
    Piece.guarded (left.strength < operatorStrength op) left.pieces ++
      .operator op :: Piece.guarded (right.strength ≤ operatorStrength op) right.pieces
  | .unary _ op operand =>
    .operator op :: Piece.guarded (operand.strength < unaryStrength) operand.pieces
  | .call _ func args =>
    Piece.guarded (func.strength < postfixStrength) func.pieces ++
      .symbol .openParen :: (Piece.commas (Expr.piecesAll args) ++ [.symbol .closeParen])
  | .index _ value index =>
    Piece.guarded (value.strength < postfixStrength) value.pieces ++
      .symbol .openBracket :: (index.pieces ++ [.symbol .closeBracket])
  | .array _ elements =>
    .symbol .openBracket :: (Piece.commas (Expr.piecesAll elements) ++ [.symbol .closeBracket])
  | .tuple _ entries =>
    .symbol .openBrace :: (Piece.commas (TupleEntry.piecesAll entries) ++ [.symbol .closeBrace])
  | .function _ params statements none =>
    .keyword .funcKw :: .symbol .openParen :: (Piece.commas (params.map fun p => [.name p]) ++
      .symbol .closeParen :: .keyword .isKw ::
        (Piece.lines (Stmt.piecesAll statements) ++ [.keyword .endKw]))
  | .function _ params _ (some e) =>
    .keyword .funcKw :: .symbol .openParen :: (Piece.commas (params.map fun p => [.name p]) ++
      .symbol .closeParen :: .bodyArrow :: e.pieces)
  | .typeCheck _ value indicator =>
    Piece.guarded (value.strength < postfixStrength) value.pieces ++
      .keyword .isKw :: Piece.ofIndicator indicator
  | .member _ value m =>
    Piece.guarded (value.strength < postfixStrength) value.pieces ++ [.symbol .dot, .ofMember m]

/-- The pieces of each of some expressions. -/
@[simp] def Expr.piecesAll : List Expr → List (List Piece)
  | [] => []
  | e :: rest => e.pieces :: Expr.piecesAll rest

/-- The pieces of each entry of a tuple. -/
@[simp] def TupleEntry.piecesAll : List TupleEntry → List (List Piece)
  | [] => []
  | ⟨none, e⟩ :: rest => e.pieces :: TupleEntry.piecesAll rest
  | ⟨some name, e⟩ :: rest =>
    (.name name :: .symbol .assign :: e.pieces) :: TupleEntry.piecesAll rest

/-- The pieces of a statement. A block by itself has no form of its own: its statements stand for
it. -/
@[simp] def Stmt.pieces : Stmt → List Piece
  | .declaration _ vars => .keyword .varKw :: Piece.commas (VarDef.piecesAll vars)
  | .assign _ target value => target.pieces ++ .symbol .assign :: value.pieces
  | .block ⟨_, body⟩ => Piece.lines (Stmt.piecesAll body)
  | .conditional _ condition ⟨_, body⟩ none =>
    .keyword .ifKw :: (condition.pieces ++
      .keyword .thenKw :: (Piece.lines (Stmt.piecesAll body) ++ [.keyword .endKw]))
  | .conditional _ condition ⟨_, body⟩ (some ⟨_, other⟩) =>
    .keyword .ifKw :: (condition.pieces ++
      .keyword .thenKw :: (Piece.lines (Stmt.piecesAll body) ++
        .keyword .elseKw :: (Piece.lines (Stmt.piecesAll other) ++ [.keyword .endKw])))
  | .whileLoop _ condition ⟨_, body⟩ =>
    .keyword .whileKw :: (condition.pieces ++
      .keyword .loopKw :: (Piece.lines (Stmt.piecesAll body) ++ [.keyword .endKw]))
  | .forLoop _ _ ⟨_, body⟩ none _ =>
    .keyword .loopKw :: (Piece.lines (Stmt.piecesAll body) ++ [.keyword .endKw])
  | .forLoop _ loopVar ⟨_, body⟩ (some source) none =>
    .keyword .forKw :: (Piece.ofLoopVar loopVar ++ (source.pieces ++
      .keyword .loopKw :: (Piece.lines (Stmt.piecesAll body) ++ [.keyword .endKw])))
  | .forLoop _ loopVar ⟨_, body⟩ (some source) (some rangeEnd) =>
    .keyword .forKw :: (Piece.ofLoopVar loopVar ++ (source.pieces ++
      .symbol .range :: (rangeEnd.pieces ++
        .keyword .loopKw :: (Piece.lines (Stmt.piecesAll body) ++ [.keyword .endKw]))))
  | .returnStmt _ none => [.keyword .returnKw]
  | .returnStmt _ (some e) => .keyword .returnKw :: e.pieces
  | .exitStmt _ => [.keyword .exitKw]
  | .continueStmt _ => [.keyword .continueKw]
  | .print _ values => .keyword .printKw :: Piece.commas (Expr.piecesAll values)
  | .expr _ value => value.pieces

/-- The pieces of each of some statements. -/
@[simp] def Stmt.piecesAll : List Stmt → List (List Piece)
  | [] => []
  | s :: rest => s.pieces :: Stmt.piecesAll rest

/-- The pieces of each of some variables. -/
@[simp] def VarDef.piecesAll : List VarDef → List (List Piece)
  | [] => []
  | ⟨name, none⟩ :: rest => [.name name] :: VarDef.piecesAll rest
  | ⟨name, some e⟩ :: rest =>
    (.name name :: .symbol .assign :: e.pieces) :: VarDef.piecesAll rest

end

/-- The pieces of a program. -/
def Program.pieces (p : Program) : List Piece :=
  Piece.lines (Stmt.piecesAll p.statements)

/-! ## Nesting -/

/-- One level more, if there are parentheses. -/
def Piece.guardedNesting (needed : Bool) (levels : Nat) : Nat :=
  if needed then levels + 1 else levels

mutual

/-- How many levels of nesting lie inside a printed expression: each bracket, each operand of a sign
and each body opens one, and so does each pair of parentheses that precedence asks for. -/
@[simp] def Expr.nesting : Expr → Nat
  | .literal _ _ _ => 0
  | .reference _ _ => 0
  | .binary _ op left right =>
    max (Piece.guardedNesting (left.strength < operatorStrength op) left.nesting)
      (Piece.guardedNesting (right.strength ≤ operatorStrength op) right.nesting)
  | .unary _ _ operand =>
    Piece.guardedNesting (operand.strength < unaryStrength) operand.nesting + 1
  | .call _ func args =>
    max (Piece.guardedNesting (func.strength < postfixStrength) func.nesting)
      (Expr.nestingAll args)
  | .index _ value index =>
    max (Piece.guardedNesting (value.strength < postfixStrength) value.nesting) (index.nesting + 1)
  | .array _ elements => Expr.nestingAll elements
  | .tuple _ entries => TupleEntry.nestingAll entries
  | .function _ _ statements none => Stmt.nestingAll statements
  | .function _ _ _ (some e) => e.nesting + 1
  | .typeCheck _ value _ =>
    Piece.guardedNesting (value.strength < postfixStrength) value.nesting
  | .member _ value _ => Piece.guardedNesting (value.strength < postfixStrength) value.nesting

/-- The levels that some expressions open. -/
@[simp] def Expr.nestingAll : List Expr → Nat
  | [] => 0
  | e :: rest => max (e.nesting + 1) (Expr.nestingAll rest)

/-- The levels that the entries of a tuple open; a name is read as an expression. -/
@[simp] def TupleEntry.nestingAll : List TupleEntry → Nat
  | [] => 0
  | ⟨_, e⟩ :: rest => max (e.nesting + 1) (TupleEntry.nestingAll rest)

/-- How many levels of nesting lie inside a printed statement. -/
@[simp] def Stmt.nesting : Stmt → Nat
  | .declaration _ vars => VarDef.nestingAll vars
  | .assign _ target value => max target.nesting value.nesting + 1
  | .block ⟨_, body⟩ => Stmt.nestingAll body
  | .conditional _ condition ⟨_, body⟩ none =>
    max (condition.nesting + 1) (Stmt.nestingAll body)
  | .conditional _ condition ⟨_, body⟩ (some ⟨_, other⟩) =>
    max (condition.nesting + 1) (max (Stmt.nestingAll body) (Stmt.nestingAll other))
  | .whileLoop _ condition ⟨_, body⟩ => max (condition.nesting + 1) (Stmt.nestingAll body)
  | .forLoop _ _ ⟨_, body⟩ none _ => Stmt.nestingAll body
  | .forLoop _ _ ⟨_, body⟩ (some source) none => max (source.nesting + 1) (Stmt.nestingAll body)
  | .forLoop _ _ ⟨_, body⟩ (some source) (some rangeEnd) =>
    max (max source.nesting rangeEnd.nesting + 1) (Stmt.nestingAll body)
  | .returnStmt _ none => 0
  | .returnStmt _ (some e) => e.nesting + 1
  | .exitStmt _ => 0
  | .continueStmt _ => 0
  | .print _ values => Expr.nestingAll values
  | .expr _ value => value.nesting + 1

/-- The levels that some statements open. -/
@[simp] def Stmt.nestingAll : List Stmt → Nat
  | [] => 0
  | s :: rest => max (s.nesting + 1) (Stmt.nestingAll rest)

/-- The levels that the initial values of some variables open. -/
@[simp] def VarDef.nestingAll : List VarDef → Nat
  | [] => 0
  | ⟨_, none⟩ :: rest => VarDef.nestingAll rest
  | ⟨_, some e⟩ :: rest => max (e.nesting + 1) (VarDef.nestingAll rest)

end

/-- How many levels of nesting a printed program has. -/
def Program.nesting (p : Program) : Nat :=
  Stmt.nestingAll p.statements

/-! ## Lists -/

/-- The pieces of an entry of a tuple. -/
def TupleEntry.pieces (entry : TupleEntry) : List Piece :=
  match entry.name with
  | none => entry.value.pieces
  | some name => .name name :: .symbol .assign :: entry.value.pieces

/-- The pieces of a variable. -/
def VarDef.pieces (v : VarDef) : List Piece :=
  match v.initializer with
  | none => [.name v.name]
  | some e => .name v.name :: .symbol .assign :: e.pieces

theorem Expr.piecesAll_eq_map (es : List Expr) : Expr.piecesAll es = es.map Expr.pieces := by
  induction es with
  | nil => rfl
  | cons e rest ih => rw [Expr.piecesAll, ih, List.map_cons]

theorem Stmt.piecesAll_eq_map (ss : List Stmt) : Stmt.piecesAll ss = ss.map Stmt.pieces := by
  induction ss with
  | nil => rfl
  | cons s rest ih => rw [Stmt.piecesAll, ih, List.map_cons]

theorem TupleEntry.piecesAll_eq_map (entries : List TupleEntry) :
    TupleEntry.piecesAll entries = entries.map TupleEntry.pieces := by
  induction entries with
  | nil => rfl
  | cons entry rest ih =>
    obtain ⟨_ | name, e⟩ := entry
    · rw [TupleEntry.piecesAll, ih, List.map_cons]
      rfl
    · rw [TupleEntry.piecesAll, ih, List.map_cons]
      rfl

theorem VarDef.piecesAll_eq_map (vars : List VarDef) :
    VarDef.piecesAll vars = vars.map VarDef.pieces := by
  induction vars with
  | nil => rfl
  | cons v rest ih =>
    obtain ⟨name, _ | e⟩ := v
    · rw [VarDef.piecesAll, ih, List.map_cons]
      rfl
    · rw [VarDef.piecesAll, ih, List.map_cons]
      rfl

theorem Expr.nesting_lt_nestingAll {e : Expr} {es : List Expr} (h : e ∈ es) :
    e.nesting < Expr.nestingAll es := by
  induction es with
  | nil => cases h
  | cons e' rest ih =>
    rw [Expr.nestingAll]
    rcases List.mem_cons.mp h with rfl | h
    · omega
    · have := ih h
      omega

theorem Stmt.nesting_lt_nestingAll {s : Stmt} {ss : List Stmt} (h : s ∈ ss) :
    s.nesting < Stmt.nestingAll ss := by
  induction ss with
  | nil => cases h
  | cons s' rest ih =>
    rw [Stmt.nestingAll]
    rcases List.mem_cons.mp h with rfl | h
    · omega
    · have := ih h
      omega

theorem TupleEntry.nesting_lt_nestingAll {entry : TupleEntry} {entries : List TupleEntry}
    (h : entry ∈ entries) : entry.value.nesting < TupleEntry.nestingAll entries := by
  induction entries with
  | nil => cases h
  | cons entry' rest ih =>
    obtain ⟨name, e⟩ := entry'
    rw [TupleEntry.nestingAll]
    rcases List.mem_cons.mp h with rfl | h
    · show e.nesting < _
      omega
    · have := ih h
      omega

theorem VarDef.nesting_lt_nestingAll {v : VarDef} {vars : List VarDef} (h : v ∈ vars) {e : Expr}
    (he : v.initializer = some e) : e.nesting < VarDef.nestingAll vars := by
  induction vars with
  | nil => cases h
  | cons v' rest ih =>
    rcases List.mem_cons.mp h with rfl | hrest
    · obtain ⟨name, initializer⟩ := v
      cases he
      rw [VarDef.nestingAll]
      omega
    · have hlt := ih hrest
      obtain ⟨name, _ | e'⟩ := v'
      · rwa [VarDef.nestingAll]
      · rw [VarDef.nestingAll]
        omega

/-! ## Spelling -/

/-- Whether characters are a run of at least one digit. -/
def isDigits (cs : List Char) : Bool :=
  !cs.isEmpty && cs.all Decimal.isDigit

/-- The characters between quotes stand for the characters of a string: each for itself, unless it
is the quote or a backslash, or for what the escape sequence behind a backslash means. -/
inductive Escapes (quote : Char) : (value written : List Char) → Prop
  | nil : Escapes quote [] []
  | plain {c : Char} {value written : List Char} (hquote : c ≠ quote) (hslash : c ≠ '\\')
    (rest : Escapes quote value written) : Escapes quote (c :: value) (c :: written)
  | escaped {value written : List Char} (c : Char) (rest : Escapes quote value written) :
    Escapes quote (unescape c :: value) ('\\' :: c :: written)

/-- Characters spell a literal. -/
def Scalar.Spelling (cs : List Char) : Scalar → Prop
  | .none => String.ofList cs = "none"
  | .bool true => String.ofList cs = "true"
  | .bool false => String.ofList cs = "false"
  | .int n => isDigits cs = true ∧ n = Decimal.toNat cs
  | .real x => ∃ whole fraction, isDigits whole = true ∧ isDigits fraction = true ∧
      cs = whole ++ '.' :: fraction ∧ x = Real.ofDigits whole fraction
  | .str s => ∃ quote written, (quote = '\x22' ∨ quote = '\x27') ∧
      Escapes quote s.toList written ∧ cs = quote :: (written ++ [quote])

/-- Characters spell a piece. A name that is no identifier, an operator without a meaning and a word
that indicates no type have no spelling. -/
def Piece.Spelling (cs : List Char) : Piece → Prop
  | .literal value => value.Spelling cs
  | .position index =>
    isDigits cs = true ∧ cs.length ≤ Grammar.maxPositionDigits ∧ index = Decimal.toNat cs
  | .name text => isIdentifier text = true ∧ String.ofList cs = text
  | .keyword k => String.ofList cs = k.text
  | .symbol s => s.IsSpelled (String.ofList cs)
  | .operator text =>
    ((BinaryOp.ofText? text).isSome = true ∨ (UnaryOp.ofText? text).isSome = true) ∧
      String.ofList cs = text
  | .indicator text =>
    (isIdentifier text = true ∨ ∃ k : Kind, text = k.name) ∧ String.ofList cs = text
  | .separator => cs = ['\n'] ∨ cs = [';']
  | .bodyArrow => cs = ['=', '>'] ∨ cs = ['-', '>']

/-- A text is a program printed with one blank between its pieces. -/
def Program.Prints (p : Program) (source : String) : Prop :=
  ∃ spellings : List (List Char), List.Forall₂ (fun piece cs => piece.Spelling cs)
    p.pieces spellings ∧
    source.toList = [' '].intercalate spellings

end Dee
