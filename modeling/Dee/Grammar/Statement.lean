import Dee.Grammar.Expression

/-!
# Statements

A statement is told by its first token; whatever starts with no keyword of a statement is an
expression, which an assignment mark turns into the target of an assignment.
-/

namespace Dee.Grammar

/-- Takes statements up to `end`, as a block at the position of a token. -/
def blockUntilEnd (r : Rules) (opener : Token) : Parser Block := do
  let body ← statements r .body
  return ⟨opener.pos, body⟩

def expectEnd : Parser Token :=
  expect (·.isKeyword .endKw) .endWord

def varDef (r : Rules) : Parser VarDef := do
  let name ← expectName
  match ← acceptSymbol .assign with
  | some _ =>
    let e ← r.expression
    return ⟨name.text, some e⟩
  | none => return ⟨name.text, none⟩

def declaration (r : Rules) : Parser Stmt := do
  let start ← advance
  let vars ← items r.rounds (pure ()) (varDef r)
  return .declaration start.pos vars

/-- Takes a print statement; line ends may stand behind its commas. -/
def print (r : Rules) : Parser Stmt := do
  let start ← advance
  let values ← items r.rounds skipNewlines r.expression
  return .print start.pos values

/-- Takes a conditional: with blocks up to `end`, or with an arrow and one statement. -/
def conditional (r : Rules) : Parser Stmt := do
  let start ← advance
  let condition ← r.expression
  match ← acceptKeyword .thenKw with
  | some thenWord =>
    let body ← statements r .branch
    match ← acceptKeyword .elseKw with
    | some elseWord =>
      let other ← blockUntilEnd r elseWord
      let _ ← expectEnd
      return .conditional start.pos condition ⟨thenWord.pos, body⟩ (some other)
    | none =>
      let _ ← expectEnd
      return .conditional start.pos condition ⟨thenWord.pos, body⟩ none
  | none =>
    match ← acceptSymbol .arrow with
    | some arrow =>
      let s ← r.statement
      return .conditional start.pos condition ⟨arrow.pos, [s]⟩ none
    | none =>
      let t ← current
      failAt t (.expected .thenOrArrow t)

def loopBody (r : Rules) : Parser Block := do
  let opener ← expect (·.isKeyword .loopKw) .loopWord
  let body ← blockUntilEnd r opener
  let _ ← expectEnd
  return body

def whileLoop (r : Rules) : Parser Stmt := do
  let start ← advance
  let condition ← r.expression
  let body ← loopBody r
  return .whileLoop start.pos condition body

/-- Takes the variable of a loop, if a name stands before `in`, and what the loop runs over. -/
def loopSource (r : Rules) : Parser (Option String × Expr) := do
  let e ← r.expression
  match e with
  | .reference _ name =>
    match ← acceptKeyword .inKw with
    | some _ =>
      let source ← r.expression
      return (some name, source)
    | none => return (none, e)
  | _ => return (none, e)

def forLoop (r : Rules) : Parser Stmt := do
  let start ← advance
  let t ← current
  if t.isTypeWord then failAt t (.reserved t.text)
  else
    let (loopVar, source) ← loopSource r
    match ← acceptSymbol .range with
    | some _ =>
      let rangeEnd ← r.expression
      let body ← loopBody r
      return .forLoop start.pos loopVar body (some source) (some rangeEnd)
    | none =>
      let body ← loopBody r
      return .forLoop start.pos loopVar body (some source) none

def endlessLoop (r : Rules) : Parser Stmt := do
  let start ← current
  let body ← loopBody r
  return .forLoop start.pos none body none none

/-- Takes a return; a separator or the end of the block means that it has no value. -/
def returnStmt (r : Rules) : Parser Stmt := do
  let start ← advance
  let t ← current
  if t.isSeparator || endsStatement t then return .returnStmt start.pos none
  else
    let e ← r.expression
    return .returnStmt start.pos (some e)

/-- Whether an expression may be assigned to. -/
def isTarget : Expr → Bool
  | .reference _ _ => true
  | .index _ _ _ => true
  | .member _ _ _ => true
  | _ => false

def assignment (r : Rules) : Parser Stmt := do
  let start ← current
  let e ← r.expression
  match ← acceptSymbol .assign with
  | some _ =>
    if isTarget e then
      let value ← r.expression
      return .assign start.pos e value
    else failAt start .invalidTarget
  | none => return .expr start.pos e

def statement (r : Rules) : Parser Stmt := do
  let t ← current
  match t.lexeme with
  | .keyword .varKw => declaration r
  | .keyword .printKw => print r
  | .keyword .ifKw => conditional r
  | .keyword .whileKw => whileLoop r
  | .keyword .forKw => forLoop r
  | .keyword .loopKw => endlessLoop r
  | .keyword .returnKw => returnStmt r
  | .keyword .exitKw =>
    let _ ← advance
    return .exitStmt t.pos
  | .keyword .continueKw =>
    let _ ← advance
    return .continueStmt t.pos
  | _ => assignment r

end Dee.Grammar
