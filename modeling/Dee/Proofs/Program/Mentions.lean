import Dee.Program.Basic

/-!
# What a program mentions

The names, literal values, operators and type indicators of a program, in the order of its text: the
left operand before the operator, an operator before its only operand, a base before what is applied
to it, a loop variable before what the loop runs over, parameters before the body.

The brackets that indicate arrays and tuples are no words, so they are not mentioned.
-/

namespace Dee

/-- Something that a program mentions. -/
inductive Mention where
  /-- A variable, a parameter, or the name of an entry or of a member. -/
  | name (text : String)
  /-- A literal, or the position of a member. -/
  | literal (value : Scalar)
  | operator (text : String)
  | indicator (text : String)
deriving Repr, DecidableEq

/-- What an access mentions: the name or the position of the member. -/
def Member.mentions : Member → List Mention
  | .named name => [.name name]
  | .position index => [.literal (.int index)]

/-- What a type indicator mentions: itself, if it is a word. -/
def indicatorMentions (indicator : String) : List Mention :=
  if indicator = Kind.arrayBrackets ∨ indicator = Kind.tupleBrackets then []
  else [.indicator indicator]

mutual

/-- What an expression mentions. -/
def Expr.mentions : Expr → List Mention
  | .literal _ value _ => [.literal value]
  | .reference _ name => [.name name]
  | .binary _ op left right => left.mentions ++ .operator op :: right.mentions
  | .unary _ op operand => .operator op :: operand.mentions
  | .call _ func args => func.mentions ++ Expr.mentionsAll args
  | .index _ value index => value.mentions ++ index.mentions
  | .array _ elements => Expr.mentionsAll elements
  | .tuple _ entries => TupleEntry.mentionsAll entries
  | .function _ params statements expression =>
    params.map .name ++ Stmt.mentionsAll statements ++ Expr.mentionsOption expression
  | .typeCheck _ value indicator => value.mentions ++ indicatorMentions indicator
  | .member _ value member => value.mentions ++ member.mentions

/-- What some expressions mention. -/
def Expr.mentionsAll : List Expr → List Mention
  | [] => []
  | e :: rest => e.mentions ++ Expr.mentionsAll rest

/-- What an expression, if there is one, mentions. -/
def Expr.mentionsOption : Option Expr → List Mention
  | none => []
  | some e => e.mentions

/-- What the entries of a tuple mention. -/
def TupleEntry.mentionsAll : List TupleEntry → List Mention
  | [] => []
  | ⟨name, e⟩ :: rest => name.toList.map .name ++ e.mentions ++ TupleEntry.mentionsAll rest

/-- What a statement mentions. -/
def Stmt.mentions : Stmt → List Mention
  | .declaration _ vars => VarDef.mentionsAll vars
  | .assign _ target value => target.mentions ++ value.mentions
  | .block ⟨_, body⟩ => Stmt.mentionsAll body
  | .conditional _ condition ⟨_, body⟩ none => condition.mentions ++ Stmt.mentionsAll body
  | .conditional _ condition ⟨_, body⟩ (some ⟨_, other⟩) =>
    condition.mentions ++ Stmt.mentionsAll body ++ Stmt.mentionsAll other
  | .whileLoop _ condition ⟨_, body⟩ => condition.mentions ++ Stmt.mentionsAll body
  | .forLoop _ loopVar ⟨_, body⟩ iterable rangeEnd =>
    loopVar.toList.map .name ++ Expr.mentionsOption iterable ++ Expr.mentionsOption rangeEnd ++
      Stmt.mentionsAll body
  | .returnStmt _ value => Expr.mentionsOption value
  | .exitStmt _ => []
  | .continueStmt _ => []
  | .print _ values => Expr.mentionsAll values
  | .expr _ value => value.mentions

/-- What some statements mention. -/
def Stmt.mentionsAll : List Stmt → List Mention
  | [] => []
  | s :: rest => s.mentions ++ Stmt.mentionsAll rest

/-- What some declared variables mention: each its name and then its initial value. -/
def VarDef.mentionsAll : List VarDef → List Mention
  | [] => []
  | ⟨name, initializer⟩ :: rest =>
    .name name :: Expr.mentionsOption initializer ++ VarDef.mentionsAll rest

end

/-- What a program mentions. -/
def Program.mentions (p : Program) : List Mention :=
  Stmt.mentionsAll p.statements

/-! ## Lists -/

/-- What one entry of a tuple mentions. -/
def TupleEntry.mentions (entry : TupleEntry) : List Mention :=
  entry.name.toList.map .name ++ entry.value.mentions

/-- What one declared variable mentions. -/
def VarDef.mentions (v : VarDef) : List Mention :=
  .name v.name :: Expr.mentionsOption v.initializer

theorem Expr.mentionsAll_eq (es : List Expr) : Expr.mentionsAll es = es.flatMap Expr.mentions := by
  induction es with
  | nil => rfl
  | cons e rest ih => rw [Expr.mentionsAll, ih, List.flatMap_cons]

theorem Stmt.mentionsAll_eq (ss : List Stmt) : Stmt.mentionsAll ss = ss.flatMap Stmt.mentions := by
  induction ss with
  | nil => rfl
  | cons s rest ih => rw [Stmt.mentionsAll, ih, List.flatMap_cons]

theorem TupleEntry.mentionsAll_eq (entries : List TupleEntry) :
    TupleEntry.mentionsAll entries = entries.flatMap TupleEntry.mentions := by
  induction entries with
  | nil => rfl
  | cons entry rest ih =>
    obtain ⟨name, e⟩ := entry
    rw [TupleEntry.mentionsAll, ih, List.flatMap_cons, TupleEntry.mentions]

theorem VarDef.mentionsAll_eq (vars : List VarDef) :
    VarDef.mentionsAll vars = vars.flatMap VarDef.mentions := by
  induction vars with
  | nil => rfl
  | cons v rest ih =>
    obtain ⟨name, initializer⟩ := v
    rw [VarDef.mentionsAll, ih, List.flatMap_cons, VarDef.mentions]

/-! ## One form of code each -/

section Forms

variable (pos : Pos) (e : Expr)

theorem Expr.mentions_binary (op : String) (right : Expr) :
    (Expr.binary pos op e right).mentions = e.mentions ++ [.operator op] ++ right.mentions := by
  rw [List.append_assoc]
  rfl

theorem Expr.mentions_call (args : List Expr) :
    (Expr.call pos e args).mentions = e.mentions ++ args.flatMap Expr.mentions := by
  rw [← Expr.mentionsAll_eq]
  rfl

theorem Expr.mentions_index (index : Expr) :
    (Expr.index pos e index).mentions = e.mentions ++ index.mentions := rfl

theorem Expr.mentions_array (elements : List Expr) :
    (Expr.array pos elements).mentions = elements.flatMap Expr.mentions :=
  Expr.mentionsAll_eq elements

theorem Expr.mentions_tuple (entries : List TupleEntry) :
    (Expr.tuple pos entries).mentions = entries.flatMap TupleEntry.mentions :=
  TupleEntry.mentionsAll_eq entries

theorem Expr.mentions_function_statements (params : List String) (body : List Stmt) :
    (Expr.function pos params body none).mentions = params.map .name ++ Stmt.mentionsAll body :=
  List.append_nil _

theorem Expr.mentions_function_expression (params : List String) :
    (Expr.function pos params [] (some e)).mentions = params.map .name ++ e.mentions := by
  show params.map .name ++ [] ++ e.mentions = _
  rw [List.append_nil]

theorem Expr.mentions_typeCheck (indicator : String) :
    (Expr.typeCheck pos e indicator).mentions = e.mentions ++ indicatorMentions indicator := rfl

theorem Expr.mentions_member (member : Member) :
    (Expr.member pos e member).mentions = e.mentions ++ member.mentions := rfl

theorem Stmt.mentions_declaration (vars : List VarDef) :
    (Stmt.declaration pos vars).mentions = vars.flatMap VarDef.mentions :=
  VarDef.mentionsAll_eq vars

theorem Stmt.mentions_print (values : List Expr) :
    (Stmt.print pos values).mentions = values.flatMap Expr.mentions :=
  Expr.mentionsAll_eq values

/-- A conditional on a single statement. -/
theorem Stmt.mentions_conditional_one (thenPos : Pos) (s : Stmt) :
    (Stmt.conditional pos e ⟨thenPos, [s]⟩ none).mentions = e.mentions ++ s.mentions := by
  show e.mentions ++ (s.mentions ++ []) = _
  rw [List.append_nil]

theorem Stmt.mentions_forLoop_elements (loopVar : Option String) (bodyPos : Pos)
    (body : List Stmt) :
    (Stmt.forLoop pos loopVar ⟨bodyPos, body⟩ (some e) none).mentions =
      loopVar.toList.map .name ++ e.mentions ++ Stmt.mentionsAll body := by
  show loopVar.toList.map .name ++ e.mentions ++ [] ++ Stmt.mentionsAll body = _
  rw [List.append_nil]

theorem Stmt.mentions_forLoop_range (loopVar : Option String) (bodyPos : Pos) (body : List Stmt)
    (last : Expr) :
    (Stmt.forLoop pos loopVar ⟨bodyPos, body⟩ (some e) (some last)).mentions =
      loopVar.toList.map .name ++ e.mentions ++ last.mentions ++ Stmt.mentionsAll body := rfl

end Forms

end Dee
