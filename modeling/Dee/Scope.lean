import Dee.Program.Basic

/-!
# Scope analysis

Checks a program before it runs: every name that is referred to is declared in a scope around the
reference, no scope declares a name twice, and jumps stand where they have a target. Scopes open
exactly where running the program opens frames. Every fault is reported, in the order of the text.

A jump is judged by all that encloses it: a loop around a function lets the function's body exit.
-/

namespace Dee

/-! ## Faults -/

/-- A fault that is known before the program runs. -/
inductive ScopeFault where
  | alreadyDeclared (name : String)
  | notDeclared (name : String)
  | duplicateParameter (name : String)
  | stray (jump : Jump)
deriving Repr, DecidableEq

def ScopeFault.message : ScopeFault → String
  | .alreadyDeclared name => alreadyDeclaredMessage name
  | .notDeclared name => "Variable '" ++ name ++ "' is not declared"
  | .duplicateParameter name => "Duplicate parameter '" ++ name ++ "'"
  | .stray jump => jump.strayMessage

instance : Explain ScopeFault := ⟨ScopeFault.message⟩

abbrev Faults := List (Located ScopeFault)

/-! ## Scopes -/

/-- What is known at a point of a program. -/
structure Scope where
  /-- The names declared so far, innermost scope first. -/
  frames : List (List String)
  inFunction : Bool
  inLoop : Bool
deriving Repr, DecidableEq

namespace Scope

/-- The scope of a program before its first statement. -/
def top : Scope := ⟨[[]], false, false⟩

/-- Whether a scope around the point declares a name. -/
def binds (s : Scope) (name : String) : Bool :=
  s.frames.any (·.contains name)

def bindsHere (s : Scope) (name : String) : Bool :=
  match s.frames with
  | [] => false
  | frame :: _ => frame.contains name

def declare (s : Scope) (name : String) : Scope :=
  match s.frames with
  | [] => { s with frames := [[name]] }
  | frame :: rest => { s with frames := (name :: frame) :: rest }

def declareAll (s : Scope) (names : List String) : Scope :=
  names.foldl declare s

/-- The names that are declared although the innermost scope has them already, by a statement or
earlier in the list. -/
def repeated (s : Scope) : List String → List String
  | [] => []
  | name :: rest =>
    if s.bindsHere name then name :: s.repeated rest else (s.declare name).repeated rest

/-- A new innermost scope. -/
def enter (s : Scope) : Scope := { s with frames := [] :: s.frames }

/-- The scope of a function's body, before its parameters. -/
def enterFunction (s : Scope) : Scope := { s.enter with inFunction := true }

/-- The surroundings of a loop's body, before its scope. -/
def enterLoop (s : Scope) : Scope := { s with inLoop := true }

end Scope

/-- The names that a statement declares in the scope it stands in. -/
def Stmt.declaredNames : Stmt → List String
  | .declaration _ vars => vars.map VarDef.name
  | _ => []

/-! ## Checking -/

mutual

def Expr.check (s : Scope) : Expr → Faults
  | .literal _ _ _ => []
  | .reference pos name => if s.binds name then [] else [⟨.notDeclared name, pos⟩]
  | .binary _ _ left right => left.check s ++ right.check s
  | .unary _ _ operand => operand.check s
  | .call _ func args => func.check s ++ Expr.checkAll s args
  | .index _ value index => value.check s ++ index.check s
  | .array _ elements => Expr.checkAll s elements
  | .tuple _ entries => TupleEntry.checkAll s entries
  | .function pos params statements expression =>
    let inner := s.enterFunction.declareAll params
    (s.enterFunction.repeated params).map (fun name => ⟨.duplicateParameter name, pos⟩) ++
      Expr.checkOption inner expression ++ Stmt.checkAll inner statements
  | .typeCheck _ value _ => value.check s
  | .member _ value _ => value.check s

def Expr.checkAll (s : Scope) : List Expr → Faults
  | [] => []
  | e :: rest => e.check s ++ Expr.checkAll s rest

def Expr.checkOption (s : Scope) : Option Expr → Faults
  | none => []
  | some e => e.check s

def TupleEntry.checkAll (s : Scope) : List TupleEntry → Faults
  | [] => []
  | ⟨_, e⟩ :: rest => e.check s ++ TupleEntry.checkAll s rest

/-- The faults of a statement. All names of a declaration are declared before the first initial
value, and the value of an assignment comes before its target. -/
def Stmt.check (s : Scope) : Stmt → Faults
  | .declaration pos vars =>
    let names := vars.map VarDef.name
    (s.repeated names).map (fun name => ⟨.alreadyDeclared name, pos⟩) ++
      VarDef.checkAll (s.declareAll names) vars
  | .assign _ target value => value.check s ++ target.check s
  | .block ⟨_, body⟩ => Stmt.checkAll s.enter body
  | .conditional _ condition ⟨_, body⟩ none => condition.check s ++ Stmt.checkAll s.enter body
  | .conditional _ condition ⟨_, body⟩ (some ⟨_, other⟩) =>
    condition.check s ++ Stmt.checkAll s.enter body ++ Stmt.checkAll s.enter other
  | .whileLoop _ condition ⟨_, body⟩ =>
    condition.check s ++ Stmt.checkAll s.enterLoop.enter body
  | .forLoop _ none ⟨_, body⟩ iterable rangeEnd =>
    Expr.checkOption s iterable ++ Expr.checkOption s rangeEnd ++
      Stmt.checkAll s.enterLoop.enter body
  | .forLoop _ (some name) ⟨_, body⟩ iterable rangeEnd =>
    Expr.checkOption s iterable ++ Expr.checkOption s rangeEnd ++
      Stmt.checkAll (s.enterLoop.enter.declare name).enter body
  | .returnStmt pos value =>
    (if s.inFunction then [] else [⟨.stray .leaveFunction, pos⟩]) ++ Expr.checkOption s value
  | .exitStmt pos => if s.inLoop then [] else [⟨.stray .exitLoop, pos⟩]
  | .continueStmt pos => if s.inLoop then [] else [⟨.stray .nextTurn, pos⟩]
  | .print _ values => Expr.checkAll s values
  | .expr _ value => value.check s

/-- The faults of some statements; each sees what the ones before it declare. -/
def Stmt.checkAll (s : Scope) : List Stmt → Faults
  | [] => []
  | st :: rest => st.check s ++ Stmt.checkAll (s.declareAll st.declaredNames) rest

def VarDef.checkAll (s : Scope) : List VarDef → Faults
  | [] => []
  | ⟨_, initializer⟩ :: rest => Expr.checkOption s initializer ++ VarDef.checkAll s rest

end

def Program.faults (p : Program) : Faults :=
  Stmt.checkAll .top p.statements

/-- What scope analysis reports about a program. -/
def Program.analyze (p : Program) : List Diagnostic :=
  p.faults.map Located.toDiagnostic

end Dee
