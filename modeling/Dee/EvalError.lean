import Dee.Diagnostic
import Dee.Kind

/-!
# Causes of run-time errors

Everything that can go wrong while a program is evaluated, and the message of each.
-/

namespace Dee

/-- What an integer is needed for. -/
inductive IntRole where
  | rangeStart
  | rangeEnd
  | index
deriving Repr, DecidableEq

def IntRole.label : IntRole → String
  | .rangeStart => "Range start"
  | .rangeEnd => "Range end"
  | .index => "Index"

/-- A member of a tuple: by name, or by position counted from one. -/
inductive Member where
  | named (name : String)
  | position (index : Int)
deriving Repr, DecidableEq

def Member.label : Member → String
  | .named name => name
  | .position index => Decimal.ofInt index

/-- A jump out of the running statement. -/
inductive Jump where
  | exitLoop
  | nextTurn
  | leaveFunction
deriving Repr, DecidableEq

/-- What is wrong with a jump that nothing encloses. -/
def Jump.strayMessage : Jump → String
  | .exitLoop => "'exit' statement outside loop"
  | .nextTurn => "'continue' statement outside loop"
  | .leaveFunction => "Return statement outside function"

inductive EvalError where
  | unknownOperator (op : String)
  | unknownUnary (op : String)
  | operands (op : String) (left right : Kind)
  | operand (op : String) (kind : Kind)
  | overflow (op : String) (left right : Kind)
  | divisionByZero
  | notBoolean (op : String) (kind : Kind)
  | incomparable (left right : Kind)
  | arrayIndex (index : Int)
  | tupleIndex (index : Int)
  | duplicateMember (name : String)
  | noMember (name : String)
  | alreadyDeclared (name : String)
  | undeclared (name : String)
  | undefined (name : String)
  | notInteger (role : IntRole) (kind : Kind)
  | notIterable (kind : Kind)
  | notIndexable (kind : Kind)
  | noMembers (member : Member) (kind : Kind)
  | invalidTarget
  | notCallable (kind : Kind)
  | argumentCount (expected given : Nat)
  | unknownIndicator (indicator : String)
  | stray (jump : Jump)
deriving Repr, DecidableEq

/-- What a message says of an indicator that names no kind. -/
def unknownIndicatorMessage (indicator : String) : String :=
  "Unknown type indicator '" ++ indicator ++ "'"

/-- What a message says of a name that its scope binds already. -/
def alreadyDeclaredMessage (name : String) : String :=
  "Variable '" ++ name ++ "' is already declared in this scope"

def EvalError.message : EvalError → String
  | .unknownOperator op => "Unknown operator '" ++ op ++ "'"
  | .unknownUnary op => "Unknown unary operator '" ++ op ++ "'"
  | .operands op left right =>
    "Unsupported operand types for '" ++ op ++ "': " ++ left.name ++ " and " ++ right.name
  | .operand op kind => "Unsupported operand type for unary '" ++ op ++ "': " ++ kind.name
  | .overflow op left right =>
    "Numeric overflow in '" ++ op ++ "': " ++ left.name ++ " and " ++ right.name
  | .divisionByZero => "Division by zero"
  | .notBoolean op kind => "Expected boolean value for '" ++ op ++ "', got " ++ kind.name
  | .incomparable left right => "Cannot compare " ++ left.name ++ " and " ++ right.name
  | .arrayIndex index =>
    "Array index out of bounds: " ++ Decimal.ofInt index ++ " (indices must be >= 1)"
  | .tupleIndex index => "Tuple index out of bounds: " ++ Decimal.ofInt index
  | .duplicateMember name => "Duplicate tuple member '" ++ name ++ "'"
  | .noMember name => "Tuple has no member named '" ++ name ++ "'"
  | .alreadyDeclared name => alreadyDeclaredMessage name
  | .undeclared name => "Cannot assign to undeclared variable '" ++ name ++ "'"
  | .undefined name => "Undefined variable '" ++ name ++ "'"
  | .notInteger role kind => role.label ++ " must be an integer, got " ++ kind.name
  | .notIterable kind => "Cannot iterate over " ++ kind.name
  | .notIndexable kind => "Cannot index into " ++ kind.name
  | .noMembers member kind => "Cannot access member '" ++ member.label ++ "' of " ++ kind.name
  | .invalidTarget => "Invalid assignment target"
  | .notCallable kind => "Cannot call value of type " ++ kind.name
  | .argumentCount expected given =>
    "Function expects " ++ Decimal.ofNat expected ++ " arguments, got " ++ Decimal.ofNat given
  | .unknownIndicator indicator => unknownIndicatorMessage indicator
  | .stray jump => jump.strayMessage

instance : Explain EvalError := ⟨EvalError.message⟩

end Dee
