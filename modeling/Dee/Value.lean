import Dee.Scalar

/-!
# Values

Scalars are values in themselves. Arrays, tuples and functions are references into a store: two
variables that hold the same array see each other's writes.
-/

namespace Dee

inductive Value where
  | scalar (s : Scalar)
  | array (ref : Nat)
  | tuple (ref : Nat)
  | func (ref : Nat)
deriving Repr, DecidableEq

namespace Value

def none : Value := .scalar .none

def bool (b : Bool) : Value := .scalar (.bool b)

def int (n : Int) : Value := .scalar (.int n)

def kind : Value → Kind
  | .scalar s => s.kind
  | .array _ => .array
  | .tuple _ => .tuple
  | .func _ => .func

end Value

end Dee
