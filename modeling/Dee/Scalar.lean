import Dee.Kind
import Dee.Real.Text

/-!
# Scalars

The values without parts: none, booleans, integers of any size, reals and strings. Numbers are
compared by their exact values, so an integer and a real of any sizes compare without rounding.
-/

namespace Dee

/-! ## Numbers -/

inductive Number where
  | int (n : Int)
  | real (x : Float)
deriving Repr, DecidableEq

namespace Number

def kind : Number → Kind
  | .int _ => .int
  | .real _ => .real

/-- The exact value of a number. -/
def exact : Number → Real.Exact
  | .int n => .ofInt n
  | .real x => .ofReal x

/-- Whether two numbers have the same exact value. -/
def equal : Number → Number → Bool
  | .int m, .int n => m = n
  | a, b => a.exact.equal b.exact

def isZero : Number → Bool
  | .int n => n = 0
  | .real x => Real.isZero x

def negate : Number → Number
  | .int n => .int (-n)
  | .real x => .real (-x)

end Number

/-! ## Scalars -/

/-- A value without parts. -/
inductive Scalar where
  | none
  | bool (b : Bool)
  | int (n : Int)
  | real (x : Float)
  | str (s : String)
deriving Repr, DecidableEq

namespace Scalar

def kind : Scalar → Kind
  | .none => .none
  | .bool _ => .bool
  | .int _ => .int
  | .real _ => .real
  | .str _ => .string

def number? : Scalar → Option Number
  | .int n => some (.int n)
  | .real x => some (.real x)
  | _ => Option.none

def ofNumber : Number → Scalar
  | .int n => .int n
  | .real x => .real x

/-- The text that printing a scalar shows. -/
def text : Scalar → String
  | .none => "none"
  | .bool b => if b then "true" else "false"
  | .int n => Decimal.ofInt n
  | .real x => Real.text x
  | .str s => s

/-- Whether a condition takes a scalar for true: false, zero, the empty string and none are not. -/
def truthy : Scalar → Bool
  | .none => false
  | .bool b => b
  | .int n => n ≠ 0
  | .real x => !Real.isZero x
  | .str s => s ≠ ""

/-- Equality of scalars: numbers by exact value, others if they are the same. -/
def equal : Scalar → Scalar → Bool
  | .none, .none => true
  | .bool a, .bool b => a = b
  | .str s, .str t => s = t
  | a, b =>
    match a.number?, b.number? with
    | some x, some y => x.equal y
    | _, _ => false

/-- Whether two scalars may be compared for equality: they are both numbers, or of one kind. -/
def comparable (a b : Scalar) : Bool :=
  (a.kind.isNumeric && b.kind.isNumeric) || a.kind = b.kind

end Scalar

end Dee
