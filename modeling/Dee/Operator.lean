import Dee.Memory
import Dee.Scalar

/-!
# Operators on scalars

An operator is known by its text. Arithmetic keeps to integers while both operands are integers,
and goes to reals when one is a real; an integer too large for a real is an overflow. Division of
integers rounds to the floor. Strings are joined, if there is room for the result. Logical operators
take booleans only and always both of them.
-/

namespace Dee

/-! ## Operators by text -/

inductive Arithmetic where
  | add
  | sub
  | mul
  | div
deriving Repr, DecidableEq

inductive Comparison where
  | lt
  | le
  | gt
  | ge
deriving Repr, DecidableEq

inductive Connective where
  | and
  | or
  | xor
deriving Repr, DecidableEq

inductive BinaryOp where
  | arithmetic (op : Arithmetic)
  | order (op : Comparison)
  | equality (negated : Bool)
  | logical (op : Connective)
deriving Repr, DecidableEq

inductive UnaryOp where
  | plus
  | minus
  | not
deriving Repr, DecidableEq

/-- The binary operator with a text; equality and its negation have two spellings each. -/
def BinaryOp.ofText? : String → Option BinaryOp
  | "+" => some (.arithmetic .add)
  | "-" => some (.arithmetic .sub)
  | "*" => some (.arithmetic .mul)
  | "/" => some (.arithmetic .div)
  | "<" => some (.order .lt)
  | "<=" => some (.order .le)
  | ">" => some (.order .gt)
  | ">=" => some (.order .ge)
  | "=" => some (.equality false)
  | "==" => some (.equality false)
  | "!=" => some (.equality true)
  | "/=" => some (.equality true)
  | "and" => some (.logical .and)
  | "or" => some (.logical .or)
  | "xor" => some (.logical .xor)
  | _ => none

def UnaryOp.ofText? : String → Option UnaryOp
  | "+" => some .plus
  | "-" => some .minus
  | "not" => some .not
  | _ => none

/-! ## Numbers -/

/-- The exact test that an operator of order makes. -/
def Comparison.holds (op : Comparison) (a b : Number) : Bool :=
  match a, b with
  | .int m, .int n =>
    match op with
    | .lt => m < n
    | .le => m ≤ n
    | .gt => n < m
    | .ge => n ≤ m
  | _, _ =>
    match op with
    | .lt => a.exact.less b.exact
    | .le => a.exact.lessEqual b.exact
    | .gt => b.exact.less a.exact
    | .ge => b.exact.lessEqual a.exact

/-- Arithmetic of integers; division goes to the floor. The divisor is not zero. -/
def Arithmetic.onInts : Arithmetic → Int → Int → Int
  | .add, m, n => m + n
  | .sub, m, n => m - n
  | .mul, m, n => m * n
  | .div, m, n => Int.fdiv m n

/-- Arithmetic of reals. The divisor is not zero. -/
def Arithmetic.onReals : Arithmetic → Float → Float → Float
  | .add, x, y => x + y
  | .sub, x, y => x - y
  | .mul, x, y => x * y
  | .div, x, y => x / y

/-- A number as a real, if it is not too large for one. -/
def Number.toReal? : Number → Option Float
  | .int n => Real.ofInt? n
  | .real x => some x

/-- Arithmetic of numbers. `text` is the operator as the program spells it. -/
def Arithmetic.apply (op : Arithmetic) (text : String) (a b : Number) :
    Except EvalError Number :=
  if op = .div ∧ b.isZero = true then .error .divisionByZero
  else
    match a, b with
    | .int m, .int n => .ok (.int (op.onInts m n))
    | _, _ =>
      match a.toReal?, b.toReal? with
      | some x, some y => .ok (.real (op.onReals x y))
      | _, _ => .error (.overflow text a.kind b.kind)

/-! ## Booleans -/

/-- The truth table of a logical operator. -/
def Connective.apply : Connective → Bool → Bool → Bool
  | .and, a, b => a && b
  | .or, a, b => a || b
  | .xor, a, b => a != b

/-! ## Scalars -/

namespace Scalar

/-- The boolean that a scalar is; a logical operator takes nothing else. -/
def requireBool (text : String) : Scalar → Except EvalError Bool
  | .bool b => .ok b
  | s => .error (.notBoolean text s.kind)

/-- What a binary operator, given by its text, makes of two scalars. -/
def combine (text : String) (a b : Scalar) : Except EvalError Scalar :=
  match BinaryOp.ofText? text with
  | Option.none => .error (.unknownOperator text)
  | some (.logical op) => do
    let x ← a.requireBool text
    let y ← b.requireBool text
    return .bool (op.apply x y)
  | some (.equality negated) =>
    if a.comparable b then .ok (.bool (a.equal b != negated))
    else .error (.incomparable a.kind b.kind)
  | some (.order op) =>
    match a.number?, b.number? with
    | some x, some y => .ok (.bool (op.holds x y))
    | _, _ => .error (.operands text a.kind b.kind)
  | some (.arithmetic op) =>
    match a.number?, b.number? with
    | some x, some y => (op.apply text x y).map ofNumber
    | _, _ =>
      match op, a, b with
      | .add, .str s, .str t => .ok (.str (s ++ t))
      | _, _, _ => .error (.operands text a.kind b.kind)

/-- Applies a binary operator, given by its text, to scalars. A string that it makes must find
room. -/
def binary (text : String) (a b : Scalar) : Except Failure Scalar :=
  match combine text a b with
  | .ok (.str s) => (Memory.text s).map .str
  | .ok c => .ok c
  | .error e => .error (.ofError e)

/-- Applies a unary operator, given by its text, to a scalar. -/
def unary (text : String) (a : Scalar) : Except EvalError Scalar :=
  match UnaryOp.ofText? text with
  | Option.none => .error (.unknownUnary text)
  | some .not => do
    let x ← a.requireBool text
    return .bool (!x)
  | some op =>
    match a.number? with
    | some x => .ok (ofNumber (if op = .minus then x.negate else x))
    | Option.none => .error (.operand text a.kind)

end Scalar

end Dee
