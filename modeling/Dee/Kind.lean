/-!
# Kinds of values

Every value has exactly one of eight kinds. A type check names a kind by an indicator, a word or a
pair of brackets.
-/

namespace Dee

inductive Kind where
  | int
  | real
  | bool
  | string
  | none
  | array
  | tuple
  | func
deriving Repr, DecidableEq

namespace Kind

def name : Kind → String
  | .int => "int"
  | .real => "real"
  | .bool => "bool"
  | .string => "string"
  | .none => "none"
  | .array => "array"
  | .tuple => "tuple"
  | .func => "func"

/-- The kinds of numbers. -/
def isNumeric : Kind → Bool
  | .int => true
  | .real => true
  | _ => false

/-- The indicator of arrays that is not a word. -/
def arrayBrackets : String := "[]"

/-- The indicator of tuples that is not a word. -/
def tupleBrackets : String := "\x7b\x7d"

/-- The kind that an indicator names: each kind by its name, arrays and tuples also by their
brackets. -/
def ofIndicator? (indicator : String) : Option Kind :=
  if indicator = arrayBrackets then some .array
  else if indicator = tupleBrackets then some .tuple
  else [int, real, bool, string, none, array, tuple, func].find? fun k => k.name = indicator

/-- The name of a kind is an indicator of it. -/
theorem ofIndicator?_name (k : Kind) : ofIndicator? k.name = some k := by
  cases k <;> rfl

end Kind

end Dee
