/-!
# The exact value of a real

A real is an IEEE double. Every finite double is a whole number of the smallest positive double,
which is `2 ^ -1074`; counting in that unit gives each of them an integer, and every integer of the
language one too. Comparing by these counts is exact whatever the sizes: nothing is rounded.
-/

namespace Dee.Real

/-! ## The parts of a double -/

/-- The magnitude of a finite double is `significand * 2 ^ shift` units of `2 ^ -1074`. -/
structure Parts where
  negative : Bool
  significand : Nat
  shift : Nat
  /-- The double next below in magnitude is only half a step away: the significand is a power of
  two at the bottom of its binade. -/
  narrowBelow : Bool
deriving Repr, DecidableEq

/-- What a double is: no number, an infinity, or a finite value. -/
inductive Shape where
  | nan
  | infinite (negative : Bool)
  | finite (parts : Parts)
deriving Repr, DecidableEq

/-- Reads sign, exponent and fraction off the bits of a double. -/
def shape (x : Float) : Shape :=
  let bits := x.toBits.toNat
  let negative := bits / Nat.pow 2 63 % 2 == 1
  let exponent := bits / Nat.pow 2 52 % Nat.pow 2 11
  let fraction := bits % Nat.pow 2 52
  if exponent == 2047 then
    if fraction == 0 then .infinite negative else .nan
  else if exponent == 0 then
    .finite ⟨negative, fraction, 0, false⟩
  else
    .finite ⟨negative, Nat.pow 2 52 + fraction, exponent - 1, fraction == 0 && 1 < exponent⟩

/-- The magnitude in units of `2 ^ -1074`. -/
def Parts.units (p : Parts) : Nat :=
  p.significand * Nat.pow 2 p.shift

/-! ## Exact values and their order -/

/-- An exact number: a count of units of `2 ^ -1074`, or one of the three values beyond. -/
inductive Exact where
  | nan
  | below
  | count (units : Int)
  | above
deriving Repr, DecidableEq

namespace Exact

/-- The exact value of a double; the sign of a zero is lost. -/
def ofReal (x : Float) : Exact :=
  match shape x with
  | .nan => .nan
  | .infinite negative => if negative then .below else .above
  | .finite p => .count (if p.negative then -(p.units : Int) else p.units)

/-- The exact value of an integer. -/
def ofInt (n : Int) : Exact :=
  .count (n * Nat.pow 2 1074)

/-- Equality of numbers: a NaN equals nothing, itself included. -/
def equal : Exact → Exact → Bool
  | .nan, _ => false
  | _, .nan => false
  | a, b => a = b

/-- Strict order of numbers: a NaN is not ordered. -/
def less : Exact → Exact → Bool
  | .below, .count _ => true
  | .below, .above => true
  | .count m, .count n => m < n
  | .count _, .above => true
  | _, _ => false

def lessEqual (a b : Exact) : Bool :=
  a.less b || a.equal b

theorem equal_comm (a b : Exact) : a.equal b = b.equal a := by
  cases a <;> cases b <;> simp [equal, eq_comm]

theorem equal_trans {a b c : Exact} (hab : a.equal b = true) (hbc : b.equal c = true) :
    a.equal c = true := by
  cases a <;> cases b <;> cases c <;> simp_all [equal]

end Exact

/-! ## Integers as reals -/

/-- The double nearest to an integer, if that is finite. -/
def ofInt? (n : Int) : Option Float :=
  let x := Float.ofInt n
  match shape x with
  | .finite _ => some x
  | _ => none

def isZero (x : Float) : Bool :=
  (Exact.ofReal x).equal (.count 0)

end Dee.Real
