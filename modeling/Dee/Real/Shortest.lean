import Dee.Real.Exact

/-!
# The shortest decimal of a real

A finite positive double stands for every number that is nearer to it than to any other double. Its
shortest decimal is the one with the fewest digits in that interval, and of those the nearest to
the double; when two are equally near, the one with the even last digit.

The search is exact: the number, the ends of its interval and the candidates are all compared as
natural numbers, in units of `2 ^ -1075` (half the smallest double, so that the ends are whole).
-/

namespace Dee.Real

/-- A decimal `coefficient * 10 ^ exponent`. -/
structure Scientific where
  coefficient : Nat
  exponent : Int
deriving Repr, DecidableEq

/-- The decimal is `coefficient * numerator / denominator` units of `2 ^ -1075`: the size of one
step of the grid with the given exponent. -/
def gridStep (exponent : Int) : Nat × Nat :=
  if 0 ≤ exponent then (Nat.pow 2 1075 * Nat.pow 10 exponent.toNat, 1)
  else (Nat.pow 2 1075, Nat.pow 10 (-exponent).toNat)

/-- The interval of numbers that round to a double, in units of `2 ^ -1075`. -/
structure Interval where
  low : Nat
  value : Nat
  high : Nat
  /-- Whether the ends themselves round to the double. -/
  closed : Bool
deriving Repr, DecidableEq

def Parts.interval (p : Parts) : Interval where
  low := 2 * p.units - Nat.pow 2 (if p.narrowBelow then p.shift - 1 else p.shift)
  value := 2 * p.units
  high := 2 * p.units + Nat.pow 2 p.shift
  closed := p.significand % 2 == 0

/-- Whether `c` steps of the grid lie in the interval. -/
def Interval.holds (i : Interval) (step : Nat × Nat) (c : Nat) : Bool :=
  let here := c * step.1
  if i.closed then i.low * step.2 ≤ here && here ≤ i.high * step.2
  else i.low * step.2 < here && here < i.high * step.2

/-- The point of the grid in the interval that is nearest to its value, if the grid has one there.
Only the two neighbours of the value need be tried. -/
def Interval.nearest? (i : Interval) (exponent : Int) : Option Scientific :=
  let step := gridStep exponent
  let floor := i.value * step.2 / step.1
  let toFloor := i.value * step.2 - floor * step.1
  let toCeil := (floor + 1) * step.1 - i.value * step.2
  let preferFloor := toFloor < toCeil || (toFloor == toCeil && floor % 2 == 0)
  let floorFits := 0 < floor && i.holds step floor
  let ceilFits := i.holds step (floor + 1)
  if floorFits && (preferFloor || !ceilFits) then some ⟨floor, exponent⟩
  else if ceilFits then some ⟨floor + 1, exponent⟩
  else none

/-- Whether `10 ^ e` is at most the value. -/
def Interval.reaches (i : Interval) (e : Int) : Bool :=
  let step := gridStep e
  step.1 ≤ i.value * step.2

/-- The exponent `e` with `10 ^ e ≤ value < 10 ^ (e + 1)`: three consecutive exponents around the
estimate from the binary logarithm are tried. -/
def Interval.magnitude (i : Interval) : Int :=
  let estimate := ((Nat.log2 i.value : Int) - 1075) * 30103 / 100000
  if i.reaches (estimate + 1) then estimate + 1
  else if i.reaches estimate then estimate
  else estimate - 1

/-- Tries grids of `count` more digits, each ten times finer than the one before. -/
def Interval.search (i : Interval) : (count : Nat) → (exponent : Int) → Option Scientific
  | 0, _ => none
  | count + 1, exponent =>
    match i.nearest? exponent with
    | some d => some d
    | none => i.search count (exponent - 1)

/-- The most digits that a shortest decimal can need. -/
def maxDigits : Nat := 17

/-- Drops the trailing zeros of the coefficient, `fuel` at most. -/
def Scientific.trim : (fuel : Nat) → Scientific → Scientific
  | 0, d => d
  | fuel + 1, d =>
    if d.coefficient % 10 == 0 && 0 < d.coefficient then
      Scientific.trim fuel ⟨d.coefficient / 10, d.exponent + 1⟩
    else d

/-- The shortest decimal of the magnitude of a finite double. -/
def Parts.shortest (p : Parts) : Scientific :=
  if p.significand == 0 then ⟨0, 0⟩
  else
    let i := p.interval
    match i.search maxDigits i.magnitude with
    | some d => d.trim maxDigits
    | none => ⟨0, 0⟩

end Dee.Real
