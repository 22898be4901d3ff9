import Dee.Decimal
import Dee.Real.Shortest

/-!
# Text of reals

A real is written with the digits of its shortest decimal. Which exponents are written out as zeros
and how an exponent is marked are the decisions of `Layout`; `layout` is the one the language uses.

Reading takes a run of digits with an optional fraction and exponent and gives the nearest double.
-/

namespace Dee.Real

/-! ## Writing -/

/-- How the digits `d.ddd` and the exponent of a number are laid out. -/
structure Layout where
  /-- The least exponent that is written positionally. -/
  positionalFrom : Int
  /-- The least exponent above those that are written positionally. -/
  positionalBelow : Int
  /-- The mark between the digits and the exponent. -/
  mark : String
  /-- The least number of digits of an exponent. -/
  exponentWidth : Nat

/-- Numbers from `0.0001` up to below `10 ^ 16` are written positionally, all others as `d.ddde+XX`
with a signed exponent of at least two digits. -/
def layout : Layout where
  positionalFrom := -4
  positionalBelow := 16
  mark := "e"
  exponentWidth := 2

/-- Digits around a point, with zeros where the digits do not reach; at least one digit stands on
either side. `exponent` is that of the first digit. -/
def positionalText (ds : List Char) (exponent : Int) : List Char :=
  if exponent < 0 then
    '0' :: '.' :: (List.replicate (-exponent - 1).toNat '0' ++ ds)
  else
    let whole := exponent.toNat + 1
    let fraction := ds.drop whole
    ds.take whole ++ List.replicate (whole - ds.length) '0' ++
      '.' :: (if fraction.isEmpty then ['0'] else fraction)

/-- Digits with a point after the first, if there are more, and a marked exponent. -/
def scientificText (l : Layout) (ds : List Char) (exponent : Int) : List Char :=
  let fraction := ds.drop 1
  let size := Decimal.digits exponent.natAbs
  ds.take 1 ++ (if fraction.isEmpty then [] else '.' :: fraction) ++ l.mark.toList ++
    (if exponent < 0 then '-' else '+') ::
      (List.replicate (l.exponentWidth - size.length) '0' ++ size)

def Scientific.text (l : Layout) (d : Scientific) : List Char :=
  let ds := Decimal.digits d.coefficient
  let exponent := d.exponent + ds.length - 1
  if l.positionalFrom ≤ exponent ∧ exponent < l.positionalBelow then positionalText ds exponent
  else scientificText l ds exponent

/-- The text of a real. A negative zero keeps its sign. -/
def text (x : Float) : String :=
  match shape x with
  | .nan => "nan"
  | .infinite negative => if negative then "-inf" else "inf"
  | .finite p =>
    let magnitude := String.ofList (p.shortest.text layout)
    if p.negative then "-" ++ magnitude else magnitude

/-! ## Reading -/

/-- The double nearest to `whole.fraction`, both runs of digits. -/
def ofDigits (whole fraction : List Char) : Float :=
  Float.ofScientific (Decimal.toNat (whole ++ fraction)) true fraction.length

/-- Exponents beyond this one are as good as it: `10 ^ 400` exceeds every double, and what is below
`10 ^ -400` is nearer to zero than to any other double. -/
def extremeExponent : Nat := 400

/-- The double nearest to `coefficient * 10 ^ exponent`. -/
def Scientific.toReal (d : Scientific) : Float :=
  let width := (Decimal.digits d.coefficient).length
  let size := min d.exponent.natAbs (extremeExponent + width)
  Float.ofScientific d.coefficient (d.exponent < 0) size

/-- Reads an unsigned decimal: digits, an optional fraction, an optional exponent. -/
def readMagnitude? (s : List Char) : Option Float :=
  let (whole, afterWhole) := s.span Decimal.isDigit
  let (fraction, afterFraction) :=
    match afterWhole with
    | '.' :: r => r.span Decimal.isDigit
    | r => ([], r)
  let coefficient := Decimal.toNat (whole ++ fraction)
  let scale (e : Int) : Float := Scientific.toReal ⟨coefficient, e - fraction.length⟩
  if whole.isEmpty && fraction.isEmpty then none
  else
    match afterFraction with
    | [] => some (scale 0)
    | 'e' :: r =>
      let signed := match r with
        | '+' :: r' => String.ofList r'
        | r' => String.ofList r'
      (Decimal.toInt? signed).map scale
    | _ => none

/-- Reads a real in any form that `text` writes, and plain decimals besides. -/
def ofText? (s : String) : Option Float :=
  match s.toList with
  | ['n', 'a', 'n'] => some (0.0 / 0.0)
  | ['i', 'n', 'f'] => some (1.0 / 0.0)
  | ['-', 'i', 'n', 'f'] => some (-1.0 / 0.0)
  | '-' :: r => (readMagnitude? r).map (- ·)
  | r => readMagnitude? r

end Dee.Real
