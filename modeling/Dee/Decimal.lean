/-!
# Decimal text of unbounded integers

Integers of any size are written and read in base ten. Both directions work on chunks of
`chunkDigits` digits, so that the arithmetic on one digit never touches the whole number.

* `Decimal.ofNat`, `Decimal.ofInt` write: the leading chunk is written bare, every later chunk is
  filled with zeros to full width.
* `Decimal.toNat` reads: the text is cut from its left end, so only the last piece may be short.

## Termination

* `chunks`: the number is divided by `chunkBase`, which is greater than one.
* `pieces`: the text loses `chunkDigits` characters.
-/

namespace Dee.Decimal

/-! ## Digits and chunks -/

/-- How many digits one chunk holds. -/
def chunkDigits : Nat := 1000

/-- The first number that does not fit into one chunk. -/
def chunkBase : Nat := Nat.pow 10 chunkDigits

theorem one_lt_powTen {k : Nat} (h : k ≠ 0) : 1 < Nat.pow 10 k :=
  Nat.one_lt_pow h (by decide)

theorem one_lt_chunkBase : 1 < chunkBase := by
  unfold chunkBase
  exact one_lt_powTen (by decide)

/-- Whether a character is one of the ten digits `0` to `9`; no other numeral counts. -/
def isDigit (c : Char) : Bool :=
  '0' ≤ c && c ≤ '9'

def digitValue (c : Char) : Nat :=
  c.toNat - '0'.toNat

/-- The digits of a number, most significant first; zero has the one digit `0`. -/
def digits (n : Nat) : List Char :=
  Nat.toDigits 10 n

/-- The digits of a number, filled with zeros on the left to the width of a chunk. -/
def paddedDigits (n : Nat) : List Char :=
  let ds := digits n
  List.replicate (chunkDigits - ds.length) '0' ++ ds

/-! ## Writing -/

/-- The chunks of a number, least significant first. -/
def chunks (n : Nat) : List Nat :=
  if n < chunkBase then [n] else n % chunkBase :: chunks (n / chunkBase)
termination_by n
decreasing_by
  have := one_lt_chunkBase
  exact Nat.div_lt_self (by omega) this

/-- Writes chunks, most significant first: the first one bare, the others at full width. -/
def ofChunks : List Nat → List Char
  | [] => []
  | head :: rest => digits head ++ rest.flatMap paddedDigits

def ofNat (n : Nat) : String :=
  String.ofList (ofChunks (chunks n).reverse)

/-- The decimal text of an integer: a minus sign stands before the text of a negative one. -/
def ofInt (n : Int) : String :=
  if n < 0 then "-" ++ ofNat n.natAbs else ofNat n.natAbs

/-! ## Reading -/

def valueOf (ds : List Char) : Nat :=
  ds.foldl (fun n c => n * 10 + digitValue c) 0

/-- A run of digits cut into pieces of `chunkDigits`, from the left. -/
def pieces (ds : List Char) : List (List Char) :=
  if ds.length ≤ chunkDigits then [ds]
  else ds.take chunkDigits :: pieces (ds.drop chunkDigits)
termination_by ds.length
decreasing_by
  have : 0 < chunkDigits := by decide
  simp only [List.length_drop]
  omega

/-- Reads a run of digits piece by piece; leading zeros are allowed. -/
def toNat (ds : List Char) : Nat :=
  (pieces ds).foldl (fun n piece => n * Nat.pow 10 piece.length + valueOf piece) 0

/-- Reads a minus sign, if there is one, and a run of at least one digit. -/
def toInt? (s : String) : Option Int :=
  match s.toList with
  | [] => none
  | '-' :: ds => if ds.isEmpty || !ds.all isDigit then none else some (-(toNat ds : Int))
  | ds => if ds.all isDigit then some (toNat ds) else none

end Dee.Decimal
