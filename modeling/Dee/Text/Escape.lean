import Dee.Text.Printable

/-!
# Quoted text in messages

A text stands between single quotes, or between double quotes if it holds a single quote and no
double one. Inside, the quote and the backslash stand behind a backslash, line end, carriage return
and tab have letters, and whatever is not printable is written by its code point.
-/

namespace Dee.Text

/-- A number in hexadecimal, filled with zeros on the left up to a width. -/
def hexDigits (width n : Nat) : List Char :=
  let ds := Nat.toDigits 16 n
  List.replicate (width - ds.length) '0' ++ ds

/-- A code point in two, four or eight hexadecimal digits, behind the mark of that width; the least
width that holds it is taken. -/
def escapedCode (code : Nat) : List Char :=
  if code < 0x100 then '\\' :: 'x' :: hexDigits 2 code
  else if code < 0x10000 then '\\' :: 'u' :: hexDigits 4 code
  else '\\' :: 'U' :: hexDigits 8 code

/-- How a character stands between quotes. -/
def escapedChar (quote c : Char) : List Char :=
  if c = quote ∨ c = '\\' then ['\\', c]
  else if c = '\n' then ['\\', 'n']
  else if c = '\r' then ['\\', 'r']
  else if c = '\t' then ['\\', 't']
  else if isPrintable c then [c]
  else escapedCode c.toNat

/-- The quote that a text stands between. -/
def quoteFor (cs : List Char) : Char :=
  if cs.contains '\x27' && !cs.contains '\x22' then '\x22' else '\x27'

def quoted (s : String) : String :=
  let cs := s.toList
  let quote := quoteFor cs
  String.ofList (quote :: cs.flatMap (escapedChar quote) ++ [quote])

end Dee.Text
