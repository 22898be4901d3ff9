/-!
# Tables of code points

A property of characters beyond ASCII is a table of closed ranges of code points in ascending order.
-/

namespace Dee.Text

/-- Whether a closed range of the table holds the code point. -/
def inRanges (ranges : List (Nat × Nat)) (code : Nat) : Bool :=
  ranges.any fun range => range.1 ≤ code && code ≤ range.2

end Dee.Text
