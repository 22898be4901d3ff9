import Dee.Memory
import Dee.Value

/-!
# The elements of an array

Arrays count from one and have no fixed end: reading behind the last element gives none, writing
there fills the gap with none.
-/

namespace Dee

structure Cells where
  items : Array Value
deriving Repr, DecidableEq

namespace Cells

def length (c : Cells) : Nat := c.items.size

/-- The element at an index; none behind the end. -/
def get (c : Cells) (index : Int) : Except EvalError Value :=
  if index ≤ 0 then .error (.arrayIndex index)
  else .ok (c.items.getD (index.toNat - 1) Value.none)

/-- How many elements writing at an index adds. -/
def growth (c : Cells) (index : Int) : Nat := index.toNat - c.length

/-- Whether an index can be written. Behind the end, the gap up to it is asked for by its size, and
there must be room for an array that reaches so far. -/
def accepts (c : Cells) (index : Int) : Except Failure Unit :=
  if index ≤ 0 then .error (.ofError (.arrayIndex index))
  else if c.growth index = 0 then .ok ()
  else if Memory.addressable ≤ c.growth index then .error (.abort .unaddressable)
  else Memory.room index.toNat

/-- Writes the element at an index that can be written; a gap before it is filled with none. -/
def write (c : Cells) (index : Int) (v : Value) : Cells :=
  match c.growth index with
  | 0 => ⟨c.items.setIfInBounds (index.toNat - 1) v⟩
  | gap + 1 => ⟨(c.items ++ Array.replicate gap Value.none).push v⟩

/-- The elements of one array followed by those of another, if there is room for them. -/
def concat (c d : Cells) : Except Failure Cells :=
  (Memory.room (c.length + d.length)).map fun _ => ⟨c.items ++ d.items⟩

end Cells

end Dee
