import Dee.Failure

/-!
# Memory

The machine underneath holds lists of fewer than `2 ^ 60` elements and texts of fewer than `2 ^ 60`
characters. What would be larger is not made, and the run ends. Numbers may be of any size.
-/

namespace Dee

namespace Memory

/-- No list has as many elements, and no text as many characters. -/
def capacity : Nat := Nat.pow 2 60

/-- Sizes from here on cannot even be asked for. -/
def addressable : Nat := Nat.pow 2 63

/-- Room for something of a size. -/
def room (size : Nat) : Except Failure Unit :=
  if capacity ≤ size then .error (.abort .outOfMemory) else .ok ()

/-- A text that is put together. -/
def text (s : String) : Except Failure String :=
  if addressable ≤ s.length then .error (.abort .unaddressable)
  else (room s.length).map fun _ => s

end Memory

end Dee
