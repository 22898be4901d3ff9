import Dee.Store.Basic

/-!
# Equality of values

Scalars are equal as numbers or as the same scalar, arrays element by element, tuples entry by
entry with their names, and a function only to itself. Values of different kinds inside a container
are unequal, unless both are numbers. The comparison descends at most a given number of levels,
since a container may hold itself.
-/

namespace Dee.Store

/-- Compares two lists element by element and stops at the first difference. -/
def allEqual {α : Type} (equal : α → α → Option Bool) : List α → List α → Option Bool
  | [], [] => some true
  | x :: xs, y :: ys => do
    if ← equal x y then allEqual equal xs ys else some false
  | _, _ => some false

/-- Whether two values are equal; no answer if they are nested deeper than `depth`. -/
def equal (st : Store) : (depth : Nat) → Value → Value → Option Bool
  | 0, _, _ => none
  | _ + 1, .scalar a, .scalar b => some (a.equal b)
  | depth + 1, .array a, .array b =>
    let xs := (st.cells a).items
    let ys := (st.cells b).items
    if xs.size = ys.size then allEqual (st.equal depth) xs.toList ys.toList else some false
  | depth + 1, .tuple a, .tuple b =>
    let xs := (st.slots a).entries
    let ys := (st.slots b).entries
    if xs.length = ys.length then
      allEqual (fun x y => if x.name = y.name then st.equal depth x.value y.value else some false)
        xs ys
    else some false
  | _ + 1, .func a, .func b => some (a = b)
  | _ + 1, _, _ => some false

end Dee.Store
