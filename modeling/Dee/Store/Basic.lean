import Dee.Program.Basic
import Dee.Store.Cells
import Dee.Store.Frames
import Dee.Store.Slots

/-!
# The store

Holds everything that values refer to: the elements of arrays, the entries of tuples, functions,
and the frames in which names are bound. Nothing is ever removed, so a reference stays good.
-/

namespace Dee

/-- A function with the frame it was made in. -/
structure Closure where
  params : List String
  statements : List Stmt
  expression : Option Expr
  frame : Nat

/-- What values and names refer to. -/
structure Store where
  arrays : Array Cells
  tuples : Array Slots
  closures : Array Closure
  frames : Frames Value

namespace Store

def initial : Store := ⟨#[], #[], #[], .single⟩

def cells (st : Store) (ref : Nat) : Cells := st.arrays.getD ref ⟨#[]⟩

def slots (st : Store) (ref : Nat) : Slots := st.tuples.getD ref .empty

def closure (st : Store) (ref : Nat) : Closure := st.closures.getD ref ⟨[], [], none, 0⟩

def newArray (st : Store) (c : Cells) : Value × Store :=
  (.array st.arrays.size, { st with arrays := st.arrays.push c })

def newTuple (st : Store) (s : Slots) : Value × Store :=
  (.tuple st.tuples.size, { st with tuples := st.tuples.push s })

def newClosure (st : Store) (c : Closure) : Value × Store :=
  (.func st.closures.size, { st with closures := st.closures.push c })

def newFrame (st : Store) (parent : Nat) : Nat × Store :=
  (st.frames.frames.size, { st with frames := st.frames.push parent })

def modifyCells (st : Store) (ref : Nat) (f : Cells → Cells) : Store :=
  { st with arrays := st.arrays.modify ref f }

def modifySlots (st : Store) (ref : Nat) (f : Slots → Slots) : Store :=
  { st with tuples := st.tuples.modify ref f }

def modifyFrames (st : Store) (f : Frames Value → Frames Value) : Store :=
  { st with frames := f st.frames }

/-- Whether a condition takes a value for true: empty arrays and tuples are not, functions are. -/
def truthy (st : Store) : Value → Bool
  | .scalar s => s.truthy
  | .array ref => 0 < (st.cells ref).length
  | .tuple ref => 0 < (st.slots ref).length
  | .func _ => true

end Store

end Dee
