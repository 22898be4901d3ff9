import Dee.Store.Basic

/-!
# Text of values

What printing shows: scalars by their text, arrays in brackets, tuples in braces with the names of
their entries, functions by their parameters. The text descends at most a given number of levels,
since a container may hold itself. There must be room for it, and for each text on the way to it.
-/

namespace Dee

/-- Texts between brackets, with commas between them. -/
def enclosed (opening : String) (parts : List String) (closing : String) :
    Except Failure String := do
  let inner ← Memory.text (String.intercalate ", " parts)
  Memory.text (opening ++ inner ++ closing)

/-- The text of a tuple's entry, given that of its value. -/
def Slot.label (e : Slot) (text : String) : Except Failure String :=
  match e.name with
  | some name => Memory.text (name ++ ":=" ++ text)
  | none => .ok text

/-- The text of a value, which must not be nested deeper than `depth`. -/
def Store.spell (st : Store) : (depth : Nat) → Value → Except Failure String
  | 0, _ => .error .tooDeep
  | _ + 1, .scalar s => .ok s.text
  | depth + 1, .array ref => do
    let parts ← (st.cells ref).items.toList.mapM (st.spell depth)
    enclosed "[" parts "]"
  | depth + 1, .tuple ref => do
    let parts ← (st.slots ref).entries.mapM fun e => do e.label (← st.spell depth e.value)
    enclosed "\x7b" parts "\x7d"
  | _ + 1, .func ref => enclosed "func(" (st.closure ref).params ")"

/-- The line that printing some values writes. -/
def Store.spellLine (st : Store) (depth : Nat) (vs : List Value) : Except Failure String := do
  let parts ← vs.mapM (st.spell depth)
  let line ← Memory.text (String.intercalate " " parts)
  Memory.text (line ++ "\n")

def Store.render (st : Store) (depth : Nat) (v : Value) : Option String :=
  (st.spell depth v).toOption

end Dee
