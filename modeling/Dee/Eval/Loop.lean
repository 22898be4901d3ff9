import Dee.Eval.Monad

/-!
# Statements in sequence and in loops

A statement runs to its end or gives a signal: a jump on its way out. A list of statements stops at
the first signal, a loop catches the signals that are meant for it, and a call the last one.
-/

namespace Dee

/-- A jump on its way out of the running statement. -/
inductive Signal where
  | exitLoop
  | nextTurn
  | leave (value : Value)
deriving Repr, DecidableEq

def Signal.jump : Signal → Jump
  | .exitLoop => .exitLoop
  | .nextTurn => .nextTurn
  | .leave _ => .leaveFunction

/-- Runs statements up to the first signal. -/
def runAll (exec : Stmt → Eval (Option Signal)) : List Stmt → Eval (Option Signal)
  | [] => return none
  | s :: rest => do
    match ← exec s with
    | some signal => return some signal
    | none => runAll exec rest

/-! ## Turns of a loop -/

/-- What a loop does behind a turn: take the next one, or stop with what the loop gives. -/
inductive Turn where
  | again
  | stop (signal : Option Signal)
deriving Repr, DecidableEq

/-- What the signal of a loop's body means for the loop. -/
def Turn.ofSignal : Option Signal → Turn
  | some .exitLoop => .stop none
  | some (.leave v) => .stop (some (.leave v))
  | some .nextTurn => .again
  | none => .again

/-- Takes turns until one stops the loop, at most as many as are given. -/
def takeTurns (turn : Eval Turn) : (turns : Nat) → Eval (Option Signal)
  | 0 => throw (.abort .outOfTurns)
  | turns + 1 => do
    match ← turn with
    | .again => takeTurns turn turns
    | .stop signal => return signal

/-! ## Items of a loop -/

/-- What a loop runs over: so many items, each known by its number. Both are fixed before the first
turn. -/
structure Items where
  count : Nat
  item : Nat → Value

namespace Items

/-- The integers from `first` to `last`, both included, upwards or downwards. -/
def ofRange (first last : Int) : Items where
  count := (last - first).natAbs + 1
  item k := if first ≤ last then .int (first + k) else .int (first - k)

def ofArray (vs : Array Value) : Items where
  count := vs.size
  item k := vs.getD k Value.none

def toList (items : Items) : List Value :=
  (List.range items.count).map items.item

/-- Takes a turn for each of the items from number `next` on, until one stops the loop. -/
def takeFrom (items : Items) (turn : Value → Eval Turn) :
    (remaining next : Nat) → Eval (Option Signal)
  | 0, _ => return none
  | remaining + 1, next => do
    match ← turn (items.item next) with
    | .again => items.takeFrom turn remaining (next + 1)
    | .stop signal => return signal

def forEach (items : Items) (turn : Value → Eval Turn) : Eval (Option Signal) :=
  items.takeFrom turn items.count 0

end Items

end Dee
