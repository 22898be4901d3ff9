/-!
# Limits

How far each stage of a run descends before it gives up. The host has one bound on nested calls; as
every stage nests its calls in its own way, that bound comes to a number of levels for each.
-/

namespace Dee

/-- The bounds of a run. -/
structure Limits where
  /-- How many levels of nesting are parsed. -/
  nesting : Nat
  /-- The depth of programs that scope analysis accepts. -/
  analyzed : Nat
  /-- The depth of programs that simplification accepts. -/
  simplified : Nat
  /-- How many levels of nesting are evaluated, by the text or by calls. -/
  depth : Nat
  /-- How many turns a loop without items may take. -/
  turns : Nat

namespace Limits

/-- The bounds that programs run under. -/
def standard : Limits where
  nesting := 2000
  analyzed := 6000
  simplified := 3000
  depth := 3000
  turns := Nat.pow 2 60

/-- The standard bounds, but for the levels and the turns of evaluation. -/
def bounded (depth turns : Nat) : Limits := { standard with depth, turns }

end Limits

end Dee
