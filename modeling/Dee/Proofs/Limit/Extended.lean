import Dee.Proofs.Eval.Outcome
import Dee.Proofs.Store.Equality
import Dee.Proofs.Store.Text

/-!
# Steps that only differ where they are cut off

Two bounds can cut a run off: the depth to which evaluation and the walks over frames and containers
descend, and the turns of a loop without items. A step is *extended* by another one if the other
does the same from every machine from which the first is not cut off. What is put together from
steps is extended when the parts are, so it is enough to look at the places that read a bound:
searches for names, comparisons and the text of values.
-/

namespace Dee

/-- Whether a failure comes from a bound of the run. -/
def Failure.isCut : Failure → Bool
  | .error _ => false
  | .tooDeep => true
  | .abort a => a = .outOfTurns

namespace Eval

variable {α β : Type}

/-- From every machine from which the first step is not cut off, the second one does the same. -/
def ExtendedBy (x y : Eval α) : Prop :=
  ∀ m, (∃ f m', x m = (.error f, m') ∧ f.isCut = true) ∨ y m = x m

theorem ExtendedBy.refl (x : Eval α) : ExtendedBy x x := fun _ => Or.inr rfl

theorem extendedBy_throw {f : Failure} (hf : f.isCut = true) (y : Eval α) :
    ExtendedBy (throw f) y :=
  fun m => Or.inl ⟨f, m, rfl, hf⟩

/-- A step in two halves: where the first half is cut off so is the whole, and else both second
halves start from the same result. -/
theorem ExtendedBy.bind {x y : Eval α} {f g : α → Eval β} (hx : ExtendedBy x y)
    (hf : ∀ a, ExtendedBy (f a) (g a)) : ExtendedBy (x >>= f) (y >>= g) := by
  intro m
  rcases hx m with ⟨e, m', hcut, he⟩ | hsame
  · exact Or.inl ⟨e, m', bind_apply_error hcut, he⟩
  · rcases hrun : x m with ⟨_ | a, m'⟩
    · refine Or.inr ?_
      rw [bind_apply_error hrun, bind_apply_error (hsame.trans hrun)]
    · rw [bind_apply_ok hrun, bind_apply_ok (hsame.trans hrun)]
      exact hf a m'

theorem ExtendedBy.bind_right (x : Eval α) {f g : α → Eval β} (hf : ∀ a, ExtendedBy (f a) (g a)) :
    ExtendedBy (x >>= f) (x >>= g) :=
  (ExtendedBy.refl x).bind hf

/-- Errors get their position behind the step, and what cut a step off gets none. -/
theorem ExtendedBy.locating {x y : Eval α} (h : ExtendedBy x y) (pos : Pos) :
    ExtendedBy (Eval.locating pos x) (Eval.locating pos y) := by
  intro m
  rcases h m with ⟨f, m', hcut, hf⟩ | hsame
  · refine Or.inl ⟨f, m', locating_apply_other ?_ hcut, hf⟩
    rintro e rfl
    cases hf
  · refine Or.inr ?_
    unfold Eval.locating
    rw [hsame]

theorem extendedBy_ofOutcome {r r' : Except Failure α} (h : Failure.Extends r r') :
    ExtendedBy (ofOutcome r) (ofOutcome r') := by
  rcases h with rfl | rfl
  · exact extendedBy_throw rfl _
  · exact .refl _

theorem extendedBy_ofBounded {r r' : Option α} (h : r = none ∨ r' = r) :
    ExtendedBy (ofBounded r) (ofBounded r') := by
  rcases h with rfl | rfl
  · exact extendedBy_throw rfl _
  · exact .refl _

end Eval

/-! ## Walks under two bounds -/

section Walks

variable {depth depth' : Nat} (hdepth : depth ≤ depth')
include hdepth

/-- A search that may go further ends where the shorter one did, unless that one went too far. -/
theorem Frames.search_extended {α : Type} (fs : Frames α) (name : String) (f : Nat) :
    fs.search name depth f = .tooFar ∨ fs.search name depth' f = fs.search name depth f := by
  induction depth generalizing depth' f with
  | zero => exact Or.inl rfl
  | succ depth ih =>
    obtain ⟨depth', rfl⟩ := Nat.exists_eq_succ_of_ne_zero (Nat.ne_of_gt (Nat.zero_lt_of_lt hdepth))
    simp only [search]
    split
    · exact Or.inr rfl
    · split
      · exact Or.inr rfl
      · split
        · exact Or.inr rfl
        · exact ih (Nat.le_of_succ_le_succ hdepth) _

theorem Frames.get_extended {α : Type} (fs : Frames α) (name : String) (f : Nat) :
    Failure.Extends (fs.get depth f name) (fs.get depth' f name) := by
  rcases fs.search_extended hdepth name f with hfar | hsame
  · exact Or.inl (by simp only [get, hfar])
  · exact Or.inr (by simp only [get, hsame])

theorem Frames.owner_extended {α : Type} (fs : Frames α) (name : String) (f : Nat) :
    Failure.Extends (fs.owner depth f name) (fs.owner depth' f name) := by
  rcases fs.search_extended hdepth name f with hfar | hsame
  · exact Or.inl (by simp only [owner, hfar])
  · exact Or.inr (by simp only [owner, hsame])

theorem Store.equal_extended (st : Store) (a b : Value) :
    st.equal depth a b = none ∨ st.equal depth' a b = st.equal depth a b := by
  cases h : st.equal depth a b with
  | none => exact Or.inl rfl
  | some t => exact Or.inr (equal_mono h hdepth)

end Walks

/-! ## Steps under two bounds -/

namespace Eval

section Steps

variable {depth depth' : Nat} (hdepth : depth ≤ depth')
include hdepth

theorem extendedBy_lookup (frame : Nat) (name : String) :
    ExtendedBy (lookup depth frame name) (lookup depth' frame name) :=
  .bind_right store fun st => extendedBy_ofOutcome (st.frames.get_extended hdepth name frame)

theorem extendedBy_assign (frame : Nat) (name : String) (v : Value) :
    ExtendedBy (assign depth frame name v) (assign depth' frame name v) :=
  .bind_right store fun st =>
    (extendedBy_ofOutcome (st.frames.owner_extended hdepth name frame)).bind fun _ => .refl _

theorem extendedBy_print (vs : List Value) : ExtendedBy (print depth vs) (print depth' vs) :=
  .bind_right store fun st =>
    (extendedBy_ofOutcome (st.spellLine_extended hdepth vs)).bind fun _ => .refl _

theorem extendedBy_combine (op : String) (a b : Value) :
    ExtendedBy (combine depth op a b) (combine depth' op a b) := by
  unfold combine
  split
  · exact .refl _
  · exact .refl _
  · split
    · exact .bind_right store fun st =>
        (extendedBy_ofBounded (st.equal_extended hdepth a b)).bind fun _ => .refl _
    · exact .refl _
  · exact .refl _
  · exact .refl _

theorem extendedBy_binary (op : String) (a b : Value) :
    ExtendedBy (binary depth op a b) (binary depth' op a b) := by
  unfold binary
  split
  · exact .refl _
  · exact extendedBy_combine hdepth op a b

end Steps

end Eval

end Dee
