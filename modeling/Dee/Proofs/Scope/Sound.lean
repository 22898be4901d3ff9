import Dee.Proofs.Eval.Primitive
import Dee.Proofs.Program.WellFormed
import Dee.Proofs.Scope.Chain

/-!
# Stores that checked programs can leave

While a checked program runs, every value it can reach was made by it: containers and frames that
are not older than the run hold no older reference, and every function was checked against a scope
that the chain of its frame provides. `Store.Sound` collects this; every step that a program takes
keeps it.
-/

namespace Dee

/-- The sizes of a store at the start of a run. What is numbered from there on belongs to the
run. -/
structure Epoch where
  arrays : Nat
  tuples : Nat
  closures : Nat
  frames : Nat

/-- The run that starts with a store. -/
def Store.epoch (st : Store) : Epoch :=
  ⟨st.arrays.size, st.tuples.size, st.closures.size, st.frames.frames.size⟩

/-- Whether a value was made in a run. -/
def Value.Since (b : Epoch) : Value → Prop
  | .scalar _ => True
  | .array ref => b.arrays ≤ ref
  | .tuple ref => b.tuples ≤ ref
  | .func ref => b.closures ≤ ref

/-- A function whose body was checked in a scope that its frame provides. -/
def Closure.Checked (b : Epoch) (fs : Frames Value) (c : Closure) : Prop :=
  ∃ (s : Scope) (pos : Pos), fs.Provides b.frames c.frame s.frames ∧
    (Expr.function pos c.params c.statements c.expression).check s = [] ∧
    (Expr.function pos c.params c.statements c.expression).WellFormed

theorem Closure.Checked.mono {b : Epoch} {fs fs' : Frames Value} {c : Closure} {f : Nat}
    {names : List String} (h : c.Checked b fs) (hg : Frames.Gains f names fs fs') :
    c.Checked b fs' := by
  obtain ⟨s, pos, hp, hc, hw⟩ := h
  exact ⟨s, pos, hp.mono hg, hc, hw⟩

/-- What holds of the store whenever a checked program runs. -/
structure Store.Sound (b : Epoch) (st : Store) : Prop where
  arrays_le : b.arrays ≤ st.arrays.size
  tuples_le : b.tuples ≤ st.tuples.size
  closures_le : b.closures ≤ st.closures.size
  frames_le : b.frames ≤ st.frames.frames.size
  cells : ∀ ref, b.arrays ≤ ref → ∀ v ∈ (st.cells ref).items, v.Since b
  slots : ∀ ref, b.tuples ≤ ref → ∀ v ∈ (st.slots ref).values, v.Since b
  bindings : ∀ f fr, b.frames ≤ f → st.frames.frames[f]? = some fr →
    ∀ x ∈ fr.bindings, x.2.Since b
  closures : ∀ ref, b.closures ≤ ref → (st.closure ref).Checked b st.frames

namespace Store

variable {b : Epoch} {st : Store}

/-! ## The start of a run -/

/-- Nothing was made yet when a run starts. -/
theorem sound_epoch (st : Store) : st.Sound st.epoch where
  arrays_le := Nat.le_refl _
  tuples_le := Nat.le_refl _
  closures_le := Nat.le_refl _
  frames_le := Nat.le_refl _
  cells := by
    intro ref href v hv
    have hsize : st.arrays.size ≤ ref := href
    simp [Store.cells, hsize] at hv
  slots := by
    intro ref href v hv
    have hsize : st.tuples.size ≤ ref := href
    simp [Store.slots, hsize, Slots.values] at hv
  bindings := by
    intro f fr hf hfr
    have hlt := (Array.getElem?_eq_some_iff.mp hfr).1
    exact absurd hlt (Nat.not_lt.mpr hf)
  closures := by
    intro ref href
    have hsize : st.closures.size ≤ ref := href
    refine ⟨⟨[], true, true⟩, .start, ?_, ?_, ?_⟩
    · trivial
    · simp [Store.closure, hsize, Expr.check, Expr.checkOption, Stmt.checkAll, Scope.repeated]
    · simp [Store.closure, hsize, Expr.WellFormed, Expr.everywhere, Expr.everywhereOption,
        Stmt.everywhereAll, Expr.isWellFormed]

/-! ## Making something new -/

theorem Sound.newArray (h : st.Sound b) {c : Cells} (hc : ∀ v ∈ c.items, v.Since b) :
    (st.newArray c).1.Since b ∧ (st.newArray c).2.Sound b := by
  refine ⟨h.arrays_le, { h with arrays_le := ?_, cells := ?_ }⟩
  · simp only [Store.newArray, Array.size_push]
    exact Nat.le_succ_of_le h.arrays_le
  · intro ref href v hv
    simp only [Store.newArray, Store.cells, Array.getD_eq_getD_getElem?, Array.getElem?_push] at hv
    split at hv
    · exact hc v hv
    · rw [← Array.getD_eq_getD_getElem?] at hv
      exact h.cells ref href v hv

theorem Sound.newTuple (h : st.Sound b) {s : Slots} (hs : ∀ v ∈ s.values, v.Since b) :
    (st.newTuple s).1.Since b ∧ (st.newTuple s).2.Sound b := by
  refine ⟨h.tuples_le, { h with tuples_le := ?_, slots := ?_ }⟩
  · simp only [Store.newTuple, Array.size_push]
    exact Nat.le_succ_of_le h.tuples_le
  · intro ref href v hv
    simp only [Store.newTuple, Store.slots, Array.getD_eq_getD_getElem?, Array.getElem?_push] at hv
    split at hv
    · exact hs v hv
    · rw [← Array.getD_eq_getD_getElem?] at hv
      exact h.slots ref href v hv

theorem Sound.newClosure (h : st.Sound b) {c : Closure} (hc : c.Checked b st.frames) :
    (st.newClosure c).1.Since b ∧ (st.newClosure c).2.Sound b := by
  refine ⟨h.closures_le, { h with closures_le := ?_, closures := ?_ }⟩
  · simp only [Store.newClosure, Array.size_push]
    exact Nat.le_succ_of_le h.closures_le
  · intro ref href
    simp only [Store.newClosure, Store.closure, Array.getD_eq_getD_getElem?, Array.getElem?_push]
    split
    · exact hc
    · rw [← Array.getD_eq_getD_getElem?]
      exact h.closures ref href

theorem Sound.newFrame (h : st.Sound b) (parent : Nat) : (st.newFrame parent).2.Sound b := by
  refine { h with frames_le := ?_, bindings := ?_, closures := ?_ }
  · simp only [Store.newFrame, Frames.size_push]
    exact Nat.le_succ_of_le h.frames_le
  · intro f fr hf hfr x hx
    simp only [Store.newFrame, Frames.push, Array.getElem?_push] at hfr
    split at hfr
    · cases hfr
      cases hx
    · exact h.bindings f fr hf hfr x hx
  · intro ref href
    exact (h.closures ref href).mono (Frames.keeps_push parent)

/-! ## Changing something -/

theorem Sound.modifyCells (h : st.Sound b) {v : Value} (hv : v.Since b) (ref : Nat)
    (index : Int) : (st.modifyCells ref (·.write index v)).Sound b := by
  refine { h with arrays_le := ?_, cells := ?_ }
  · simp only [Store.modifyCells, Array.size_modify]
    exact h.arrays_le
  · intro ref' href' w hw
    simp only [Store.modifyCells, Store.cells, Array.getD_eq_getD_getElem?,
      Array.getElem?_modify] at hw
    split at hw
    · cases hc : st.arrays[ref']? with
      | none => simp [hc] at hw
      | some c =>
        rw [hc, Option.map_some, Option.getD_some] at hw
        rcases Cells.mem_write hw with rfl | rfl | hold
        · exact hv
        · trivial
        · refine h.cells ref' href' w ?_
          simpa [Store.cells, Array.getD_eq_getD_getElem?, hc] using hold
    · rw [← Array.getD_eq_getD_getElem?] at hw
      exact h.cells ref' href' w hw

theorem Sound.modifySlots (h : st.Sound b) {v : Value} (hv : v.Since b) (ref place : Nat) :
    (st.modifySlots ref (·.write place v)).Sound b := by
  refine { h with tuples_le := ?_, slots := ?_ }
  · simp only [Store.modifySlots, Array.size_modify]
    exact h.tuples_le
  · intro ref' href' w hw
    simp only [Store.modifySlots, Store.slots, Array.getD_eq_getD_getElem?,
      Array.getElem?_modify] at hw
    split at hw
    · cases hs : st.tuples[ref']? with
      | none => simp [hs, Slots.values] at hw
      | some s =>
        rw [hs, Option.map_some, Option.getD_some] at hw
        rcases Slots.mem_values_write hw with rfl | hold
        · exact hv
        · refine h.slots ref' href' w ?_
          simpa [Store.slots, Array.getD_eq_getD_getElem?, hs] using hold
    · rw [← Array.getD_eq_getD_getElem?] at hw
      exact h.slots ref' href' w hw

theorem Sound.bindAt (h : st.Sound b) {v : Value} (hv : v.Since b) (frame : Nat)
    (name : String) : (st.modifyFrames (·.bindAt frame name v)).Sound b := by
  refine { h with frames_le := ?_, bindings := ?_, closures := ?_ }
  · simp only [Store.modifyFrames, Frames.size_bindAt]
    exact h.frames_le
  · intro f fr hf hfr x hx
    simp only [Store.modifyFrames, Frames.getElem?_bindAt] at hfr
    split at hfr
    · obtain ⟨fr₀, hfr₀, rfl⟩ := Option.map_eq_some_iff.mp hfr
      simp only [Frame.bind, List.mem_append, List.mem_singleton] at hx
      rcases hx with hx | rfl
      · exact h.bindings f fr₀ hf hfr₀ x hx
      · exact hv
    · exact h.bindings f fr hf hfr x hx
  · intro ref href
    exact (h.closures ref href).mono (Frames.gains_bindAt frame name v)

theorem Sound.rebindAt (h : st.Sound b) {v : Value} (hv : v.Since b) (owner : Nat)
    (name : String) : (st.modifyFrames (·.rebindAt owner name v)).Sound b := by
  refine { h with frames_le := ?_, bindings := ?_, closures := ?_ }
  · simp only [Store.modifyFrames, Frames.size_rebindAt]
    exact h.frames_le
  · intro f fr hf hfr x hx
    simp only [Store.modifyFrames, Frames.getElem?_rebindAt] at hfr
    split at hfr
    · obtain ⟨fr₀, hfr₀, rfl⟩ := Option.map_eq_some_iff.mp hfr
      rcases Frame.mem_bindings_rebind hx with rfl | hx
      · exact hv
      · exact h.bindings f fr₀ hf hfr₀ x hx
    · exact h.bindings f fr hf hfr x hx
  · intro ref href
    exact (h.closures ref href).mono (Frames.keeps_rebindAt owner name v)

/-! ## Reading -/

/-- What a container of the run holds was made in the run. -/
theorem Sound.since_of_holds (h : st.Sound b) {container v : Value} (hc : container.Since b)
    (hv : st.Holds container v) : v.Since b := by
  cases container with
  | array ref => exact h.cells ref hc v hv
  | tuple ref => exact h.slots ref hc v hv
  | scalar s => exact absurd hv id
  | func ref => exact absurd hv id

end Store

end Dee
