import Dee.Proofs.Eval.Moment

/-!
# Names that a program leaves alone

A program that neither declares a name nor assigns to it can still bind the name, by the loops over
it and by parameters, but only in frames that are new then. So every frame keeps for good whether it
binds the name and to what. A search for the name that ends in a frame goes on ending there.

Main statements: `Machine.Evolves.keepsName` and `Machine.KeepsName.finds`.
-/

namespace Dee

open Eval

/-- The statement itself neither declares the name nor assigns to it. -/
def Stmt.leavesAlone (v : String) : Stmt → Bool
  | .declaration _ vars => vars.all fun var => var.name ≠ v
  | .assign _ (.reference _ name) _ => name ≠ v
  | _ => true

/-- The test that no statement declares the name or assigns to it. -/
def NodeTest.sparing (v : String) : NodeTest := ⟨fun _ => true, Stmt.leavesAlone v, fun _ => rfl⟩

variable {v : String}

/-! ## Frames that keep a name -/

namespace Machine

variable {m m₁ m' : Machine}

/-- Every frame is still there, under its parent and with the value that it binds to the name, if it
binds it; and every function is still there. -/
structure KeepsName (v : String) (m m' : Machine) : Prop where
  frames : ∀ (f : Nat) (fr : Frame Value), m.store.frames.frames[f]? = some fr →
    ∃ fr' : Frame Value, m'.store.frames.frames[f]? = some fr' ∧ fr'.parent = fr.parent ∧
      fr'.value? v = fr.value? v
  closures : ∀ (ref : Nat) (c : Closure), m.store.closures[ref]? = some c →
    m'.store.closures[ref]? = some c

theorem KeepsName.refl (m : Machine) : m.KeepsName v m :=
  ⟨fun _ fr hf => ⟨fr, hf, rfl, rfl⟩, fun _ _ hc => hc⟩

theorem KeepsName.trans (h : m.KeepsName v m₁) (h' : m₁.KeepsName v m') : m.KeepsName v m' := by
  refine ⟨?_, fun ref c hc => h'.closures ref c (h.closures ref c hc)⟩
  intro f fr hf
  obtain ⟨fr₁, hf₁, hparent₁, hvalue₁⟩ := h.frames f fr hf
  obtain ⟨fr', hf', hparent', hvalue'⟩ := h'.frames f fr₁ hf₁
  exact ⟨fr', hf', hparent'.trans hparent₁, hvalue'.trans hvalue₁⟩

theorem keepsName_withFrame (m : Machine) (parent : Nat) (bindings : List (String × Value)) :
    m.KeepsName v (m.withFrame parent bindings) := by
  refine ⟨?_, fun _ _ hc => hc⟩
  intro f fr hf
  have hlt : f < m.store.frames.frames.size := (Array.getElem?_eq_some_iff.mp hf).1
  exact ⟨fr, by rw [getElem?_withFrame_lt m parent bindings hlt, hf], rfl, rfl⟩

theorem keepsName_bindAt {name : String} (hname : name ≠ v) (m : Machine)
    (frame : Nat) (x : Value) :
    m.KeepsName v { m with store := m.store.modifyFrames (·.bindAt frame name x) } := by
  refine ⟨?_, fun _ _ hc => hc⟩
  intro f fr hf
  show ∃ fr' : Frame Value, (m.store.frames.bindAt frame name x).frames[f]? = some fr' ∧ _
  rw [Frames.getElem?_bindAt, hf]
  split
  · exact ⟨fr.bind name x, rfl, rfl, by simp [Frame.value?_bind, hname]⟩
  · exact ⟨fr, rfl, rfl, rfl⟩

theorem keepsName_rebindAt {name : String} (hname : name ≠ v) (m : Machine)
    (owner : Nat) (x : Value) :
    m.KeepsName v { m with store := m.store.modifyFrames (·.rebindAt owner name x) } := by
  refine ⟨?_, fun _ _ hc => hc⟩
  intro f fr hf
  show ∃ fr' : Frame Value, (m.store.frames.rebindAt owner name x).frames[f]? = some fr' ∧ _
  rw [Frames.getElem?_rebindAt, hf]
  split
  · exact ⟨fr.rebind name x, rfl, rfl, by simp [Frame.value?_rebind, hname]⟩
  · exact ⟨fr, rfl, rfl, rfl⟩

theorem Change.keepsName (h : Change (.sparing v) m m') : m.KeepsName v m' := by
  have hdeclared : ∀ {pos vars var}, (NodeTest.sparing v).stmt (.declaration pos vars) = true →
      var ∈ vars → var.name ≠ v := by
    intro pos vars var h hvar
    simpa using List.all_eq_true.mp h var hvar
  cases h with
  | contents hclosures hframes =>
    refine ⟨fun f fr hf => ⟨fr, by rw [hframes, hf], rfl, rfl⟩, fun ref c hc => ?_⟩
    rw [hclosures, hc]
  | @function c _ =>
    refine ⟨fun f fr hf => ⟨fr, hf, rfl, rfl⟩, fun ref c' hc' => ?_⟩
    have hlt : ref < m.store.closures.size := (Array.getElem?_eq_some_iff.mp hc').1
    show (m.store.closures.push c)[ref]? = some c'
    rw [Array.getElem?_push, if_neg (Nat.ne_of_lt hlt), hc']
  | frame parent bindings => exact keepsName_withFrame m parent bindings
  | declare frame h hvar => exact keepsName_bindAt (hdeclared h hvar) m frame _
  | initial owner x h hvar => exact keepsName_rebindAt (hdeclared h hvar) m owner x
  | @assign _ _ name _ owner x h =>
    have hname : name ≠ v := by simpa [NodeTest.sparing, Stmt.leavesAlone] using h
    exact keepsName_rebindAt hname m owner x

/-- Code that leaves a name alone keeps it in all frames. -/
theorem Evolves.keepsName (h : Evolves (.sparing v) m m') (hm : m.Passes (.sparing v)) :
    m.KeepsName v m' :=
  h.keeps hm (fun _ _ hchange hkeeps => hkeeps.trans hchange.keepsName) (.refl m)

end Machine

/-! ## Searches -/

namespace Frames

variable {α : Type} {fs : Frames α} {f owner : Nat}

/-- A search for the name that goes far enough ends in the frame `owner`. -/
def Finds (fs : Frames α) (v : String) (f owner : Nat) : Prop :=
  ∃ reach, fs.search v reach f = .found owner

theorem search_succ_eq_found {reach : Nat} :
    fs.search v (reach + 1) f = .found owner ↔ ∃ fr, fs.frames[f]? = some fr ∧
      ((fr.binds v = true ∧ owner = f) ∨ (fr.binds v = false ∧ ∃ parent, fr.parent = some parent ∧
        fs.search v reach parent = .found owner)) := by
  rw [Frames.search]
  cases hf : fs.frames[f]? with
  | none => simp
  | some fr =>
    cases hb : fr.binds v with
    | true => simp [hb, eq_comm (a := f)]
    | false =>
      cases hparent : fr.parent with
      | none => simp [hb, hparent]
      | some parent => simp [hb, hparent]

theorem finds_self {fr : Frame α} (hf : fs.frames[f]? = some fr) (hb : fr.binds v = true) :
    fs.Finds v f f :=
  ⟨1, search_succ_eq_found.mpr ⟨fr, hf, Or.inl ⟨hb, rfl⟩⟩⟩

theorem Finds.child {parent : Nat} {fr : Frame α} (h : fs.Finds v parent owner)
    (hf : fs.frames[f]? = some fr) (hparent : fr.parent = some parent) (hb : fr.binds v = false) :
    fs.Finds v f owner := by
  obtain ⟨reach, hreach⟩ := h
  exact ⟨reach + 1, search_succ_eq_found.mpr ⟨fr, hf, Or.inr ⟨hb, parent, hparent, hreach⟩⟩⟩

/-- Every search for the name ends in the same frame, if it goes far enough. -/
theorem Finds.exists_enough (h : fs.Finds v f owner) :
    ∃ enough, ∀ reach, fs.search v reach f = if enough ≤ reach then .found owner else .tooFar := by
  obtain ⟨reach, h⟩ := h
  induction reach generalizing f with
  | zero => cases h
  | succ reach ih =>
    obtain ⟨fr, hf, ⟨hb, rfl⟩ | ⟨hb, parent, hparent, h⟩⟩ := search_succ_eq_found.mp h
    · refine ⟨1, fun reach => ?_⟩
      cases reach with
      | zero => rfl
      | succ reach => simp [Frames.search, hf, hb]
    · obtain ⟨enough, henough⟩ := ih h
      refine ⟨enough + 1, fun reach => ?_⟩
      cases reach with
      | zero => rfl
      | succ reach => simp [Frames.search, hf, hb, hparent, henough]

end Frames

theorem Frame.binds_eq_of_value? {α : Type} {fr fr' : Frame α} (h : fr'.value? v = fr.value? v) :
    fr'.binds v = fr.binds v := by
  cases hb : fr.binds v with
  | false => rw [← Frame.value?_eq_none_iff, h, Frame.value?_eq_none_iff, hb]
  | true =>
    cases hb' : fr'.binds v with
    | true => rfl
    | false =>
      rw [← Frame.value?_eq_none_iff, h, Frame.value?_eq_none_iff, hb] at hb'
      cases hb'

/-- A search that ends in a frame goes on ending there. -/
theorem Machine.KeepsName.finds {m m' : Machine} (h : m.KeepsName v m') {f owner : Nat}
    (hfinds : m.store.frames.Finds v f owner) : m'.store.frames.Finds v f owner := by
  obtain ⟨reach, hreach⟩ := hfinds
  refine ⟨reach, ?_⟩
  induction reach generalizing f with
  | zero => cases hreach
  | succ reach ih =>
    -- The frame binds the name as before and has the same parent, so the search takes the same way.
    obtain ⟨fr, hf, hcases⟩ := Frames.search_succ_eq_found.mp hreach
    obtain ⟨fr', hf', hparent, hvalue⟩ := h.frames f fr hf
    have hb := Frame.binds_eq_of_value? hvalue
    refine Frames.search_succ_eq_found.mpr ⟨fr', hf', ?_⟩
    rw [hb, hparent]
    rcases hcases with hhere | ⟨hb, parent, hparent, hreach⟩
    · exact Or.inl hhere
    · exact Or.inr ⟨hb, parent, hparent, ih hreach⟩

end Dee
