import Dee.Store.Frames

/-!
# Names in frames

The names that a frame binds, and how the operations on frames change them: binding a name adds it
to one frame, rebinding changes no frame's names, and a new frame starts without names.
-/

namespace Dee

namespace Frame

variable {α : Type}

/-- The names that a frame binds, in the order in which they were bound. -/
def names (f : Frame α) : List String := f.bindings.map Prod.fst

theorem binds_iff {f : Frame α} {name : String} : f.binds name = true ↔ name ∈ f.names := by
  unfold binds names
  simp

theorem binds_eq_false_iff {f : Frame α} {name : String} :
    f.binds name = false ↔ name ∉ f.names := by
  rw [← binds_iff]
  simp

@[simp] theorem names_bind (f : Frame α) (name : String) (v : α) :
    (f.bind name v).names = f.names ++ [name] := by
  simp [names, bind]

@[simp] theorem parent_bind (f : Frame α) (name : String) (v : α) :
    (f.bind name v).parent = f.parent := rfl

@[simp] theorem names_rebind (f : Frame α) (name : String) (v : α) :
    (f.rebind name v).names = f.names := by
  simp only [names, rebind, List.map_map]
  refine List.map_congr_left fun b _ => ?_
  by_cases h : b.1 = name
  · simp [h]
  · simp [h]

@[simp] theorem parent_rebind (f : Frame α) (name : String) (v : α) :
    (f.rebind name v).parent = f.parent := rfl

/-- A frame that binds a name has a value for it. -/
theorem exists_value?_of_binds {f : Frame α} {name : String} (h : f.binds name = true) :
    ∃ v, f.value? name = some v := by
  unfold value?
  cases hf : f.bindings.find? fun b => b.1 = name with
  | some b => exact ⟨b.2, rfl⟩
  | none =>
    rw [List.find?_eq_none] at hf
    obtain ⟨b, hb, hn⟩ := List.any_eq_true.mp h
    exact absurd hn (hf b hb)

theorem mem_bindings_of_value? {f : Frame α} {name : String} {v : α}
    (h : f.value? name = some v) : (name, v) ∈ f.bindings := by
  unfold value? at h
  obtain ⟨b, hb, rfl⟩ := Option.map_eq_some_iff.mp h
  have hn : b.1 = name := by simpa using List.find?_some hb
  rw [← hn]
  exact List.mem_of_find?_eq_some hb

/-- Rebinding brings in no value but the new one. -/
theorem mem_bindings_rebind {f : Frame α} {name : String} {v : α} {b : String × α}
    (h : b ∈ (f.rebind name v).bindings) : b = (name, v) ∨ b ∈ f.bindings := by
  simp only [rebind, List.mem_map] at h
  obtain ⟨c, hc, rfl⟩ := h
  by_cases hn : c.1 = name
  · simp [hn]
  · simp [hn, hc]

theorem value?_eq_none_iff {f : Frame α} {name : String} :
    f.value? name = none ↔ f.binds name = false := by
  unfold value? binds
  simp

/-- Behind a new binding every name has the value it had, and a new name the value bound to it. -/
theorem value?_bind {f : Frame α} {name : String} (v : α) (other : String) :
    (f.bind name v).value? other =
      (f.value? other).or (if name = other then some v else none) := by
  unfold value? bind
  rw [List.find?_append, Option.map_or]
  by_cases h : name = other
  · simp [h]
  · simp [h]

/-- Behind a changed binding every other name has the value it had. -/
theorem value?_rebind {f : Frame α} {name : String} (v : α) (other : String) :
    (f.rebind name v).value? other =
      if name = other then (f.value? other).map fun _ => v else f.value? other := by
  unfold value? rebind
  induction f.bindings with
  | nil => simp
  | cons b rest ih =>
    simp only [List.map_cons, List.find?_cons]
    by_cases hb : b.1 = other
    · by_cases hn : name = other
      · simp [hb, hn]
      · simp [hb, hn, Ne.symm hn]
    · by_cases hbn : b.1 = name
      · have hn : name ≠ other := fun h => hb (hbn.trans h)
        simpa [hb, hbn, hn] using ih
      · simpa [hb, hbn] using ih

end Frame

namespace Frames

variable {α : Type} {fs : Frames α}

/-! ## Single frames after an operation -/

theorem getElem?_push_lt {f : Nat} (parent : Nat) (h : f < fs.frames.size) :
    (fs.push parent).frames[f]? = fs.frames[f]? := by
  simp [push, Array.getElem?_push, Nat.ne_of_lt h]

theorem getElem?_push_size (parent : Nat) :
    (fs.push parent).frames[fs.frames.size]? = some ⟨some parent, []⟩ := by
  simp [push]

@[simp] theorem size_push (parent : Nat) :
    (fs.push parent).frames.size = fs.frames.size + 1 := by
  simp [push]

theorem getElem?_bindAt (frame : Nat) (name : String) (v : α) (f : Nat) :
    (fs.bindAt frame name v).frames[f]? =
      if frame = f then (fs.frames[f]?).map (·.bind name v) else fs.frames[f]? := by
  simp [bindAt, Array.getElem?_modify]

@[simp] theorem size_bindAt (frame : Nat) (name : String) (v : α) :
    (fs.bindAt frame name v).frames.size = fs.frames.size := by
  simp [bindAt]

theorem getElem?_rebindAt (frame : Nat) (name : String) (v : α) (f : Nat) :
    (fs.rebindAt frame name v).frames[f]? =
      if frame = f then (fs.frames[f]?).map (·.rebind name v) else fs.frames[f]? := by
  simp [rebindAt, Array.getElem?_modify]

@[simp] theorem size_rebindAt (frame : Nat) (name : String) (v : α) :
    (fs.rebindAt frame name v).frames.size = fs.frames.size := by
  simp [rebindAt]

/-! ## Searching -/

/-- A search ends at a frame that binds the name. -/
theorem binds_of_search {name : String} {reach frame owner : Nat}
    (h : fs.search name reach frame = .found owner) :
    ∃ f, fs.frames[owner]? = some f ∧ f.binds name = true := by
  induction reach generalizing frame with
  | zero => cases h
  | succ reach ih =>
    unfold search at h
    split at h
    · cases h
    next f hf =>
      split at h
      next hb =>
        cases h
        exact ⟨f, hf, hb⟩
      next =>
        split at h
        · cases h
        · exact ih h

end Frames

end Dee
