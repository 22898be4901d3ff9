import Dee.Proofs.Refinement.Alike

/-!
# Changes of stores that look alike

Each change that evaluation makes to a store keeps stores alike, if both sides make it; what is made
on both sides becomes a pair. A function may be made on the first side alone, a frame on the second
alone, and a name that is not kept may be bound and changed on the first side alone.
-/

namespace Dee

variable {kept : String → Prop} {W W' : World} {s t : Store} {i j : Nat}

namespace Store.Alike

/-! ## Making something new -/

theorem newArray (h : Store.Alike kept W s t) {c d : Cells} (hcd : Cells.Alike W c d) :
    ∃ W', W ≤ W' ∧ Store.Alike kept W' (s.newArray c).2 (t.newArray d).2 ∧
      Value.Alike W' (s.newArray c).1 (t.newArray d).1 := by
  have hW := W.le_addArray s.arrays.size t.arrays.size
  refine ⟨_, hW, ?_, .array (Or.inr ⟨rfl, rfl⟩)⟩
  exact { h with
    arrays := (h.arrays.push hcd).mono fun _ _ hx => Cells.Alike.mono hx hW
    tuples := h.tuples.mono fun _ _ hx => Slots.Alike.mono hx hW
    closures := h.closures.mono fun _ _ hx => hx.mono hW
    frames := h.frames.mono fun _ _ hx => hx.mono hW }

theorem newTuple (h : Store.Alike kept W s t) {c d : Slots} (hcd : Slots.Alike W c d) :
    ∃ W', W ≤ W' ∧ Store.Alike kept W' (s.newTuple c).2 (t.newTuple d).2 ∧
      Value.Alike W' (s.newTuple c).1 (t.newTuple d).1 := by
  have hW := W.le_addTuple s.tuples.size t.tuples.size
  refine ⟨_, hW, ?_, .tuple (Or.inr ⟨rfl, rfl⟩)⟩
  exact { h with
    arrays := h.arrays.mono fun _ _ hx => Cells.Alike.mono hx hW
    tuples := (h.tuples.push hcd).mono fun _ _ hx => Slots.Alike.mono hx hW
    closures := h.closures.mono fun _ _ hx => hx.mono hW
    frames := h.frames.mono fun _ _ hx => hx.mono hW }

theorem newClosure (h : Store.Alike kept W s t) {c d : Closure}
    (hcd : Closure.Alike kept W c d) :
    ∃ W', W ≤ W' ∧ Store.Alike kept W' (s.newClosure c).2 (t.newClosure d).2 ∧
      Value.Alike W' (s.newClosure c).1 (t.newClosure d).1 := by
  have hW := W.le_addClosure s.closures.size t.closures.size
  refine ⟨_, hW, ?_, .func (Or.inr ⟨rfl, rfl⟩)⟩
  exact { h with
    arrays := h.arrays.mono fun _ _ hx => Cells.Alike.mono hx hW
    tuples := h.tuples.mono fun _ _ hx => Slots.Alike.mono hx hW
    closures := (h.closures.push hcd).mono fun _ _ hx => hx.mono hW
    frames := h.frames.mono fun _ _ hx => hx.mono hW }

theorem newClosure_left (h : Store.Alike kept W s t) (c : Closure) :
    Store.Alike kept W (s.newClosure c).2 t :=
  { h with closures := h.closures.push_left c }

/-- The outermost frame is there before any other. -/
theorem globalFrame_lt (h : Store.Alike kept W s t) :
    Machine.globalFrame < s.frames.frames.size :=
  (Array.getElem?_eq_some_iff.mp h.bare).1

theorem frame_alike_empty {p q : Nat} (hp : p = Machine.globalFrame ∨ W.frames p q) :
    Frame.Alike kept W ⟨some p, []⟩ ⟨some q, []⟩ where
  names := by
    intro name hname
    simp [Frame.binds] at hname
  values := by
    intro name _
    exact .none
  parent := by
    rintro p' ⟨⟩
    rcases hp with hp | hp
    · exact Or.inl hp
    · exact Or.inr ⟨q, rfl, hp⟩

/-- A new frame on both sides, under paired frames or under the outermost one. -/
theorem newFrame (h : Store.Alike kept W s t) {p q : Nat}
    (hp : p = Machine.globalFrame ∨ W.frames p q) :
    ∃ W', W ≤ W' ∧ Store.Alike kept W' (s.newFrame p).2 (t.newFrame q).2 ∧
      W'.frames (s.newFrame p).1 (t.newFrame q).1 := by
  have hW := W.le_addFrame s.frames.frames.size t.frames.frames.size
  refine ⟨_, hW, ?_, Or.inr ⟨rfl, rfl⟩⟩
  exact {
    arrays := h.arrays.mono fun _ _ hx => Cells.Alike.mono hx hW
    tuples := h.tuples.mono fun _ _ hx => Slots.Alike.mono hx hW
    closures := h.closures.mono fun _ _ hx => hx.mono hW
    frames := (h.frames.push (frame_alike_empty hp)).mono fun _ _ hx => hx.mono hW
    bare := (Frames.getElem?_push_lt p h.globalFrame_lt).trans h.bare
    inner := by
      rintro i j (hij | ⟨rfl, -⟩)
      · exact h.inner hij
      · exact Nat.ne_of_gt h.globalFrame_lt }

theorem newFrame_right (h : Store.Alike kept W s t) (q : Nat) :
    Store.Alike kept W s (t.newFrame q).2 :=
  { h with frames := h.frames.push_right _ }

/-! ## Changing containers -/

theorem modifyCells (h : Store.Alike kept W s t) (hij : W.arrays i j) {f g : Cells → Cells}
    (hfg : ∀ c d, Cells.Alike W c d → Cells.Alike W (f c) (g d)) :
    Store.Alike kept W (s.modifyCells i f) (t.modifyCells j g) :=
  { h with arrays := h.arrays.modify hij fun c d _ _ hcd => hfg c d hcd }

theorem modifySlots (h : Store.Alike kept W s t) (hij : W.tuples i j) {f g : Slots → Slots}
    (hfg : ∀ c d, Slots.Alike W c d → Slots.Alike W (f c) (g d)) :
    Store.Alike kept W (s.modifySlots i f) (t.modifySlots j g) :=
  { h with tuples := h.tuples.modify hij fun c d _ _ hcd => hfg c d hcd }

end Store.Alike

/-! ## Frames -/

namespace Frame.Alike

variable {f g : Frame Value} {name : String} {v w : Value}

/-- A kept name is bound on both sides or on none. -/
theorem binds_eq (h : Frame.Alike kept W f g) (hname : kept name) :
    f.binds name = g.binds name := by
  have hrel := h.values name hname
  cases hg : g.binds name with
  | true => exact h.names name hg
  | false =>
    rw [Frame.value?_eq_none_iff.mpr hg] at hrel
    cases hf : f.value? name with
    | none => exact Frame.value?_eq_none_iff.mp hf
    | some x =>
      rw [hf] at hrel
      cases hrel

theorem bind (h : Frame.Alike kept W f g) (hf : f.binds name = false) (hv : Value.Alike W v w) :
    Frame.Alike kept W (f.bind name v) (g.bind name w) where
  names := by
    intro other hother
    rw [Frame.binds_iff, Frame.names_bind, List.mem_append, ← Frame.binds_iff] at hother ⊢
    exact hother.imp_left (h.names other)
  values := by
    intro other hother
    rw [Frame.value?_bind, Frame.value?_bind]
    by_cases hn : name = other
    · subst hn
      have hg := (h.binds_eq hother).symm.trans hf
      rw [Frame.value?_eq_none_iff.mpr hf, Frame.value?_eq_none_iff.mpr hg, if_pos rfl, if_pos rfl]
      exact .some hv
    · rw [if_neg hn, if_neg hn, Option.or_none, Option.or_none]
      exact h.values other hother
  parent := h.parent

/-- The first side may bind a name that is not kept alone. -/
theorem bind_left (h : Frame.Alike kept W f g) (hname : ¬ kept name) (v : Value) :
    Frame.Alike kept W (f.bind name v) g where
  names := by
    intro other hother
    rw [Frame.binds_iff, Frame.names_bind, List.mem_append, ← Frame.binds_iff]
    exact Or.inl (h.names other hother)
  values := by
    intro other hother
    have hn : name ≠ other := fun hn => hname (hn ▸ hother)
    rw [Frame.value?_bind, if_neg hn, Option.or_none]
    exact h.values other hother
  parent := h.parent

theorem binds_rebind (f : Frame Value) (name other : String) (v : Value) :
    (f.rebind name v).binds other = f.binds other := by
  rw [Bool.eq_iff_iff, Frame.binds_iff, Frame.binds_iff, Frame.names_rebind]

theorem rebind (h : Frame.Alike kept W f g) (hv : Value.Alike W v w) :
    Frame.Alike kept W (f.rebind name v) (g.rebind name w) where
  names := by
    intro other hother
    rw [binds_rebind] at hother ⊢
    exact h.names other hother
  values := by
    intro other hother
    rw [Frame.value?_rebind, Frame.value?_rebind]
    have hrel := h.values other hother
    by_cases hn : name = other
    · rw [if_pos hn, if_pos hn]
      generalize f.value? other = x, g.value? other = y at hrel
      cases hrel with
      | none => exact .none
      | some _ => exact .some hv
    · rw [if_neg hn, if_neg hn]
      exact hrel
  parent := h.parent

/-- The first side may change a name that is not kept alone. -/
theorem rebind_left (h : Frame.Alike kept W f g) (hname : ¬ kept name) (v : Value) :
    Frame.Alike kept W (f.rebind name v) g where
  names := by
    intro other hother
    rw [binds_rebind]
    exact h.names other hother
  values := by
    intro other hother
    have hn : name ≠ other := fun hn => hname (hn ▸ hother)
    rw [Frame.value?_rebind, if_neg hn]
    exact h.values other hother
  parent := h.parent

end Frame.Alike

namespace Store.Alike

variable {f g : Nat} {name : String} {v w : Value}

/-- Changing a frame that is paired leaves the outermost one as it is. -/
theorem bare_modify (h : Store.Alike kept W s t) (hf : f ≠ Machine.globalFrame)
    (change : Frame Value → Frame Value) :
    (s.frames.frames.modify f change)[Machine.globalFrame]? = some ⟨none, []⟩ := by
  rw [Array.getElem?_modify, if_neg hf, h.bare]

/-- Binding a name that is new on the first side; so it is new on the second. -/
theorem bindAt (h : Store.Alike kept W s t) (hfg : W.frames f g)
    (hnew : ∀ fr, s.frames.frames[f]? = some fr → fr.binds name = false)
    (hv : Value.Alike W v w) :
    Store.Alike kept W (s.modifyFrames (·.bindAt f name v)) (t.modifyFrames (·.bindAt g name w)) :=
  { h with
    frames := h.frames.modify hfg fun x _ hx _ hxy => hxy.bind (hnew x hx) hv
    bare := h.bare_modify (h.inner hfg) _ }

theorem bindAt_left (h : Store.Alike kept W s t) (hfg : W.frames f g) (hname : ¬ kept name)
    (v : Value) : Store.Alike kept W (s.modifyFrames (·.bindAt f name v)) t :=
  { h with
    frames := h.frames.modify_left (fun _ _ hxy => hxy.bind_left hname v) f
    bare := h.bare_modify (h.inner hfg) _ }

theorem rebindAt (h : Store.Alike kept W s t) (hfg : W.frames f g) (hv : Value.Alike W v w) :
    Store.Alike kept W (s.modifyFrames (·.rebindAt f name v))
      (t.modifyFrames (·.rebindAt g name w)) :=
  { h with
    frames := h.frames.modify hfg fun _ _ _ _ hxy => hxy.rebind hv
    bare := h.bare_modify (h.inner hfg) _ }

/-- Changing the binding of a name that is not kept, wherever it is bound. -/
theorem rebindAt_left (h : Store.Alike kept W s t) (hname : ¬ kept name) (v : Value) (f : Nat) :
    Store.Alike kept W (s.modifyFrames (·.rebindAt f name v)) t :=
  { h with
    frames := h.frames.modify_left (fun _ _ hxy => hxy.rebind_left hname v) f
    bare := by
      show (s.frames.frames.modify f _)[Machine.globalFrame]? = _
      rw [Array.getElem?_modify, h.bare]
      split <;> rfl }

/-! ## Searching names -/

/-- Where the first side finds a kept name the second finds it in the paired frame, if it may search
at least as far. -/
theorem search (h : Store.Alike kept W s t) (hname : kept name) {reach reach' owner : Nat}
    (hreach : reach ≤ reach') (hfg : W.frames f g)
    (hfound : s.frames.search name reach f = .found owner) :
    ∃ owner', t.frames.search name reach' g = .found owner' ∧ W.frames owner owner' := by
  induction reach generalizing reach' f g with
  | zero => cases hfound
  | succ reach ih =>
    obtain ⟨reach', rfl⟩ : ∃ k, reach' = k + 1 := ⟨reach' - 1, by omega⟩
    obtain ⟨x, y, hx, hy, hxy⟩ := h.frames.related hfg
    unfold Frames.search at hfound ⊢
    simp only [hx, hy] at hfound ⊢
    rw [hxy.binds_eq hname] at hfound
    by_cases hb : y.binds name = true
    · rw [if_pos hb] at hfound ⊢
      cases hfound
      exact ⟨g, rfl, hfg⟩
    · rw [if_neg hb] at hfound ⊢
      cases hp : x.parent with
      | none =>
        rw [hp] at hfound
        cases hfound
      | some p =>
        rw [hp] at hfound
        rcases hxy.parent p hp with rfl | ⟨q, hq, hpq⟩
        · -- The outermost frame binds nothing, so nothing was found there.
          cases reach with
          | zero => cases hfound
          | succ reach =>
            simp [Frames.search, h.bare, Frame.binds] at hfound
        · rw [hq]
          exact ih (Nat.le_of_succ_le_succ hreach) hpq hfound

end Store.Alike

end Dee
