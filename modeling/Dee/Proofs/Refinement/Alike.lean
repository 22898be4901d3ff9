import Dee.Eval.Basic
import Dee.Proofs.Refinement.Code
import Dee.Proofs.Refinement.Linked
import Dee.Proofs.Store.Frames

/-!
# Machines that look alike

Two runs number what they make differently, since one of them may make more. A `World` pairs the
arrays, tuples, functions and frames of the one with those of the other. In a world values, frames,
stores and machines look alike: scalars are the same, references are paired, and paired parts of the
store look alike in turn. Frames need only agree on the names that are kept.

The outermost frame of the first machine binds nothing and is never paired. So no name that the
first machine finds can depend on what the host put into the second one. The second machine may also
have printed something before the first one started.
-/

namespace Dee

/-! ## Worlds -/

/-- Which arrays, tuples, functions and frames of two stores belong together, and what the second
machine alone has printed. -/
structure World where
  arrays : Nat → Nat → Prop
  tuples : Nat → Nat → Prop
  closures : Nat → Nat → Prop
  frames : Nat → Nat → Prop
  printed : String

/-- A later world keeps all pairs. -/
structure World.Le (W W' : World) : Prop where
  arrays : ∀ {i j}, W.arrays i j → W'.arrays i j
  tuples : ∀ {i j}, W.tuples i j → W'.tuples i j
  closures : ∀ {i j}, W.closures i j → W'.closures i j
  frames : ∀ {i j}, W.frames i j → W'.frames i j
  printed : W'.printed = W.printed

namespace World

instance : LE World := ⟨World.Le⟩

theorem le_refl (W : World) : W ≤ W := ⟨id, id, id, id, rfl⟩

theorem le_trans {W₁ W₂ W₃ : World} (h : W₁ ≤ W₂) (h' : W₂ ≤ W₃) : W₁ ≤ W₃ :=
  ⟨h'.arrays ∘ h.arrays, h'.tuples ∘ h.tuples, h'.closures ∘ h.closures, h'.frames ∘ h.frames,
    h'.printed.trans h.printed⟩

/-- The world with one more pair of arrays. -/
def addArray (W : World) (i j : Nat) : World := { W with arrays := AddPair W.arrays i j }

/-- The world with one more pair of tuples. -/
def addTuple (W : World) (i j : Nat) : World := { W with tuples := AddPair W.tuples i j }

/-- The world with one more pair of functions. -/
def addClosure (W : World) (i j : Nat) : World := { W with closures := AddPair W.closures i j }

/-- The world with one more pair of frames. -/
def addFrame (W : World) (i j : Nat) : World := { W with frames := AddPair W.frames i j }

variable (W : World) (i j : Nat)

theorem le_addArray : W ≤ W.addArray i j := ⟨Or.inl, id, id, id, rfl⟩

theorem le_addTuple : W ≤ W.addTuple i j := ⟨id, Or.inl, id, id, rfl⟩

theorem le_addClosure : W ≤ W.addClosure i j := ⟨id, id, Or.inl, id, rfl⟩

theorem le_addFrame : W ≤ W.addFrame i j := ⟨id, id, id, Or.inl, rfl⟩

end World

/-! ## Values -/

/-- Values that look alike in a world. -/
inductive Value.Alike (W : World) : Value → Value → Prop
  | scalar (s : Scalar) : Value.Alike W (.scalar s) (.scalar s)
  | array {i j : Nat} (h : W.arrays i j) : Value.Alike W (.array i) (.array j)
  | tuple {i j : Nat} (h : W.tuples i j) : Value.Alike W (.tuple i) (.tuple j)
  | func {i j : Nat} (h : W.closures i j) : Value.Alike W (.func i) (.func j)

/-- Lists of values that look alike. -/
abbrev Value.AllAlike (W : World) : List Value → List Value → Prop :=
  List.Forall₂ (Value.Alike W)

variable {W W' : World} {v w : Value}

theorem Value.Alike.mono (h : Value.Alike W v w) (hW : W ≤ W') : Value.Alike W' v w := by
  cases h with
  | scalar s => exact .scalar s
  | array h => exact .array (hW.arrays h)
  | tuple h => exact .tuple (hW.tuples h)
  | func h => exact .func (hW.closures h)

theorem Value.AllAlike.mono {vs ws : List Value} (h : Value.AllAlike W vs ws) (hW : W ≤ W') :
    Value.AllAlike W' vs ws :=
  List.Forall₂.imp (fun _ _ hv => hv.mono hW) h

theorem Value.Alike.kind_eq (h : Value.Alike W v w) : v.kind = w.kind := by
  cases h <;> rfl

/-- Signals that look alike. -/
inductive Signal.Alike (W : World) : Signal → Signal → Prop
  | exitLoop : Signal.Alike W .exitLoop .exitLoop
  | nextTurn : Signal.Alike W .nextTurn .nextTurn
  | leave {v w : Value} (h : Value.Alike W v w) : Signal.Alike W (.leave v) (.leave w)

/-! ## Parts of a store -/

/-- Arrays whose elements look alike. -/
def Cells.Alike (W : World) (c d : Cells) : Prop :=
  Value.AllAlike W c.items.toList d.items.toList

/-- Entries of the same name whose values look alike. -/
structure Slot.Alike (W : World) (x y : Slot) : Prop where
  name : x.name = y.name
  value : Value.Alike W x.value y.value

/-- Tuples with the same views of entries that look alike. -/
structure Slots.Alike (W : World) (s t : Slots) : Prop where
  objects : List.Forall₂ (Slot.Alike W) s.objects.toList t.objects.toList
  order : s.order = t.order
  index : s.index = t.index

section Kept

variable (kept : String → Prop)

/-- Functions of paired frames, the second of which may stand in the place of the first. -/
structure Closure.Alike (W : World) (c d : Closure) : Prop where
  code : ∃ pos, Expr.Refines kept (.function pos c.params c.statements c.expression)
    (.function pos d.params d.statements d.expression)
  frame : W.frames c.frame d.frame

/-- Frames that agree on the kept names. Of the other names the first binds at least as many. -/
structure Frame.Alike (W : World) (f g : Frame Value) : Prop where
  names : ∀ name, g.binds name = true → f.binds name = true
  values : ∀ name, kept name → Option.Rel (Value.Alike W) (f.value? name) (g.value? name)
  parent : ∀ p, f.parent = some p → p = Machine.globalFrame ∨ ∃ q, g.parent = some q ∧ W.frames p q

/-- Stores that look alike in a world. -/
structure Store.Alike (W : World) (s t : Store) : Prop where
  arrays : Linked W.arrays (Cells.Alike W) s.arrays t.arrays
  tuples : Linked W.tuples (Slots.Alike W) s.tuples t.tuples
  closures : Linked W.closures (Closure.Alike kept W) s.closures t.closures
  frames : Linked W.frames (Frame.Alike kept W) s.frames.frames t.frames.frames
  bare : s.frames.frames[Machine.globalFrame]? = some ⟨none, []⟩
  inner : ∀ {i j}, W.frames i j → i ≠ Machine.globalFrame

/-- Machines that look alike in a world and have printed the same since the first one started. -/
structure Machine.Alike (W : World) (m n : Machine) : Prop where
  store : Store.Alike kept W m.store n.store
  output : n.output = W.printed ++ m.output

end Kept

/-! ## Later worlds -/

theorem Cells.Alike.mono {c d : Cells} (h : Cells.Alike W c d) (hW : W ≤ W') :
    Cells.Alike W' c d :=
  Value.AllAlike.mono h hW

theorem Slot.Alike.mono {x y : Slot} (h : Slot.Alike W x y) (hW : W ≤ W') : Slot.Alike W' x y :=
  ⟨h.name, h.value.mono hW⟩

theorem Slots.Alike.mono {s t : Slots} (h : Slots.Alike W s t) (hW : W ≤ W') :
    Slots.Alike W' s t where
  objects := h.objects.imp fun _ _ hx => hx.mono hW
  order := h.order
  index := h.index

variable {kept : String → Prop}

theorem Closure.Alike.mono {c d : Closure} (h : Closure.Alike kept W c d) (hW : W ≤ W') :
    Closure.Alike kept W' c d :=
  ⟨h.code, hW.frames h.frame⟩

theorem Option.Rel.imp {α β : Type} {r r' : α → β → Prop} {x : Option α} {y : Option β}
    (h : Option.Rel r x y) (hr : ∀ a b, r a b → r' a b) : Option.Rel r' x y := by
  cases h with
  | none => exact .none
  | some hab => exact .some (hr _ _ hab)

theorem Frame.Alike.mono {f g : Frame Value} (h : Frame.Alike kept W f g) (hW : W ≤ W') :
    Frame.Alike kept W' f g where
  names := h.names
  values := fun name hname => Option.Rel.imp (h.values name hname) fun _ _ hv => hv.mono hW
  parent := by
    intro p hp
    rcases h.parent p hp with hroot | ⟨q, hq, hpq⟩
    · exact Or.inl hroot
    · exact Or.inr ⟨q, hq, hW.frames hpq⟩

/-! ## Reading a store -/

namespace Store.Alike

variable {s t : Store} {i j : Nat}

theorem cells (h : Store.Alike kept W s t) (hij : W.arrays i j) :
    Cells.Alike W (s.cells i) (t.cells j) := by
  obtain ⟨c, d, hc, hd, hcd⟩ := h.arrays.related hij
  simp only [Store.cells, Array.getD_eq_getD_getElem?, hc, hd, Option.getD_some]
  exact hcd

theorem slots (h : Store.Alike kept W s t) (hij : W.tuples i j) :
    Slots.Alike W (s.slots i) (t.slots j) := by
  obtain ⟨c, d, hc, hd, hcd⟩ := h.tuples.related hij
  simp only [Store.slots, Array.getD_eq_getD_getElem?, hc, hd, Option.getD_some]
  exact hcd

theorem closure (h : Store.Alike kept W s t) (hij : W.closures i j) :
    Closure.Alike kept W (s.closure i) (t.closure j) := by
  obtain ⟨c, d, hc, hd, hcd⟩ := h.closures.related hij
  simp only [Store.closure, Array.getD_eq_getD_getElem?, hc, hd, Option.getD_some]
  exact hcd

end Store.Alike

end Dee
