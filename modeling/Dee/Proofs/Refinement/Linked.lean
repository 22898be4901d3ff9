/-!
# Linked heaps

Two heaps are arrays whose cells are known by their numbers. Some cells of the one are paired with
cells of the other, no cell with two of them, and paired cells hold related contents. Cells outside
the pairing are free, so either side may grow alone.
-/

namespace Dee

/-- Paired cells are one to one, and their contents are related. -/
structure Linked {α β : Type} (pairs : Nat → Nat → Prop) (rel : α → β → Prop)
    (xs : Array α) (ys : Array β) : Prop where
  unique : ∀ {i j i' j' : Nat}, pairs i j → pairs i' j' → (i = i' ↔ j = j')
  related : ∀ {i j : Nat}, pairs i j → ∃ x y, xs[i]? = some x ∧ ys[j]? = some y ∧ rel x y

/-- A pairing with one more pair. -/
def AddPair (pairs : Nat → Nat → Prop) (n k : Nat) (i j : Nat) : Prop :=
  pairs i j ∨ (i = n ∧ j = k)

namespace Linked

variable {α β : Type} {pairs : Nat → Nat → Prop} {rel rel' : α → β → Prop}
  {xs : Array α} {ys : Array β}

theorem lt_size (h : Linked pairs rel xs ys) {i j : Nat} (hp : pairs i j) :
    i < xs.size ∧ j < ys.size := by
  obtain ⟨x, y, hx, hy, -⟩ := h.related hp
  exact ⟨(Array.getElem?_eq_some_iff.mp hx).1, (Array.getElem?_eq_some_iff.mp hy).1⟩

theorem mono (h : Linked pairs rel xs ys) (hrel : ∀ x y, rel x y → rel' x y) :
    Linked pairs rel' xs ys where
  unique := h.unique
  related := by
    intro i j hp
    obtain ⟨x, y, hx, hy, hxy⟩ := h.related hp
    exact ⟨x, y, hx, hy, hrel x y hxy⟩

/-- Whatever stands behind the paired cells of one side does not matter. -/
theorem push_left (h : Linked pairs rel xs ys) (x : α) : Linked pairs rel (xs.push x) ys where
  unique := h.unique
  related := by
    intro i j hp
    obtain ⟨x', y, hx, hy, hxy⟩ := h.related hp
    refine ⟨x', y, ?_, hy, hxy⟩
    rw [Array.getElem?_push, if_neg (Nat.ne_of_lt (h.lt_size hp).1), hx]

theorem push_right (h : Linked pairs rel xs ys) (y : β) : Linked pairs rel xs (ys.push y) where
  unique := h.unique
  related := by
    intro i j hp
    obtain ⟨x, y', hx, hy, hxy⟩ := h.related hp
    refine ⟨x, y', hx, ?_, hxy⟩
    rw [Array.getElem?_push, if_neg (Nat.ne_of_lt (h.lt_size hp).2), hy]

/-- Two new cells become a pair. -/
theorem push (h : Linked pairs rel xs ys) {x : α} {y : β} (hxy : rel x y) :
    Linked (AddPair pairs xs.size ys.size) rel (xs.push x) (ys.push y) where
  unique := by
    rintro i j i' j' (hp | ⟨rfl, rfl⟩) (hp' | ⟨rfl, rfl⟩)
    · exact h.unique hp hp'
    · have hlt := h.lt_size hp
      omega
    · have hlt := h.lt_size hp'
      omega
    · exact ⟨fun _ => rfl, fun _ => rfl⟩
  related := by
    rintro i j (hp | ⟨rfl, rfl⟩)
    · exact ((h.push_left x).push_right y).related hp
    · exact ⟨x, y, by simp, by simp, hxy⟩

/-- Changing the two cells of a pair in related ways. -/
theorem modify (h : Linked pairs rel xs ys) {i j : Nat} (hp : pairs i j) {f : α → α} {g : β → β}
    (hfg : ∀ x y, xs[i]? = some x → ys[j]? = some y → rel x y → rel (f x) (g y)) :
    Linked pairs rel (xs.modify i f) (ys.modify j g) where
  unique := h.unique
  related := by
    intro i' j' hp'
    obtain ⟨x, y, hx, hy, hxy⟩ := h.related hp'
    have hsame := h.unique hp hp'
    by_cases hi : i = i'
    · have hj := hsame.mp hi
      subst hi hj
      refine ⟨f x, g y, ?_, ?_, hfg x y hx hy hxy⟩
      · rw [Array.getElem?_modify, if_pos rfl, hx, Option.map_some]
      · rw [Array.getElem?_modify, if_pos rfl, hy, Option.map_some]
    · have hj : j ≠ j' := fun hj => hi (hsame.mpr hj)
      refine ⟨x, y, ?_, ?_, hxy⟩
      · rw [Array.getElem?_modify, if_neg hi, hx]
      · rw [Array.getElem?_modify, if_neg hj, hy]

/-- Changing a cell of one side in a way that its partner cannot tell. -/
theorem modify_left (h : Linked pairs rel xs ys) {f : α → α}
    (hf : ∀ x y, rel x y → rel (f x) y) (i : Nat) : Linked pairs rel (xs.modify i f) ys where
  unique := h.unique
  related := by
    intro i' j' hp'
    obtain ⟨x, y, hx, hy, hxy⟩ := h.related hp'
    rw [Array.getElem?_modify, hx]
    by_cases hi : i = i'
    · exact ⟨f x, y, by rw [if_pos hi, Option.map_some], hy, hf x y hxy⟩
    · exact ⟨x, y, by rw [if_neg hi], hy, hxy⟩

end Linked

end Dee
