import Dee.Operator
import Dee.Store.Cells

/-!
# What there is room for

Memory runs out where something of `Memory.capacity` parts or more is put together: an array that is
written far behind its end, or two arrays or strings that are joined. The failure is then the
`Memory.shortage` of the size.

Main statements: `Cells.accepts_eq_error`, `Cells.concat_eq_error`, `Scalar.binary_eq_error`.
-/

namespace Dee

/-! ## Sizes -/

namespace Memory

variable {size : Nat} {f : Failure} {s t : String}

/-- The abort for want of room for something of a size. -/
def shortage (size : Nat) : Abort := if addressable ≤ size then .unaddressable else .outOfMemory

/-- A failure for want of room. -/
def IsShort (f : Failure) : Prop := f = .abort .unaddressable ∨ f = .abort .outOfMemory

theorem isShort_shortage (size : Nat) : IsShort (.abort (shortage size)) := by
  unfold shortage
  split
  · exact Or.inl rfl
  · exact Or.inr rfl

theorem capacity_le_addressable : capacity ≤ addressable := by decide

theorem room_eq_ok : room size = .ok () ↔ size < capacity := by
  unfold room
  split
  next h => simp [Nat.not_lt.mpr h]
  next h => simp [Nat.not_le.mp h]

theorem room_eq_error : room size = .error f ↔ capacity ≤ size ∧ f = .abort .outOfMemory := by
  unfold room
  split
  next h => simp [h, eq_comm]
  next h => simp [h]

theorem text_eq_ok : text s = .ok t ↔ s.length < capacity ∧ t = s := by
  have hle := capacity_le_addressable
  unfold text room
  by_cases hcapacity : capacity ≤ s.length
  · rw [if_pos hcapacity]
    refine iff_of_false ?_ (by omega)
    split <;> exact nofun
  · rw [if_neg (by omega), if_neg hcapacity]
    refine ⟨?_, ?_⟩
    · rintro ⟨⟩
      exact ⟨by omega, rfl⟩
    · rintro ⟨-, rfl⟩
      rfl

theorem text_eq_error :
    text s = .error f ↔ capacity ≤ s.length ∧ f = .abort (shortage s.length) := by
  have hle := capacity_le_addressable
  unfold text room shortage
  by_cases hfar : addressable ≤ s.length
  · rw [if_pos hfar, if_pos hfar, and_iff_right (by omega), Except.error.injEq, eq_comm]
  · rw [if_neg hfar, if_neg hfar]
    by_cases hcapacity : capacity ≤ s.length
    · rw [if_pos hcapacity, and_iff_right hcapacity]
      exact ⟨by rintro ⟨⟩; rfl, by rintro rfl; rfl⟩
    · rw [if_neg hcapacity]
      exact iff_of_false nofun fun h => hcapacity h.1

end Memory

/-! ## Arrays -/

namespace Cells

variable {c d e : Cells} {index : Int} {f : Failure}

/-- An index is refused if it does not count from one, or if it lies behind the end and no array
reaches so far. -/
theorem accepts_eq_error :
    c.accepts index = .error f ↔
      (index ≤ 0 ∧ f = .ofError (.arrayIndex index)) ∨
        (0 < c.growth index ∧ Memory.capacity ≤ index.toNat ∧
          f = .abort (Memory.shortage (c.growth index))) := by
  have hle := Memory.capacity_le_addressable
  unfold accepts
  by_cases hindex : index ≤ 0
  · have hgrowth : c.growth index = 0 := by
      unfold growth
      omega
    rw [if_pos hindex, hgrowth]
    simp [hindex, eq_comm]
  · rw [if_neg hindex]
    by_cases hgrowth : c.growth index = 0
    · rw [if_pos hgrowth, hgrowth]
      simp [hindex]
    · have hreach : c.growth index ≤ index.toNat := Nat.sub_le _ _
      rw [if_neg hgrowth, or_iff_right fun h => hindex h.1, and_iff_right (by omega)]
      unfold Memory.shortage
      by_cases hfar : Memory.addressable ≤ c.growth index
      · rw [if_pos hfar, if_pos hfar, and_iff_right (by omega), Except.error.injEq, eq_comm]
      · rw [if_neg hfar, if_neg hfar, Memory.room_eq_error]

/-- An index can be written if it counts from one and either lies within the array or an array can
reach so far. -/
theorem accepts_eq_ok :
    c.accepts index = .ok () ↔
      1 ≤ index ∧ (c.growth index = 0 ∨ index.toNat < Memory.capacity) := by
  cases h : c.accepts index with
  | ok u =>
    refine iff_of_true rfl ?_
    have hnot := fun f => mt (accepts_eq_error (f := f)).mpr (by rw [h]; exact nofun)
    have hindex := mt (Or.inl (b := _)) (hnot (.ofError (.arrayIndex index)))
    have hroom := mt (Or.inr (a := _)) (hnot (.abort (Memory.shortage (c.growth index))))
    simp only [and_true] at hindex hroom
    omega
  | error f =>
    refine iff_of_false nofun ?_
    rcases accepts_eq_error.mp h with ⟨hindex, -⟩ | ⟨hgrowth, hroom, -⟩ <;> omega

theorem concat_eq_ok :
    c.concat d = .ok e ↔ c.length + d.length < Memory.capacity ∧ e = ⟨c.items ++ d.items⟩ := by
  unfold concat
  cases h : Memory.room (c.length + d.length) with
  | ok u =>
    rw [and_iff_right (Memory.room_eq_ok.mp h)]
    exact ⟨by rintro ⟨⟩; rfl, by rintro rfl; rfl⟩
  | error f =>
    have hfull := (Memory.room_eq_error.mp h).1
    exact iff_of_false nofun (by omega)

theorem concat_eq_error :
    c.concat d = .error f ↔
      Memory.capacity ≤ c.length + d.length ∧ f = .abort .outOfMemory := by
  rw [← Memory.room_eq_error, concat]
  cases Memory.room (c.length + d.length) with
  | ok u => exact iff_of_false nofun nofun
  | error g => exact ⟨by rintro ⟨⟩; rfl, by rintro ⟨⟩; rfl⟩

end Cells

/-! ## Scalars -/

/-- Addition has one spelling. -/
theorem BinaryOp.ofText?_eq_add {text : String} :
    ofText? text = some (.arithmetic .add) ↔ text = "+" := by
  refine ⟨fun h => ?_, by rintro rfl; rfl⟩
  unfold ofText? at h
  split at h <;> cases h
  rfl

namespace Scalar

variable {text : String} {a b c : Scalar} {f : Failure}

/-- How many characters a scalar holds: those of a string. -/
def size : Scalar → Nat
  | .str s => s.length
  | _ => 0

theorem binary_eq_ok :
    binary text a b = .ok c ↔ combine text a b = .ok c ∧ c.size < Memory.capacity := by
  have hpos : 0 < Memory.capacity := by decide
  unfold binary
  cases h : combine text a b with
  | error e => exact iff_of_false nofun nofun
  | ok c' =>
    cases c' with
    | str s =>
      show (Memory.text s).map _ = _ ↔ _
      cases hs : Memory.text s with
      | ok t =>
        obtain ⟨hsize, rfl⟩ := Memory.text_eq_ok.mp hs
        constructor
        · rintro ⟨⟩
          exact ⟨rfl, hsize⟩
        · rintro ⟨⟨⟩, -⟩
          rfl
      | error f =>
        refine iff_of_false nofun ?_
        rintro ⟨⟨⟩, hsize⟩
        exact absurd hsize (Nat.not_lt.mpr (Memory.text_eq_error.mp hs).1)
    | _ =>
      constructor
      · rintro ⟨⟩
        exact ⟨rfl, hpos⟩
      · rintro ⟨⟨⟩, -⟩
        rfl

/-- A binary operator fails by an error of its own, or for want of room for the string it makes. -/
theorem binary_eq_error :
    binary text a b = .error f ↔
      (∃ e, combine text a b = .error e ∧ f = .ofError e) ∨
        ∃ s, combine text a b = .ok (.str s) ∧ Memory.capacity ≤ s.length ∧
          f = .abort (Memory.shortage s.length) := by
  unfold binary
  cases h : combine text a b with
  | error e => simp [eq_comm]
  | ok c =>
    cases c with
    | str s =>
      show (Memory.text s).map _ = _ ↔ _
      cases hs : Memory.text s with
      | ok t =>
        have hsize := (Memory.text_eq_ok.mp hs).1
        refine iff_of_false nofun ?_
        rintro (⟨e, ⟨⟩, -⟩ | ⟨_, ⟨⟩, hfull, -⟩)
        omega
      | error g =>
        obtain ⟨hfull, rfl⟩ := Memory.text_eq_error.mp hs
        constructor
        · rintro ⟨⟩
          exact Or.inr ⟨s, rfl, hfull, rfl⟩
        · rintro (⟨e, ⟨⟩, -⟩ | ⟨_, ⟨⟩, -, rfl⟩)
          rfl
    | _ => simp

/-- Only joining two strings makes a string. -/
theorem combine_eq_str {s : String} :
    combine text a b = .ok (.str s) ↔
      text = "+" ∧ ∃ t u, a = .str t ∧ b = .str u ∧ s = t ++ u := by
  refine ⟨fun h => ?_, by rintro ⟨rfl, t, u, rfl, rfl, rfl⟩; rfl⟩
  unfold combine at h
  split at h
  · cases h
  · -- Both operands are booleans, or one of them is refused.
    cases a <;> cases b <;> cases h
  · split at h <;> cases h
  · split at h <;> cases h
  next op hop =>
    split at h
    next x y _ _ =>
      cases hr : op.apply text x y with
      | error e =>
        rw [hr] at h
        cases h
      | ok n =>
        rw [hr] at h
        cases n <;> cases h
    next =>
      split at h
      next =>
        cases h
        exact ⟨BinaryOp.ofText?_eq_add.mp hop, _, _, rfl, rfl, rfl⟩
      next => cases h

end Scalar

end Dee
