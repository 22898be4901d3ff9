import Dee.Failure
import Dee.Value

/-!
# The entries of a tuple

Entries stand in order, and some have names, which are distinct. A tuple is kept in two views, a
list of its entries by position and an index of them by name. Both refer to the same entries, so
what is written through one is seen through the other. A member is found by its name, or by its
position, counted from one.
-/

namespace Dee

structure Slot where
  name : Option String
  value : Value
deriving Repr, DecidableEq

/-- Entries in two views. -/
structure SlotTable where
  /-- The entries, in the order in which they were made; the views refer to them by number. -/
  objects : Array Slot
  /-- The entry at each position. -/
  order : List Nat
  /-- The entry with each name. -/
  index : List (String × Nat)
deriving Repr, DecidableEq

namespace SlotTable

def empty : SlotTable := ⟨#[], [], []⟩

def slot (t : SlotTable) (ref : Nat) : Slot := t.objects.getD ref ⟨none, .none⟩

/-- The name of a new entry, if an entry has it already. -/
def taken? (t : SlotTable) (name : Option String) : Option String :=
  name.filter fun n => (t.index.lookup n).isSome

/-- Puts a new entry behind the others, and its name, if it has one, into the index. -/
def push (t : SlotTable) (e : Slot) : SlotTable where
  objects := t.objects.push e
  order := t.order ++ [t.objects.size]
  index :=
    match e.name with
    | some n => (n, t.objects.size) :: t.index
    | none => t.index

/-- The entry of a member. -/
def locate (t : SlotTable) : Member → Except EvalError Nat
  | .named name =>
    match t.index.lookup name with
    | some ref => .ok ref
    | none => .error (.noMember name)
  | .position index =>
    if index ≤ 0 ∨ (t.order.length : Int) < index then .error (.tupleIndex index)
    else .ok (t.order.getD (index.toNat - 1) 0)

/-- Writes the value of an entry; its name stays. -/
def write (t : SlotTable) (ref : Nat) (v : Value) : SlotTable :=
  { t with objects := t.objects.modify ref fun e => { e with value := v } }

/-! ## Views in step -/

/-- The two views are in step. -/
structure Consistent (t : SlotTable) : Prop where
  made : ∀ ref ∈ t.order, ref < t.objects.size
  /-- No entry stands at two positions. -/
  apart : t.order.Nodup
  /-- A name leads to an entry exactly if this stands at some position and has the name. -/
  index : ∀ name ref, t.index.lookup name = some ref ↔ ref ∈ t.order ∧ (t.slot ref).name = some name

variable {t : SlotTable} {ref : Nat}

theorem slot_push_of_lt (h : ref < t.objects.size) (e : Slot) :
    (t.push e).slot ref = t.slot ref := by
  simp [slot, push, Array.getD_eq_getD_getElem?, Array.getElem?_push_lt h, h]

theorem slot_push_size (t : SlotTable) (e : Slot) : (t.push e).slot t.objects.size = e := by
  simp [slot, push]

theorem name_slot_write (t : SlotTable) (ref : Nat) (v : Value) (other : Nat) :
    ((t.write ref v).slot other).name = (t.slot other).name := by
  simp only [slot, write, Array.getD_eq_getD_getElem?, Array.getElem?_modify]
  split <;> cases t.objects[other]? <;> rfl

/-- A new name leads to the new entry, every other one to where it led. -/
theorem lookup_index_push {e : Slot} (h : t.taken? e.name = none) (name : String) :
    (t.push e).index.lookup name = some ref ↔
      t.index.lookup name = some ref ∨ e.name = some name ∧ ref = t.objects.size := by
  unfold push taken? at *
  cases hn : e.name with
  | none => simp
  | some n =>
    rw [hn] at h
    rw [List.lookup_cons]
    by_cases heq : name = n
    · subst heq
      have hnone : t.index.lookup name = none := by
        rw [Option.filter_some, ite_eq_right_iff] at h
        exact Option.not_isSome_iff_eq_none.mp fun hsome => by cases h hsome
      simp [hnone, eq_comm]
    · rw [beq_false_of_ne heq]
      simp [Ne.symm heq]

theorem consistent_empty : empty.Consistent where
  made _ h := by cases h
  apart := List.nodup_nil
  index _ _ := by simp [empty]

theorem Consistent.push (h : t.Consistent) {e : Slot} (hfree : t.taken? e.name = none) :
    (t.push e).Consistent where
  made ref href := by
    rcases List.mem_append.mp href with hold | hnew
    · exact Nat.lt_of_lt_of_le (h.made ref hold) (by simp [SlotTable.push])
    · simp [SlotTable.push, List.mem_singleton.mp hnew]
  apart := by
    refine List.nodup_append.mpr ⟨h.apart, by simp, ?_⟩
    rintro a ha b hb rfl
    rw [List.mem_singleton] at hb
    exact absurd (h.made a ha) (by omega)
  index name ref := by
    have hnot : t.objects.size ∉ t.order := fun hin => Nat.lt_irrefl _ (h.made _ hin)
    rw [lookup_index_push hfree, h.index]
    show _ ↔ ref ∈ t.order ++ [t.objects.size] ∧ _
    rw [List.mem_append, List.mem_singleton]
    by_cases hnew : ref = t.objects.size
    · subst hnew
      rw [slot_push_size]
      simp [hnot]
    · simp only [hnew, and_false, or_false]
      exact and_congr_right fun hin => by rw [slot_push_of_lt (h.made ref hin)]

theorem Consistent.write (h : t.Consistent) (ref : Nat) (v : Value) :
    (t.write ref v).Consistent where
  made other hother := by simpa [SlotTable.write] using h.made other hother
  apart := h.apart
  index name other := by
    rw [name_slot_write]
    exact h.index name other

end SlotTable

/-! ## Tuples -/

/-- The entries of a tuple, in two views that are in step. -/
structure Slots extends SlotTable where
  consistent : toSlotTable.Consistent

namespace Slots

def empty : Slots := ⟨.empty, SlotTable.consistent_empty⟩

/-- The entries, by position. -/
def entries (s : Slots) : List Slot := s.order.map s.slot

/-- The values of the entries, by position. -/
def values (s : Slots) : List Value := s.entries.map Slot.value

def length (s : Slots) : Nat := s.order.length

/-- Puts an entry behind the others. -/
def push (s : Slots) (e : Slot) (h : s.taken? e.name = none) : Slots :=
  ⟨s.toSlotTable.push e, s.consistent.push h⟩

/-- Adds an entry at the end; its name, if it has one, must be new. -/
def append (s : Slots) (name : Option String) (v : Value) : Except EvalError Slots :=
  match h : s.taken? name with
  | some n => .error (.duplicateMember n)
  | none => .ok (s.push ⟨name, v⟩ h)

/-- Adds entries at the end, one after the other. -/
def appendAll (s : Slots) (entries : List Slot) : Except EvalError Slots :=
  entries.foldlM (fun s e => s.append e.name e.value) s

/-- The tuple of some entries. -/
def of (entries : List Slot) : Except EvalError Slots := empty.appendAll entries

/-- A new tuple of the entries of one tuple followed by those of another. -/
def concat (s t : Slots) : Except EvalError Slots := of (s.entries ++ t.entries)

def get (s : Slots) (m : Member) : Except EvalError Value :=
  (s.locate m).map fun ref => (s.slot ref).value

def write (s : Slots) (ref : Nat) (v : Value) : Slots :=
  ⟨s.toSlotTable.write ref v, s.consistent.write ref v⟩

end Slots

end Dee
