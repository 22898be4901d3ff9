import Dee.Store.Slots
import Mathlib.Data.List.Nodup

/-!
# A tuple as the list of its entries

The two views of a tuple stand for one list of entries, whose names are distinct. Every operation
on the views does to this list what its name says: an entry is added at the end, a value is written
at one place, and a member is found at the place that has its name or its position.

Main statements: `Slots.nodup_names`, `Slots.lookup_index_iff`, `Slots.append_eq`,
`Slots.concat_eq`, `Slots.entries_write`.
-/

namespace Dee

namespace Slots

variable {s t u : Slots} {name : String} {n : Option String} {place ref : Nat} {v : Value}
  {e : EvalError}

/-! ## Places -/

@[simp]
theorem length_entries (s : Slots) : s.entries.length = s.length := by
  simp [entries, length]

theorem getElem?_entries (s : Slots) (place : Nat) :
    s.entries[place]? = (s.order[place]?).map s.slot := by
  simp [entries]

theorem getElem?_entries_eq_some {e : Slot} :
    s.entries[place]? = some e ↔ ∃ ref, s.order[place]? = some ref ∧ s.slot ref = e := by
  rw [getElem?_entries, Option.map_eq_some_iff]

@[simp]
theorem entries_empty : empty.entries = [] := rfl

/-- An entry stands at no more than one place. -/
theorem place_unique {place' : Nat} (h : s.order[place]? = some ref)
    (h' : s.order[place']? = some ref) : place' = place := by
  obtain ⟨hlt, hp⟩ := List.getElem?_eq_some_iff.mp h
  obtain ⟨hlt', hp'⟩ := List.getElem?_eq_some_iff.mp h'
  exact (List.Nodup.getElem_inj_iff s.consistent.apart).mp (hp'.trans hp.symm)

/-! ## Names -/

/-- The names of the entries that have one, in order. -/
def names (s : Slots) : List String := s.entries.filterMap Slot.name

/-- The entry at a place, counted from zero, has the name. -/
def Carries (s : Slots) (place : Nat) (name : String) : Prop :=
  ∃ v, s.entries[place]? = some ⟨some name, v⟩

theorem mem_names_iff : name ∈ s.names ↔ ∃ place, s.Carries place name := by
  rw [names, List.mem_filterMap]
  constructor
  · rintro ⟨⟨n, v⟩, he, rfl⟩
    obtain ⟨place, hplace⟩ := List.mem_iff_getElem?.mp he
    exact ⟨place, v, hplace⟩
  · rintro ⟨place, v, he⟩
    exact ⟨_, List.mem_of_getElem? he, rfl⟩

theorem carries_iff :
    s.Carries place name ↔ ∃ ref, s.order[place]? = some ref ∧ (s.slot ref).name = some name := by
  simp only [Carries, getElem?_entries_eq_some]
  constructor
  · rintro ⟨v, ref, hplace, href⟩
    exact ⟨ref, hplace, by rw [href]⟩
  · rintro ⟨ref, hplace, hname⟩
    exact ⟨(s.slot ref).value, ref, hplace, by rw [← hname]⟩

/-- The index leads from a name to the entry at the place that has the name. -/
theorem lookup_index_iff :
    s.index.lookup name = some ref ↔ ∃ place, s.Carries place name ∧
      s.order[place]? = some ref := by
  rw [s.consistent.index]
  simp only [carries_iff]
  constructor
  · rintro ⟨hin, hname⟩
    obtain ⟨place, hplace⟩ := List.mem_iff_getElem?.mp hin
    exact ⟨place, ⟨ref, hplace, hname⟩, hplace⟩
  · rintro ⟨place, ⟨ref', hplace', hname⟩, hplace⟩
    cases hplace'.symm.trans hplace
    exact ⟨List.mem_of_getElem? hplace, hname⟩

/-- No two places have the same name. -/
theorem Carries.unique {place' : Nat} (h : s.Carries place name) (h' : s.Carries place' name) :
    place' = place := by
  obtain ⟨ref, hplace, hname⟩ := carries_iff.mp h
  obtain ⟨ref', hplace', hname'⟩ := carries_iff.mp h'
  have hlookup := lookup_index_iff.mpr ⟨place, h, hplace⟩
  have hlookup' := lookup_index_iff.mpr ⟨place', h', hplace'⟩
  cases hlookup.symm.trans hlookup'
  exact place_unique hplace hplace'

theorem nodup_names (s : Slots) : s.names.Nodup := by
  rw [names, List.Nodup, List.pairwise_filterMap, List.pairwise_iff_getElem]
  rintro i j hi hj hlt name hname _ hname' rfl
  have hat : ∀ {k : Nat} (hk : k < s.entries.length), s.entries[k].name = some name →
      s.Carries k name := fun {k} hk h => ⟨s.entries[k].value, by
    rw [List.getElem?_eq_getElem hk, ← h]⟩
  exact absurd ((hat hi hname).unique (hat hj hname')) (by omega)

theorem lookup_index_none : s.index.lookup name = none ↔ name ∉ s.names := by
  rw [mem_names_iff]
  constructor
  · rintro h ⟨place, hcarries⟩
    obtain ⟨ref, hplace, -⟩ := carries_iff.mp hcarries
    rw [lookup_index_iff.mpr ⟨place, hcarries, hplace⟩] at h
    cases h
  · intro h
    rw [Option.eq_none_iff_forall_ne_some]
    intro ref href
    obtain ⟨place, hcarries, -⟩ := lookup_index_iff.mp href
    exact h ⟨place, hcarries⟩

/-! ## Finding members -/

theorem locate_named_iff :
    s.locate (.named name) = .ok ref ↔ ∃ place, s.Carries place name ∧
      s.order[place]? = some ref := by
  rw [← lookup_index_iff, SlotTable.locate]
  cases s.index.lookup name <;> simp

theorem locate_named_none (h : name ∉ s.names) :
    s.locate (.named name) = .error (.noMember name) := by
  rw [SlotTable.locate, lookup_index_none.mpr h]

theorem locate_position_of_order (h : s.order[place]? = some ref) :
    s.locate (.position (place + 1)) = .ok ref := by
  obtain ⟨hlt, href⟩ := List.getElem?_eq_some_iff.mp h
  rw [SlotTable.locate, if_neg (by omega)]
  simp [h]

theorem locate_position_none {index : Int} (h : index ≤ 0 ∨ s.length < index) :
    s.locate (.position index) = .error (.tupleIndex index) := by
  unfold length at h
  rw [SlotTable.locate, if_pos h]

/-- A member is found at a place that there is. -/
theorem exists_place_of_locate {member : Member} (h : s.locate member = .ok ref) :
    ∃ place : Nat, s.order[place]? = some ref := by
  cases member with
  | named name =>
    obtain ⟨place, -, hplace⟩ := locate_named_iff.mp h
    exact ⟨place, hplace⟩
  | position index =>
    rw [SlotTable.locate] at h
    split at h
    · cases h
    next hin =>
      cases h
      have hlt : index.toNat - 1 < s.order.length := by omega
      exact ⟨index.toNat - 1, by simp [hlt]⟩

/-- A member that is not there fails by its name or by its position. -/
theorem eq_of_locate_error {member : Member} (h : s.locate member = .error e) :
    e = match member with
      | .named name => .noMember name
      | .position index => .tupleIndex index := by
  cases member with
  | named name =>
    rw [SlotTable.locate] at h
    split at h <;> cases h
    rfl
  | position index =>
    rw [SlotTable.locate] at h
    split at h <;> cases h
    rfl

theorem get_of_locate {member : Member} (h : s.locate member = .ok ref) :
    s.get member = .ok (s.slot ref).value := by
  rw [get, h]
  rfl

/-! ## Writing -/

theorem slot_write (s : Slots) (ref : Nat) (v : Value) {other : Nat} (h : other ∈ s.order) :
    (s.write ref v).slot other =
      if other = ref then ⟨(s.slot ref).name, v⟩ else s.slot other := by
  have hlt := s.consistent.made other h
  by_cases heq : other = ref
  · subst heq
    simp [SlotTable.slot, write, SlotTable.write, hlt, Array.getElem_modify]
  · simp [SlotTable.slot, write, SlotTable.write, Array.getElem?_modify, heq, Ne.symm heq]

/-- Writing the entry at a place puts a new value there, and changes nothing else of the list. -/
theorem entries_write (h : s.order[place]? = some ref) :
    (s.write ref v).entries = s.entries.set place ⟨(s.slot ref).name, v⟩ := by
  refine List.ext_getElem? fun i => ?_
  rw [getElem?_entries, List.getElem?_set, show (s.write ref v).order = s.order from rfl]
  by_cases hi : place = i
  · subst hi
    have hlt : place < s.entries.length := by
      rw [length_entries]
      exact (List.getElem?_eq_some_iff.mp h).1
    rw [if_pos rfl, if_pos hlt, h, Option.map_some, slot_write s ref v (List.mem_of_getElem? h),
      if_pos rfl]
  · rw [if_neg hi, getElem?_entries]
    cases hother : s.order[i]? with
    | none => rfl
    | some other =>
      have hne : other ≠ ref := by
        rintro rfl
        exact hi (place_unique hother h)
      rw [Option.map_some, Option.map_some, slot_write s ref v (List.mem_of_getElem? hother),
        if_neg hne]

/-! ## Adding entries -/

theorem taken?_eq_some : s.taken? n = some name ↔ n = some name ∧ name ∈ s.names := by
  have hlookup : (s.index.lookup name).isSome = true ↔ name ∈ s.names := by
    rw [← not_iff_not, ← lookup_index_none, Option.not_isSome_iff_eq_none]
  rw [SlotTable.taken?, Option.filter_eq_some_iff, hlookup]

theorem append_taken (h : s.taken? n = some name) :
    s.append n v = .error (.duplicateMember name) := by
  unfold append
  split
  next name' h' =>
    cases h'.symm.trans h
    rfl
  next h' => cases h'.symm.trans h

theorem append_free (h : s.taken? n = none) : s.append n v = .ok (s.push ⟨n, v⟩ h) := by
  unfold append
  split
  next name' h' => cases h'.symm.trans h
  next h' => rfl

/-- An entry that is put behind the others stands at the end of the list. -/
theorem entries_push (s : Slots) (e : Slot) (h : s.taken? e.name = none) :
    (s.push e h).entries = s.entries ++ [e] := by
  show (s.order ++ [s.objects.size]).map (s.toSlotTable.push e).slot = _
  rw [List.map_append, List.map_singleton, SlotTable.slot_push_size]
  congr 1
  exact List.map_congr_left fun ref href => SlotTable.slot_push_of_lt (s.consistent.made ref href) e

/-- Adding an entry fails if its name is taken, and else puts it at the end. -/
theorem append_eq (s : Slots) (n : Option String) (v : Value) :
    (∃ name, n = some name ∧ name ∈ s.names ∧ s.append n v = .error (.duplicateMember name)) ∨
    ((∀ name, n = some name → name ∉ s.names) ∧
      ∃ t, s.append n v = .ok t ∧ t.entries = s.entries ++ [⟨n, v⟩]) := by
  cases h : s.taken? n with
  | some name =>
    obtain ⟨hname, hin⟩ := taken?_eq_some.mp h
    exact Or.inl ⟨name, hname, hin, append_taken h⟩
  | none =>
    refine Or.inr ⟨fun name hname hin => ?_, _, append_free h, entries_push s _ h⟩
    cases h.symm.trans (taken?_eq_some.mpr ⟨hname, hin⟩)

/-- Adding an entry fails by the name that is taken. -/
theorem duplicate_of_append (h : s.append n v = .error e) : ∃ name, e = .duplicateMember name := by
  rcases s.append_eq n v with ⟨name, -, -, herror⟩ | ⟨-, t, hok, -⟩
  · cases herror.symm.trans h
    exact ⟨name, rfl⟩
  · cases hok.symm.trans h

theorem entries_append (h : s.append n v = .ok t) :
    t.entries = s.entries ++ [⟨n, v⟩] := by
  rcases s.append_eq n v with ⟨_, -, -, herror⟩ | ⟨-, t', hok, hentries⟩
  · cases herror.symm.trans h
  · cases hok.symm.trans h
    exact hentries

/-! ## Joining -/

theorem appendAll_cons (s : Slots) (e : Slot) (rest : List Slot) :
    s.appendAll (e :: rest) = s.append e.name e.value >>= fun s' => s'.appendAll rest := by
  rw [appendAll, List.foldlM_cons]
  rfl

/-- Entries are added one after the other as long as no name is taken: all of them, if all names
together are distinct, and else not all. -/
theorem appendAll_eq (s : Slots) (es : List Slot) :
    ((s.names ++ es.filterMap Slot.name).Nodup ∧
      ∃ t, s.appendAll es = .ok t ∧ t.entries = s.entries ++ es) ∨
    (¬ (s.names ++ es.filterMap Slot.name).Nodup ∧
      ∃ name, s.appendAll es = .error (.duplicateMember name)) := by
  induction es generalizing s with
  | nil => exact Or.inl ⟨by simpa using s.nodup_names, s, rfl, by simp⟩
  | cons e rest ih =>
    rw [appendAll_cons]
    rcases s.append_eq e.name e.value with ⟨name, hname, htaken, herror⟩ | ⟨-, t, hok, hentries⟩
    · -- The first name that is taken stops the walk, and stands twice among all names.
      refine Or.inr ⟨fun hnodup => ?_, name, by rw [herror]; rfl⟩
      rw [List.filterMap_cons_some hname] at hnodup
      exact (List.nodup_append.mp hnodup).2.2 name htaken name (by simp) rfl
    · have hnames : s.names ++ (e :: rest).filterMap Slot.name =
          t.names ++ rest.filterMap Slot.name := by
        simp [names, hentries, ← List.filterMap_append]
      rw [hok, hnames]
      have hstep := ih t
      rwa [hentries, List.append_assoc] at hstep

/-- Two tuples are joined to one with the entries of both, if all their names together are
distinct, and else not at all. -/
theorem concat_eq (s t : Slots) :
    ((s.names ++ t.names).Nodup ∧ ∃ u, s.concat t = .ok u ∧ u.entries = s.entries ++ t.entries) ∨
    (¬ (s.names ++ t.names).Nodup ∧ ∃ name, s.concat t = .error (.duplicateMember name)) := by
  have h := empty.appendAll_eq (s.entries ++ t.entries)
  rwa [List.filterMap_append, show empty.names = [] from rfl, List.nil_append, entries_empty,
    List.nil_append] at h

theorem duplicate_of_concat (h : s.concat t = .error e) : ∃ name, e = .duplicateMember name := by
  rcases s.concat_eq t with ⟨-, u, hok, -⟩ | ⟨-, name, herror⟩
  · cases hok.symm.trans h
  · cases herror.symm.trans h
    exact ⟨name, rfl⟩

theorem entries_concat (h : s.concat t = .ok u) : u.entries = s.entries ++ t.entries := by
  rcases s.concat_eq t with ⟨-, u', hok, hentries⟩ | ⟨-, name, herror⟩
  · cases hok.symm.trans h
    exact hentries
  · cases herror.symm.trans h

theorem names_join (h : u.entries = s.entries ++ t.entries) : u.names = s.names ++ t.names := by
  simp [names, h]

/-- Two tuples can be joined exactly if they share no name. -/
theorem nodup_names_join_iff :
    (s.names ++ t.names).Nodup ↔ ¬ ∃ name i j, s.Carries i name ∧ t.Carries j name := by
  rw [List.nodup_append]
  constructor
  · rintro ⟨-, -, hne⟩ ⟨name, i, j, hi, hj⟩
    exact hne name (mem_names_iff.mpr ⟨i, hi⟩) name (mem_names_iff.mpr ⟨j, hj⟩) rfl
  · intro h
    refine ⟨s.nodup_names, t.nodup_names, ?_⟩
    rintro name hname _ hname' rfl
    obtain ⟨i, hi⟩ := mem_names_iff.mp hname
    obtain ⟨j, hj⟩ := mem_names_iff.mp hname'
    exact h ⟨name, i, j, hi, hj⟩

end Slots

end Dee
