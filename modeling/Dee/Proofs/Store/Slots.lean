import Dee.Proofs.Store.Acts

/-!
# Names and positions of a tuple agree

A tuple is seen in two views, by the names of its entries and by their positions. As no two entries
have the same name, a name leads to one entry or to none, and what is written through the one view
is seen through the other. Adding an entry and joining two tuples fail rather than repeat a name.

Main statement: `tuple_views_agree`.
-/

namespace Dee

/-! ## Tuples in a store -/

theorem Store.slots_modifySlots (st : Store) (ref : Nat) (f : Slots → Slots) (other : Nat) :
    (st.modifySlots ref f).slots other =
      if ref = other ∧ ref < st.tuples.size then f (st.slots other) else st.slots other := by
  unfold Store.slots Store.modifySlots
  simp only [Array.getD_eq_getD_getElem?, Array.getElem?_modify]
  by_cases h : ref = other
  · subst h
    by_cases href : ref < st.tuples.size <;> simp [href]
  · simp [h]

theorem Store.slots_newTuple (st : Store) (s : Slots) (other : Nat) :
    (st.newTuple s).2.slots other = if other = st.tuples.size then s else st.slots other := by
  unfold Store.slots Store.newTuple
  simp only [Array.getD_eq_getD_getElem?, Array.getElem?_push]
  by_cases h : other = st.tuples.size <;> simp [h]

theorem Store.slots_newTuple_size (st : Store) (s : Slots) :
    (st.newTuple s).2.slots st.tuples.size = s := by
  rw [slots_newTuple, if_pos rfl]

theorem Store.slots_newTuple_of_lt {st : Store} {other : Nat} (h : other < st.tuples.size)
    (s : Slots) : (st.newTuple s).2.slots other = st.slots other := by
  rw [slots_newTuple, if_neg (Nat.ne_of_lt h)]

namespace Machine

variable {m m' : Machine} {ref : Nat}

/-- The machine with another tuple in one place, and all else as it was. -/
def withTuple (m : Machine) (ref : Nat) (s : Slots) : Machine :=
  { m with store.tuples := m.store.tuples.setIfInBounds ref s }

/-- What can be done with a tuple, and what it does to the machine. -/
structure TupleLaws (m : Machine) (ref : Nat) : Prop where
  /-- No two entries have the same name. -/
  distinct : (m.store.slots ref).names.Nodup
  /-- The index knows a name exactly if one position carries it, and leads to the entry there. -/
  index : ∀ name entry, (m.store.slots ref).index.lookup name = some entry ↔
    ∃ place : Nat, (m.store.slots ref).Carries place name ∧
      (∀ place', (m.store.slots ref).Carries place' name → place' = place) ∧
      (m.store.slots ref).order[place]? = some entry
  /-- An entry shows its value by its position, and by its name if it has one. -/
  get : ∀ (place : Nat) n v, (m.store.slots ref).entries[place]? = some ⟨n, v⟩ →
    Eval.memberOf (.tuple ref) (.position (place + 1)) m = (.ok v, m) ∧
      ∀ name, n = some name → Eval.memberOf (.tuple ref) (.named name) m = (.ok v, m)
  /-- Writing an entry by its name is writing it by its position, and both show the new value. -/
  set : ∀ (place : Nat) name v, (m.store.slots ref).Carries place name →
    ∃ m', Eval.setMemberOf (.tuple ref) (.named name) v m = (.ok (), m') ∧
      Eval.setMemberOf (.tuple ref) (.position (place + 1)) v m = (.ok (), m') ∧
      Eval.memberOf (.tuple ref) (.named name) m' = (.ok v, m') ∧
      Eval.memberOf (.tuple ref) (.position (place + 1)) m' = (.ok v, m')
  /-- Writing a member changes the value of one entry of this tuple: no other entry, no name, not
  the length, not where the names lead, and nothing else on the machine. -/
  set_only : ∀ member v m', Eval.setMemberOf (.tuple ref) member v m = (.ok (), m') →
    ∃ (place : Nat) (n : Option String) (w : Value) (t : Slots),
      (m.store.slots ref).entries[place]? = some ⟨n, w⟩ ∧ m' = m.withTuple ref t ∧
      t.entries = (m.store.slots ref).entries.set place ⟨n, v⟩ ∧
      t.index = (m.store.slots ref).index
  /-- A name that no entry has can be neither read nor written. -/
  unknown : ∀ name, (∀ place, ¬ (m.store.slots ref).Carries place name) →
    Eval.memberOf (.tuple ref) (.named name) m = (.error (.ofError (.noMember name)), m) ∧
      ∀ v, Eval.setMemberOf (.tuple ref) (.named name) v m =
        (.error (.ofError (.noMember name)), m)
  /-- Nor can a position outside the tuple. -/
  outside : ∀ index : Int, index ≤ 0 ∨ (m.store.slots ref).length < index →
    Eval.memberOf (.tuple ref) (.position index) m = (.error (.ofError (.tupleIndex index)), m) ∧
      ∀ v, Eval.setMemberOf (.tuple ref) (.position index) v m =
        (.error (.ofError (.tupleIndex index)), m)
  /-- A new entry must not repeat a name. -/
  append_taken : ∀ place name v, (m.store.slots ref).Carries place name →
    Eval.appendTo ref (some name) v m = (.error (.ofError (.duplicateMember name)), m)
  /-- Any other new entry stands behind those that are there. -/
  append_new : ∀ n v, (∀ place name, n = some name → ¬ (m.store.slots ref).Carries place name) →
    ∃ t, Eval.appendTo ref n v m = (.ok (), m.withTuple ref t) ∧
      t.entries = (m.store.slots ref).entries ++ [⟨n, v⟩]

theorem withTuple_eq (m : Machine) (ref : Nat) (f : Slots → Slots) :
    { m with store := m.store.modifySlots ref f } = m.withTuple ref (f (m.store.slots ref)) := by
  unfold withTuple Store.modifySlots Store.slots
  congr 2
  refine Array.ext_getElem? fun i => ?_
  rw [Array.getElem?_modify, Array.getElem?_setIfInBounds]
  by_cases h : ref = i
  · subst h
    by_cases href : ref < m.store.tuples.size <;> simp [href]
  · simp [h]

/-- An entry shows its value by its position, and by its name if it has one. -/
theorem memberOf_entry {place : Nat} {n : Option String} {v : Value}
    (he : (m.store.slots ref).entries[place]? = some ⟨n, v⟩) :
    Eval.memberOf (.tuple ref) (.position (place + 1)) m = (.ok v, m) ∧
      ∀ name, n = some name → Eval.memberOf (.tuple ref) (.named name) m = (.ok v, m) := by
  obtain ⟨entry, hplace, hentry⟩ := Slots.getElem?_entries_eq_some.mp he
  have hread : ∀ member, (m.store.slots ref).locate member = .ok entry →
      Eval.memberOf (.tuple ref) member m = (.ok v, m) := by
    intro member hlocate
    rw [Eval.memberOf_tuple, Slots.get_of_locate hlocate, hentry]
    rfl
  refine ⟨hread _ (Slots.locate_position_of_order hplace), ?_⟩
  rintro name rfl
  exact hread _ (Slots.locate_named_iff.mpr ⟨place, ⟨v, he⟩, hplace⟩)

/-- Every tuple keeps its two views in step. -/
theorem tupleLaws (href : ref < m.store.tuples.size) : m.TupleLaws ref where
  distinct := Slots.nodup_names _
  index name entry := by
    rw [Slots.lookup_index_iff]
    constructor
    · rintro ⟨place, hcarries, hplace⟩
      exact ⟨place, hcarries, fun _ => hcarries.unique, hplace⟩
    · rintro ⟨place, hcarries, -, hplace⟩
      exact ⟨place, hcarries, hplace⟩
  get place n v := memberOf_entry
  set place name v hcarries := by
    obtain ⟨w, he⟩ := hcarries
    obtain ⟨entry, hplace, hentry⟩ := Slots.getElem?_entries_eq_some.mp he
    have hname := Slots.locate_named_iff.mpr ⟨place, ⟨w, he⟩, hplace⟩
    have hposition := Slots.locate_position_of_order hplace
    let m' : Machine := { m with store := m.store.modifySlots ref (·.write entry v) }
    -- The entry still has its name, so both views find it where it was.
    have hwritten : (m'.store.slots ref).entries[place]? = some ⟨some name, v⟩ := by
      have hlt := (List.getElem?_eq_some_iff.mp he).1
      rw [Store.slots_modifySlots, if_pos ⟨rfl, href⟩, Slots.entries_write hplace, hentry]
      exact List.getElem?_set_self hlt
    obtain ⟨hbyPosition, hbyName⟩ := memberOf_entry hwritten
    refine ⟨m', ?_, ?_, hbyName name rfl, hbyPosition⟩
    · rw [Eval.setMemberOf_tuple, hname]
    · rw [Eval.setMemberOf_tuple, hposition]
  set_only member v m' h := by
    rw [Eval.setMemberOf_tuple] at h
    cases hlocate : (m.store.slots ref).locate member with
    | error e =>
      rw [hlocate] at h
      cases h
    | ok entry =>
      rw [hlocate] at h
      cases h
      obtain ⟨place, hplace⟩ := Slots.exists_place_of_locate hlocate
      have hentry := Slots.getElem?_entries_eq_some.mpr ⟨entry, hplace, rfl⟩
      exact ⟨place, _, _, _, hentry, withTuple_eq m ref _, Slots.entries_write hplace, rfl⟩
  unknown name h := by
    have hname : name ∉ (m.store.slots ref).names := fun hin => by
      obtain ⟨place, hplace⟩ := Slots.mem_names_iff.mp hin
      exact h place hplace
    have hlocate := Slots.locate_named_none hname
    refine ⟨?_, fun v => ?_⟩
    · rw [Eval.memberOf_tuple, Slots.get, hlocate]
      rfl
    · rw [Eval.setMemberOf_tuple, hlocate]
  outside index h := by
    have hlocate := Slots.locate_position_none h
    refine ⟨?_, fun v => ?_⟩
    · rw [Eval.memberOf_tuple, Slots.get, hlocate]
      rfl
    · rw [Eval.setMemberOf_tuple, hlocate]
  append_taken place name v h := by
    rcases (m.store.slots ref).append_eq (some name) v with ⟨_, ⟨⟩, -, herror⟩ | ⟨hnew, -⟩
    · rw [Eval.appendTo_eq, herror]
    · exact absurd (Slots.mem_names_iff.mpr ⟨place, h⟩) (hnew name rfl)
  append_new n v h := by
    rcases (m.store.slots ref).append_eq n v with ⟨name, hn, htaken, -⟩ | ⟨-, t, hok, hentries⟩
    · obtain ⟨place, hplace⟩ := Slots.mem_names_iff.mp htaken
      exact absurd hplace (h place name hn)
    · refine ⟨t, ?_, hentries⟩
      rw [Eval.appendTo_eq, hok]
      exact congrArg (Prod.mk _) (withTuple_eq m ref _)

/-! ## Joined tuples -/

/-- Joining makes a new tuple of the entries of both, if the names of both together are distinct and
there is room for the entries, and fails otherwise. -/
theorem join (m : Machine) (depth i j : Nat) :
    let s := m.store.slots i
    let t := m.store.slots j
    ((s.names ++ t.names).Nodup ∧ s.length + t.length < Memory.capacity ∧
        ∃ u, u.entries = s.entries ++ t.entries ∧ Eval.binary depth "+" (.tuple i) (.tuple j) m =
          (.ok (.tuple m.store.tuples.size), { m with store := (m.store.newTuple u).2 })) ∨
      (¬ ((s.names ++ t.names).Nodup ∧ s.length + t.length < Memory.capacity) ∧
        ∃ f, Eval.binary depth "+" (.tuple i) (.tuple j) m = (.error f, m)) := by
  intro s t
  rcases Nat.lt_or_ge (s.length + t.length) Memory.capacity with hroom | hfull
  · rcases s.concat_eq t with ⟨hnodup, u, hok, hentries⟩ | ⟨hnot, name, herror⟩
    · refine Or.inl ⟨hnodup, hroom, u, hentries, ?_⟩
      rw [Eval.join_tuples depth hroom, hok]
    · refine Or.inr ⟨fun h => hnot h.1, .ofError (.duplicateMember name), ?_⟩
      rw [Eval.join_tuples depth hroom, herror]
  · exact Or.inr ⟨fun h => Nat.not_lt.mpr hfull h.2, _, Eval.join_tuples_full depth hfull⟩

/-- Joins three tuples from the left. -/
def joinLeft (depth i j k : Nat) : Eval Value := do
  let ij ← Eval.binary depth "+" (.tuple i) (.tuple j)
  Eval.binary depth "+" ij (.tuple k)

/-- Joins three tuples from the right. -/
def joinRight (depth i j k : Nat) : Eval Value := do
  let jk ← Eval.binary depth "+" (.tuple j) (.tuple k)
  Eval.binary depth "+" (.tuple i) jk

/-- Whether three tuples can be joined: all their names together are distinct, and there is room for
all their entries. -/
def CanJoin (s t u : Slots) : Prop :=
  (s.names ++ t.names ++ u.names).Nodup ∧ s.length + t.length + u.length < Memory.capacity

variable {i j k : Nat}

/-- Three tuples are joined from the left if they can be joined, and else not. -/
theorem join_left (depth : Nat) (hk : k < m.store.tuples.size) :
    let s := m.store.slots i
    let t := m.store.slots j
    let u := m.store.slots k
    (CanJoin s t u ∧ ∃ l m', joinLeft depth i j k m = (.ok (.tuple l), m') ∧
        (m'.store.slots l).entries = s.entries ++ t.entries ++ u.entries) ∨
      (¬ CanJoin s t u ∧ ∃ f, (joinLeft depth i j k m).1 = .error f) := by
  intro s t u
  rcases m.join depth i j with ⟨hnodup, hroom, w, hw, hjoin⟩ | ⟨hnot, f, hjoin⟩
  · -- The third tuple is still there behind the new one.
    have hsecond := Machine.join { m with store := (m.store.newTuple w).2 } depth
      m.store.tuples.size k
    have hlength : w.length = s.length + t.length := by
      rw [← Slots.length_entries, hw, List.length_append, Slots.length_entries,
        Slots.length_entries]
    simp only [Store.slots_newTuple_size, Store.slots_newTuple_of_lt hk, Slots.names_join hw,
      hlength] at hsecond
    rw [joinLeft, Eval.bind_apply_ok hjoin]
    rcases hsecond with ⟨hall, hfits, v, hv, hlast⟩ | ⟨hnot, f, hlast⟩
    · refine Or.inl ⟨⟨hall, hfits⟩, _, _, hlast, ?_⟩
      rw [Store.slots_newTuple_size, hv, hw]
    · exact Or.inr ⟨hnot, f, by rw [hlast]⟩
  · refine Or.inr ⟨fun h => hnot ⟨(List.nodup_append.mp h.1).1, ?_⟩, f, ?_⟩
    · exact Nat.lt_of_le_of_lt (Nat.le_add_right _ _) h.2
    · rw [joinLeft, Eval.bind_apply_error hjoin]

/-- Three tuples are joined from the right if they can be joined, and else not. -/
theorem join_right (depth : Nat) (hi : i < m.store.tuples.size) :
    let s := m.store.slots i
    let t := m.store.slots j
    let u := m.store.slots k
    (CanJoin s t u ∧ ∃ r m', joinRight depth i j k m = (.ok (.tuple r), m') ∧
        (m'.store.slots r).entries = s.entries ++ t.entries ++ u.entries) ∨
      (¬ CanJoin s t u ∧ ∃ f, (joinRight depth i j k m).1 = .error f) := by
  intro s t u
  rcases m.join depth j k with ⟨hnodup, hroom, w, hw, hjoin⟩ | ⟨hnot, f, hjoin⟩
  · have hsecond := Machine.join { m with store := (m.store.newTuple w).2 } depth i
      m.store.tuples.size
    have hlength : w.length = t.length + u.length := by
      rw [← Slots.length_entries, hw, List.length_append, Slots.length_entries,
        Slots.length_entries]
    simp only [Store.slots_newTuple_size, Store.slots_newTuple_of_lt hi, Slots.names_join hw,
      hlength, ← List.append_assoc, ← Nat.add_assoc] at hsecond
    rw [joinRight, Eval.bind_apply_ok hjoin]
    rcases hsecond with ⟨hall, hfits, v, hv, hlast⟩ | ⟨hnot, f, hlast⟩
    · refine Or.inl ⟨⟨hall, hfits⟩, _, _, hlast, ?_⟩
      rw [Store.slots_newTuple_size, hv, hw, List.append_assoc]
    · exact Or.inr ⟨hnot, f, by rw [hlast]⟩
  · refine Or.inr ⟨fun h => hnot ⟨?_, ?_⟩, f, ?_⟩
    · rw [CanJoin, List.append_assoc] at h
      exact (List.nodup_append.mp h.1).2.1
    · show t.length + u.length < Memory.capacity
      have := h.2
      omega
    · rw [joinRight, Eval.bind_apply_error hjoin]

end Machine

/-- The two views of a tuple agree. Let anything be done to containers on a new machine, so that
tuples are made, get entries, are written by name and by position and are joined, or fail to be.
Every tuple that there is then keeps the laws above. An act that fails leaves the machine as it was.
Joining two tuples fails if and only if they share a name, and otherwise gives the entries of the
left one followed by those of the right one, with their names; on the machine this changes nothing
that is there, and the run ends if there is no room for so many entries. Joining three tuples from
the left and from the right both fail, or give the same entries. -/
theorem tuple_views_agree (depth : Nat) (acts : List ContainerAct) :
    let m := Machine.initial.through depth acts
    (∀ ref < m.store.tuples.size, m.TupleLaws ref) ∧
      (∀ (act : ContainerAct) f m', act.step depth m = (.error f, m') → m' = m) ∧
      (∀ i j, let s := m.store.slots i
        let t := m.store.slots j
        ((∃ e, s.concat t = .error e) ↔ ∃ name k l, s.Carries k name ∧ t.Carries l name) ∧
        (∀ u, s.concat t = .ok u → u.entries = s.entries ++ t.entries) ∧
        Eval.binary depth "+" (.tuple i) (.tuple j) m =
          if s.length + t.length < Memory.capacity then
            match s.concat t with
            | .ok u => (.ok (.tuple m.store.tuples.size),
                { m with store.tuples := m.store.tuples.push u })
            | .error e => (.error (.ofError e), m)
          else (.error (.abort .outOfMemory), m)) ∧
      ∀ i j k, i < m.store.tuples.size → k < m.store.tuples.size →
        let left := Machine.joinLeft depth i j k m
        let right := Machine.joinRight depth i j k m
        (∃ f g, left.1 = .error f ∧ right.1 = .error g) ∨
          ∃ l r, left.1 = .ok (.tuple l) ∧ right.1 = .ok (.tuple r) ∧
            (left.2.store.slots l).entries = (right.2.store.slots r).entries := by
  intro m
  refine ⟨fun ref => Machine.tupleLaws, fun act f m' => ContainerAct.eq_of_step_error, ?_, ?_⟩
  · intro i j s t
    refine ⟨?_, fun u => Slots.entries_concat, ?_⟩
    · rw [← not_iff_not, ← Slots.nodup_names_join_iff]
      rcases s.concat_eq t with ⟨hnodup, u, hok, -⟩ | ⟨hnot, name, herror⟩
      · refine iff_of_true ?_ hnodup
        rintro ⟨e, herror⟩
        cases hok.symm.trans herror
      · exact iff_of_false (fun h => h ⟨_, herror⟩) hnot
    · by_cases hroom : s.length + t.length < Memory.capacity
      · rw [if_pos hroom, Eval.join_tuples depth hroom]
        rfl
      · rw [if_neg hroom, Eval.join_tuples_full depth (Nat.le_of_not_lt hroom)]
  · intro i j k hi hk left right
    rcases Machine.join_left (i := i) (j := j) depth hk with
      ⟨hcan, l, m₁, hl, hentries⟩ | ⟨hnot, f, hf⟩
    · rcases Machine.join_right (j := j) (k := k) depth hi with
        ⟨-, r, m₂, hr, hentries'⟩ | ⟨hnot, -⟩
      · right
        refine ⟨l, r, by rw [show left = _ from hl], by rw [show right = _ from hr], ?_⟩
        rw [show left = _ from hl, show right = _ from hr, hentries, hentries']
      · exact absurd hcan hnot
    · rcases Machine.join_right (j := j) (k := k) depth hi with ⟨hcan, -⟩ | ⟨-, g, hg⟩
      · exact absurd hcan hnot
      · exact Or.inl ⟨f, g, hf, hg⟩

/-- A tuple gets the name `x` and cannot get it again, is written by that name and then by position,
and is joined with another one, but cannot be joined with itself. -/
theorem tuple_views_agree_written_twice :
    let acts : List ContainerAct := [.newTuple, .append 0 (some "x") (.int 1),
      .append 0 (some "x") (.int 2), .append 0 none (.int 3),
      .setMember (.tuple 0) (.named "x") (.int 4), .set (.tuple 0) 1 (.int 5), .newTuple,
      .append 1 (some "y") (.int 6), .concat (.tuple 0) (.tuple 1)]
    let m := Machine.initial.through 1 acts
    m.store.tuples.size = 3 ∧
      (m.store.slots 2).index.lookup "y" = some 2 ∧
      Eval.memberOf (.tuple 2) (.named "x") m = (.ok (.int 5), m) ∧
      Eval.memberOf (.tuple 2) (.position 1) m = (.ok (.int 5), m) ∧
      (∃ e, (m.store.slots 0).concat (m.store.slots 0) = .error e) ∧
      ∃ f g, (Machine.joinLeft 1 1 0 2 m).1 = .error f ∧
        (Machine.joinRight 1 1 0 2 m).1 = .error g := by
  intro acts m
  have hsize : m.store.tuples.size = 3 := by decide +kernel
  have hentry : ∀ ref ∈ [0, 2], (m.store.slots ref).entries[0]? = some ⟨some "x", .int 5⟩ := by
    decide +kernel
  obtain ⟨hlaws, -, hjoin, hjoins⟩ := tuple_views_agree 1 acts
  have hlaws := hlaws 2 (by rw [hsize]; decide)
  obtain ⟨hposition, hname⟩ := hlaws.get 0 (some "x") (.int 5) (hentry 2 (by simp))
  refine ⟨hsize, by decide +kernel, hname "x" rfl, hposition, ?_, ?_⟩
  · exact (hjoin 0 0).1.mpr ⟨"x", 0, 0, ⟨_, hentry 0 (by simp)⟩, ⟨_, hentry 0 (by simp)⟩⟩
  · rcases hjoins 1 0 2 (by rw [hsize]; decide) (by rw [hsize]; decide) with h | ⟨l, _, hl, -⟩
    · exact h
    · have hnone : (Machine.joinLeft 1 1 0 2 m).1.toOption = none := by decide +kernel
      rw [hl] at hnone
      cases hnone

end Dee
