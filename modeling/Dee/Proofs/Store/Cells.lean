import Dee.Proofs.Store.Acts
import Mathlib.Data.List.Induction

/-!
# Arrays hold what was written last

An array is a map from the indices from one on that forgets nothing: at each index it holds what was
written there last, behind that what it began with, and none everywhere else. Its length is the
largest index that it began with or that was written. Reading, taking items and joining change
nothing, and an array made by joining shares nothing with the arrays it was made from.

Main statement: `arrays_hold_last_writes`.
-/

namespace Dee

/-! ## Single writes -/

namespace Cells

variable {c : Cells} {index : Int} {v : Value}

theorem get_of_le (h : index ≤ 0) : c.get index = .error (.arrayIndex index) := by
  rw [get, if_pos h]

theorem get_of_pos (h : 1 ≤ index) :
    c.get index = .ok (c.items.getD (index.toNat - 1) Value.none) := by
  rw [get, if_neg (by omega)]

theorem accepts_of_le (h : index ≤ 0) :
    c.accepts index = .error (.ofError (.arrayIndex index)) := by
  rw [accepts, if_pos h]

/-- Writing makes the array as long as needed. -/
theorem length_write (h : 1 ≤ index) : (c.write index v).length = max c.length index.toNat := by
  unfold write
  split
  next hgrowth =>
    unfold growth at hgrowth
    simp only [length, Array.size_setIfInBounds] at hgrowth ⊢
    omega
  next gap hgrowth =>
    unfold growth at hgrowth
    simp only [length, Array.size_push, Array.size_append, Array.size_replicate] at hgrowth ⊢
    omega

/-- Writing changes the element at its own place only; a gap before it shows none, as before. -/
theorem getD_write (h : 1 ≤ index) (place : Nat) :
    (c.write index v).items.getD place Value.none =
      if place = index.toNat - 1 then v else c.items.getD place Value.none := by
  unfold write
  simp only [Array.getD_eq_getD_getElem?]
  split
  next hgrowth =>
    unfold growth length at hgrowth
    rw [Array.getElem?_setIfInBounds]
    by_cases hplace : place = index.toNat - 1
    · rw [if_pos hplace.symm, if_pos hplace, if_pos (by omega), Option.getD_some]
    · rw [if_neg (Ne.symm hplace), if_neg hplace]
  next gap hgrowth =>
    unfold growth length at hgrowth
    have hsize : (c.items ++ Array.replicate gap Value.none).size = index.toNat - 1 := by
      simp only [Array.size_append, Array.size_replicate]
      omega
    rw [Array.getElem?_push, hsize]
    by_cases hplace : place = index.toNat - 1
    · rw [if_pos hplace, if_pos hplace, Option.getD_some]
    · rw [if_neg hplace, if_neg hplace, Array.getElem?_append]
      by_cases hold : place < c.items.size
      · rw [if_pos hold]
      · rw [if_neg hold, Array.getElem?_replicate, Array.getElem?_eq_none (by omega)]
        split <;> rfl

end Cells

/-! ## Many writes -/

/-- The value that was written last at an index, if one was. -/
def lastWritten (ws : List (Int × Value)) (index : Int) : Option Value :=
  (ws.reverse.find? fun w => w.1 = index).map Prod.snd

theorem lastWritten_append (ws : List (Int × Value)) (w : Int × Value) (index : Int) :
    lastWritten (ws ++ [w]) index = if w.1 = index then some w.2 else lastWritten ws index := by
  unfold lastWritten
  by_cases h : w.1 = index <;> simp [h]

namespace Cells

/-- The elements after some writes, one after the other. -/
def writeAll (c : Cells) (ws : List (Int × Value)) : Cells :=
  ws.foldl (fun c w => c.write w.1 w.2) c

variable {c : Cells} {ws : List (Int × Value)}

theorem length_writeAll (h : ∀ w ∈ ws, 1 ≤ w.1) :
    (c.writeAll ws).length = (ws.map (·.1.toNat)).foldl max c.length := by
  induction ws generalizing c with
  | nil => rfl
  | cons w rest ih =>
    have hrest := ih (c := c.write w.1 w.2) fun w' hw' => h w' (List.mem_cons_of_mem w hw')
    rw [List.map_cons, List.foldl_cons, ← length_write (v := w.2) (h w List.mem_cons_self)]
    exact hrest

/-- At every place stands what was written there last, and otherwise what stood there before. -/
theorem getD_writeAll (h : ∀ w ∈ ws, 1 ≤ w.1) {index : Int} (hindex : 1 ≤ index) :
    (c.writeAll ws).items.getD (index.toNat - 1) Value.none =
      (lastWritten ws index).getD (c.items.getD (index.toNat - 1) Value.none) := by
  -- The last write counts, so the induction goes from the end of the list.
  induction ws using List.reverseRecOn with
  | nil => rfl
  | append_singleton ws w ih =>
    have hw : 1 ≤ w.1 := h w (by simp)
    have hsplit : c.writeAll (ws ++ [w]) = (c.writeAll ws).write w.1 w.2 := by
      simp [writeAll]
    rw [hsplit, getD_write hw, lastWritten_append]
    by_cases hsame : w.1 = index
    · rw [if_pos (by rw [hsame]), if_pos hsame, Option.getD_some]
    · rw [if_neg (by omega), if_neg hsame]
      exact ih fun w' hw' => h w' (by simp [hw'])

end Cells

/-! ## Histories -/

/-- The index and the value of a write to an array, if the act is one. -/
def ContainerAct.write? (ref : Nat) : ContainerAct → Option (Int × Value)
  | .set (.array ref') index v => if ref' = ref then some (index, v) else none
  | _ => none

/-- The index and the value of a write to an array, if the act is one and goes through. -/
def ContainerAct.written? (ref : Nat) (act : ContainerAct) :
    Except Failure Unit → Option (Int × Value)
  | .ok _ => act.write? ref
  | .error _ => none

namespace Machine

/-- The writes to an array that go through in a history, in order. -/
def writes (depth ref : Nat) : List ContainerAct → Machine → List (Int × Value)
  | [], _ => []
  | act :: rest, m =>
    (act.written? ref (act.step depth m).1).toList ++ writes depth ref rest (act.step depth m).2

variable {m m' : Machine} {ref : Nat}

/-- An act changes an array only by a write that goes through, and removes no array. -/
theorem cells_of_effect {act : ContainerAct} {result : Except Failure Unit}
    (h : act.Effect m result m') (href : ref < m.store.arrays.size) :
    m'.store.cells ref = (m.store.cells ref).writeAll (act.written? ref result).toList ∧
      ref < m'.store.arrays.size ∧ ∀ w ∈ (act.written? ref result).toList, 1 ≤ w.1 := by
  cases h with
  | @setArray ref' index v haccepts =>
    refine ⟨?_, by simpa [Store.modifyCells] using href, ?_⟩
    · simp only [Store.cells, Store.modifyCells, Array.getD_eq_getD_getElem?, Array.getElem?_modify,
        ContainerAct.written?, ContainerAct.write?]
      by_cases hsame : ref' = ref
      · subst hsame
        simp [Cells.writeAll, href]
      · simp [Cells.writeAll, hsame]
    · have hpos := (Cells.accepts_eq_ok.mp haccepts).1
      by_cases hsame : ref' = ref <;> simp [ContainerAct.written?, ContainerAct.write?, hsame, hpos]
  | concatArrays =>
    refine ⟨?_, by simp only [Store.newArray, Array.size_push]; omega,
      by simp [ContainerAct.written?, ContainerAct.write?]⟩
    simp [Store.cells, Store.newArray, ContainerAct.written?, ContainerAct.write?, Cells.writeAll,
      Array.getElem?_push, Nat.ne_of_lt href]
  | fails => exact ⟨rfl, href, by simp [ContainerAct.written?]⟩
  | get | getMember | snapshot | setTuple | setMember | concatScalars | concatTuples | newTuple
  | append => exact ⟨rfl, href, by simp [ContainerAct.written?, ContainerAct.write?]⟩

/-- Behind a history an array is what its writes make of it. -/
theorem cells_through (depth : Nat) (acts : List ContainerAct) (href : ref < m.store.arrays.size) :
    (m.through depth acts).store.cells ref =
        (m.store.cells ref).writeAll (m.writes depth ref acts) ∧
      ref < (m.through depth acts).store.arrays.size ∧
      ∀ w ∈ m.writes depth ref acts, 1 ≤ w.1 := by
  induction acts generalizing m with
  | nil => exact ⟨rfl, href, by simp [writes]⟩
  | cons act rest ih =>
    obtain ⟨hcells, hlt, hpos⟩ := cells_of_effect (act.effect_step depth m) href
    obtain ⟨hrest, hsize, hall⟩ := ih hlt
    refine ⟨?_, hsize, ?_⟩
    · rw [through, writes, hrest, hcells, Cells.writeAll, Cells.writeAll, Cells.writeAll,
        List.foldl_append]
    · intro w hw
      rcases List.mem_append.mp hw with hw | hw
      · exact hpos w hw
      · exact hall w hw

/-- What can be done with an array, and what it does to the machine. -/
structure ArrayLaws (ref : Nat) (m : Machine) : Prop where
  /-- Below one nothing can be read. -/
  get_low : ∀ index ≤ 0,
    Eval.elementAt (.array ref) index m = (.error (.ofError (.arrayIndex index)), m)
  /-- Below one nothing can be written. -/
  set_low : ∀ index ≤ 0, ∀ v,
    Eval.setElementAt (.array ref) index v m = (.error (.ofError (.arrayIndex index)), m)
  /-- From one on every write goes through, unless it lies behind the end and no array reaches so
  far; then the run ends. -/
  set : ∀ index v, 1 ≤ index → Eval.setElementAt (.array ref) index v m =
    if (m.store.cells ref).length < index ∧ Memory.capacity ≤ index.toNat then
      (.error (.abort (Memory.shortage (index.toNat - (m.store.cells ref).length))), m)
    else (.ok (), { m with store := m.store.modifyCells ref (·.write index v) })
  /-- Taking items gives the elements and changes nothing. -/
  snapshot : ∃ items, Eval.itemsIn (.array ref) m = (.ok items, m) ∧
    items.toList = (m.store.cells ref).items.toList

theorem arrayLaws (ref : Nat) (m : Machine) : m.ArrayLaws ref where
  get_low index hindex := by
    rw [Eval.elementAt_array, Cells.get_of_le hindex]
    rfl
  set_low index hindex v := by
    rw [Eval.setElementAt_array, Cells.accepts_of_le hindex]
  set index v hindex := by
    have hgrowth : (m.store.cells ref).growth index =
        index.toNat - (m.store.cells ref).length := rfl
    rw [Eval.setElementAt_array]
    by_cases hfull : (m.store.cells ref).length < index ∧ Memory.capacity ≤ index.toNat
    · rw [if_pos hfull, Cells.accepts_eq_error.mpr (Or.inr ⟨by omega, hfull.2, rfl⟩), hgrowth]
    · rw [if_neg hfull, Cells.accepts_eq_ok.mpr ⟨hindex, by omega⟩]
  snapshot := ⟨_, rfl, Items.toList_ofArray _⟩

end Machine

/-- Arrays hold what was written last. Let an array have some elements on a machine, and let
anything be done to containers from there on. Then the array is as long as the largest of its first
length and the indices at which a write went through. From index one on it shows the value that was
written there last, or else the element it had there first, or else none, as it does at every index
beyond its length. Below one it can be neither read nor written, and reading it and taking its items
for a loop change nothing. Joining two arrays changes nothing that is there: it makes a new array of
the elements of the left one followed by those of the right one, which stays as it is until it is
written itself, unless there is no room for them; then the run ends. -/
theorem arrays_hold_last_writes {m : Machine} {ref : Nat} {xs : Array Value}
    (h : m.store.arrays[ref]? = some ⟨xs⟩) (depth : Nat) (acts : List ContainerAct) :
    let ws := m.writes depth ref acts
    let m' := m.through depth acts
    (m'.store.cells ref).length = (ws.map (·.1.toNat)).foldl max xs.size ∧
      (∀ index, 1 ≤ index → Eval.elementAt (.array ref) index m' =
        (.ok ((lastWritten ws index).getD (xs.getD (index.toNat - 1) Value.none)), m')) ∧
      (∀ index : Int, (m'.store.cells ref).length < index →
        Eval.elementAt (.array ref) index m' = (.ok Value.none, m')) ∧
      m'.ArrayLaws ref ∧
      ∀ left right,
        let joined : Cells := ⟨(m'.store.cells left).items ++ (m'.store.cells right).items⟩
        let m'' : Machine := { m' with store.arrays := m'.store.arrays.push joined }
        Eval.binary depth "+" (.array left) (.array right) m' =
            (if (m'.store.cells left).length + (m'.store.cells right).length < Memory.capacity then
              (.ok (.array m'.store.arrays.size), m'')
            else (.error (.abort .outOfMemory), m')) ∧
          ∀ later, m''.writes depth m'.store.arrays.size later = [] →
            (m''.through depth later).store.cells m'.store.arrays.size = joined := by
  intro ws m'
  obtain ⟨href, helement⟩ := Array.getElem?_eq_some_iff.mp h
  have hxs : m.store.cells ref = ⟨xs⟩ := by simp [Store.cells, h]
  obtain ⟨hcells, -, hpos⟩ := Machine.cells_through depth acts href
  rw [hxs] at hcells
  refine ⟨?_, ?_, ?_, Machine.arrayLaws ref m', ?_⟩
  · rw [hcells, Cells.length_writeAll hpos]
    rfl
  · intro index hindex
    rw [Eval.elementAt_array, hcells, Cells.get_of_pos hindex, Cells.getD_writeAll hpos hindex]
    rfl
  · intro index hindex
    have hbeyond : (m'.store.cells ref).items.size ≤ index.toNat - 1 := by
      unfold Cells.length at hindex
      omega
    rw [Eval.elementAt_array, Cells.get_of_pos (by omega), Array.getD_eq_getD_getElem?,
      Array.getElem?_eq_none hbeyond]
    rfl
  · intro left right joined m''
    refine ⟨?_, fun later hlater => ?_⟩
    · rw [Eval.join_arrays]
      by_cases hroom :
          (m'.store.cells left).length + (m'.store.cells right).length < Memory.capacity
      · rw [if_pos hroom, Cells.concat_eq_ok.mpr ⟨hroom, rfl⟩]
        rfl
      · rw [if_neg hroom, Cells.concat_eq_error.mpr ⟨Nat.le_of_not_lt hroom, rfl⟩]
    · have hnew : m'.store.arrays.size < m''.store.arrays.size := by simp [m'']
      obtain ⟨hsame, -⟩ := Machine.cells_through depth later hnew
      rw [hsame, hlater]
      simp [Cells.writeAll, Store.cells, m'']

/-- `[1, 2]` is written behind its end, where it may not be, behind its end again and at its start,
and is joined with itself in between. -/
theorem arrays_hold_last_writes_over_gap :
    let m : Machine := ⟨⟨#[⟨#[.int 1, .int 2]⟩], #[], #[], .single⟩, ""⟩
    let acts : List ContainerAct := [.set (.array 0) 5 (.int 50), .set (.array 0) 0 (.int 7),
      .concat (.array 0) (.array 0), .set (.array 0) 5 (.int 51), .snapshot (.array 0),
      .set (.array 1) 5 (.int 8), .set (.array 0) 1 (.int 10)]
    let m' := m.through 1 acts
    m.store.arrays[0]? = some ⟨#[.int 1, .int 2]⟩ ∧ (m'.store.cells 0).length = 5 ∧
      (m'.store.cells 1).length = 10 ∧
      [1, 2, 3, 5, 6].map (fun i => (Eval.elementAt (.array 0) i m').1.toOption) =
        [some (.int 10), some (.int 2), some .none, some (.int 51), some .none] ∧
      (Eval.setElementAt (.array 0) (-1) (.int 9) m').1.toOption = none := by
  intro m acts m'
  have h : m.store.arrays[0]? = some ⟨#[.int 1, .int 2]⟩ := rfl
  have hws : m.writes 1 0 acts = [(5, .int 50), (5, .int 51), (1, .int 10)] := by
    decide +kernel
  have hjoined : (m'.store.cells 1).length = 10 := by decide +kernel
  obtain ⟨hlength, hget, -, hlaws, -⟩ := arrays_hold_last_writes h 1 acts
  rw [hws] at hlength hget
  refine ⟨h, hlength, hjoined, ?_, by rw [hlaws.set_low (-1) (by decide)]; rfl⟩
  simp only [List.map_cons, List.map_nil, m', hget _ (show (1 : Int) ≤ 1 by decide),
    hget _ (show (1 : Int) ≤ 2 by decide), hget _ (show (1 : Int) ≤ 3 by decide),
    hget _ (show (1 : Int) ≤ 5 by decide), hget _ (show (1 : Int) ≤ 6 by decide)]
  rfl

end Dee
