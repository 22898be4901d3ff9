import Dee.Proofs.Refinement.Alike
import Dee.Proofs.Store.Entries
import Dee.Proofs.Store.Text

/-!
# Containers that look alike

Arrays and tuples that look alike answer alike and fail alike, and stay alike when the same place is
written on both sides. Comparing and showing values gives the same on both sides, if the second side
may descend at least as far and the first one comes to an end.
-/

namespace Dee

/-- Results that belong together, or the same failure. -/
inductive Agree {ε α β : Type} (rel : α → β → Prop) : Except ε α → Except ε β → Prop
  | ok {a : α} {b : β} (h : rel a b) : Agree rel (.ok a) (.ok b)
  | error (e : ε) : Agree rel (.error e) (.error e)

theorem agree_eq {ε α : Type} (x : Except ε α) : Agree Eq x x := by
  cases x with
  | ok a => exact .ok rfl
  | error e => exact .error e

theorem Agree.bind {ε α β α' β' : Type} {rel : α → β → Prop} {rel' : α' → β' → Prop}
    {x : Except ε α} {y : Except ε β} {f : α → Except ε α'} {g : β → Except ε β'}
    (h : Agree rel x y) (hfg : ∀ a b, rel a b → Agree rel' (f a) (g b)) :
    Agree rel' (x >>= f) (y >>= g) := by
  cases h with
  | ok hab => exact hfg _ _ hab
  | error e => exact .error e

variable {kept : String → Prop} {W : World} {v w : Value}

section Forall₂

variable {α β : Type} {rel : α → β → Prop} {xs : List α} {ys : List β}

theorem forall₂_getD (h : List.Forall₂ rel xs ys) {a : α} {b : β} (hab : rel a b) (i : Nat) :
    rel (xs.getD i a) (ys.getD i b) := by
  induction h generalizing i with
  | nil => exact hab
  | cons hx _ ih =>
    cases i with
    | zero => exact hx
    | succ i => exact ih i

theorem forall₂_modify (h : List.Forall₂ rel xs ys) {f : α → α} {g : β → β}
    (hfg : ∀ a b, rel a b → rel (f a) (g b)) (i : Nat) :
    List.Forall₂ rel (xs.modify i f) (ys.modify i g) := by
  induction h generalizing i with
  | nil =>
    rw [List.modify_nil, List.modify_nil]
    exact .nil
  | cons hx hrest ih =>
    cases i with
    | zero => exact .cons (hfg _ _ hx) hrest
    | succ i => exact .cons hx (ih i)

end Forall₂

namespace Value.AllAlike

variable {vs ws : List Value}

theorem getD (h : Value.AllAlike W vs ws) (i : Nat) :
    Value.Alike W (vs.getD i Value.none) (ws.getD i Value.none) :=
  forall₂_getD h (.scalar .none) i

theorem set (h : Value.AllAlike W vs ws) (hv : Value.Alike W v w) (i : Nat) :
    Value.AllAlike W (vs.set i v) (ws.set i w) := by
  rw [List.set_eq_modify, List.set_eq_modify]
  exact forall₂_modify h (fun _ _ _ => hv) i

theorem replicate_none (n : Nat) :
    Value.AllAlike W (List.replicate n Value.none) (List.replicate n Value.none) :=
  List.forall₂_same.mpr fun x hx => by
    rw [List.eq_of_mem_replicate hx]
    exact .scalar .none

end Value.AllAlike

/-! ## Arrays -/

namespace Cells.Alike

variable {c d c' d' : Cells}

theorem length_eq (h : Cells.Alike W c d) : c.length = d.length :=
  List.Forall₂.length_eq h

theorem get (h : Cells.Alike W c d) (index : Int) :
    Agree (Value.Alike W) (c.get index) (d.get index) := by
  unfold Cells.get
  by_cases hi : index ≤ 0
  · rw [if_pos hi, if_pos hi]
    exact .error _
  · rw [if_neg hi, if_neg hi]
    have hget := Value.AllAlike.getD h (index.toNat - 1)
    simp only [List.getD_eq_getElem?_getD, Array.getElem?_toList] at hget
    simp only [Array.getD_eq_getD_getElem?]
    exact .ok hget

theorem growth_eq (h : Cells.Alike W c d) (index : Int) : c.growth index = d.growth index := by
  unfold Cells.growth
  rw [h.length_eq]

theorem accepts_eq (h : Cells.Alike W c d) (index : Int) : c.accepts index = d.accepts index := by
  unfold Cells.accepts
  rw [h.growth_eq]

theorem write (h : Cells.Alike W c d) (hv : Value.Alike W v w) (index : Int) :
    Cells.Alike W (c.write index v) (d.write index w) := by
  unfold Cells.Alike Cells.write
  rw [h.growth_eq]
  cases d.growth index with
  | zero =>
    simp only [Array.toList_setIfInBounds]
    exact Value.AllAlike.set h hv _
  | succ gap =>
    simp only [Array.toList_push, Array.toList_append, Array.toList_replicate]
    exact List.rel_append (List.rel_append h (Value.AllAlike.replicate_none gap)) (.cons hv .nil)

theorem concat (h : Cells.Alike W c d) (h' : Cells.Alike W c' d') :
    Agree (Cells.Alike W) (c.concat c') (d.concat d') := by
  unfold Cells.concat
  rw [h.length_eq, h'.length_eq]
  cases Memory.room (d.length + d'.length) with
  | error f => exact .error f
  | ok _ =>
    refine .ok ?_
    unfold Cells.Alike
    rw [Array.toList_append, Array.toList_append]
    exact List.rel_append h h'

end Cells.Alike

/-! ## Tuples -/

namespace Slots.Alike

variable {s t s' t' : Slots}

theorem empty : Slots.Alike W .empty .empty := ⟨.nil, rfl, rfl⟩

theorem length_eq (h : Slots.Alike W s t) : s.length = t.length :=
  congrArg List.length h.order

theorem slot (h : Slots.Alike W s t) (ref : Nat) : Slot.Alike W (s.slot ref) (t.slot ref) := by
  have hslot := forall₂_getD h.objects ⟨rfl, .scalar .none⟩ ref
    (a := ⟨none, .none⟩) (b := ⟨none, .none⟩)
  simp only [List.getD_eq_getElem?_getD, Array.getElem?_toList] at hslot
  simp only [SlotTable.slot, Array.getD_eq_getD_getElem?]
  exact hslot

theorem entries (h : Slots.Alike W s t) : List.Forall₂ (Slot.Alike W) s.entries t.entries := by
  unfold Slots.entries
  rw [h.order, List.forall₂_map_left_iff, List.forall₂_map_right_iff]
  exact List.forall₂_same.mpr fun ref _ => h.slot ref

theorem values (h : Slots.Alike W s t) : Value.AllAlike W s.values t.values := by
  unfold Slots.values
  rw [Value.AllAlike, List.forall₂_map_left_iff, List.forall₂_map_right_iff]
  exact h.entries.imp fun _ _ hx => hx.value

theorem push (h : Slots.Alike W s t) {e f : Slot} (hef : Slot.Alike W e f)
    (he : s.taken? e.name = none) (hf : t.taken? f.name = none) :
    Slots.Alike W (s.push e he) (t.push f hf) := by
  have hsize : s.objects.size = t.objects.size := List.Forall₂.length_eq h.objects
  refine ⟨?_, ?_, ?_⟩
  · show List.Forall₂ _ (s.objects.push e).toList (t.objects.push f).toList
    rw [Array.toList_push, Array.toList_push]
    exact List.rel_append h.objects (.cons hef .nil)
  · show s.order ++ [s.objects.size] = t.order ++ [t.objects.size]
    rw [h.order, hsize]
  · simp only [Slots.push, SlotTable.push, hef.name, h.index, hsize]

/-- Whether an entry can be added is seen from the index alone. -/
theorem append (h : Slots.Alike W s t) (name : Option String) (hv : Value.Alike W v w) :
    Agree (Slots.Alike W) (s.append name v) (t.append name w) := by
  have htaken : s.taken? name = t.taken? name := by
    rw [SlotTable.taken?, SlotTable.taken?, h.index]
  cases ht : t.taken? name with
  | some n =>
    rw [Slots.append_taken (htaken.trans ht), Slots.append_taken ht]
    exact .error _
  | none =>
    rw [Slots.append_free (htaken.trans ht), Slots.append_free ht]
    exact .ok (h.push (e := ⟨name, v⟩) (f := ⟨name, w⟩) ⟨rfl, hv⟩ _ _)

theorem appendAll (h : Slots.Alike W s t) {xs ys : List Slot}
    (hxy : List.Forall₂ (Slot.Alike W) xs ys) :
    Agree (Slots.Alike W) (s.appendAll xs) (t.appendAll ys) := by
  unfold Slots.appendAll
  induction hxy generalizing s t with
  | nil => exact .ok h
  | cons hx hrest ih =>
    rw [List.foldlM_cons, List.foldlM_cons, hx.name]
    exact (h.append _ hx.value).bind fun _ _ hab => ih hab

theorem concat (h : Slots.Alike W s t) (h' : Slots.Alike W s' t') :
    Agree (Slots.Alike W) (s.concat s') (t.concat t') :=
  appendAll .empty (List.rel_append h.entries h'.entries)

theorem locate_eq (h : Slots.Alike W s t) (m : Member) : s.locate m = t.locate m := by
  cases m with
  | named name => rw [SlotTable.locate, SlotTable.locate, h.index]
  | position index => rw [SlotTable.locate, SlotTable.locate, h.order]

theorem get (h : Slots.Alike W s t) (m : Member) :
    Agree (Value.Alike W) (s.get m) (t.get m) := by
  unfold Slots.get
  rw [h.locate_eq]
  cases t.locate m with
  | error e => exact .error e
  | ok ref => exact .ok (h.slot ref).value

theorem write (h : Slots.Alike W s t) (hv : Value.Alike W v w) (ref : Nat) :
    Slots.Alike W (s.write ref v) (t.write ref w) where
  objects := by
    simp only [Slots.write, SlotTable.write, Array.toList_modify]
    refine forall₂_modify h.objects ?_ ref
    exact fun x y hxy => ⟨hxy.name, hv⟩
  order := h.order
  index := h.index

end Slots.Alike

/-! ## Comparing and showing -/

theorem Closure.Alike.params_eq {c d : Closure} (h : Closure.Alike kept W c d) :
    c.params = d.params := by
  obtain ⟨pos, hcode⟩ := h.code
  obtain ⟨params, statements, expression, frame⟩ := c
  obtain ⟨params', statements', expression', frame'⟩ := d
  cases hcode with
  | function _ => rfl
  | lambda _ => rfl

section Descent

variable {α β : Type} {R : α → β → Prop}

theorem allEqual_of_forall₂ {eq : α → α → Option Bool} {eq' : β → β → Option Bool}
    {xs ys : List α} {xs' ys' : List β} (hxs : List.Forall₂ R xs xs')
    (hys : List.Forall₂ R ys ys')
    (heq : ∀ x x' y y', R x x' → R y y' → ∀ b, eq x y = some b → eq' x' y' = some b)
    {b : Bool} (h : Store.allEqual eq xs ys = some b) :
    Store.allEqual eq' xs' ys' = some b := by
  induction hxs generalizing ys ys' with
  | nil =>
    cases hys with
    | nil => exact h
    | cons _ _ => exact h
  | cons hx _ ih =>
    cases hys with
    | nil => exact h
    | cons hy hys =>
      simp only [Store.allEqual, Option.bind_eq_bind, Option.bind_eq_some_iff] at h ⊢
      obtain ⟨same, hsame, hrest⟩ := h
      refine ⟨same, heq _ _ _ _ hx hy same hsame, ?_⟩
      cases same with
      | true => exact ih hys hrest
      | false => exact hrest

end Descent

namespace Store.Alike

variable {s t : Store} {depth depth' : Nat}

theorem truthy_eq (h : Store.Alike kept W s t) (hv : Value.Alike W v w) :
    s.truthy v = t.truthy w := by
  cases hv with
  | scalar _ => rfl
  | array hij => simp only [Store.truthy, (h.cells hij).length_eq]
  | tuple hij => simp only [Store.truthy, (h.slots hij).length_eq]
  | func _ => rfl

/-- What comparing gives on the first side it gives on the second. -/
theorem equal (h : Store.Alike kept W s t) (hdepth : depth ≤ depth') {v' w' : Value} {b : Bool}
    (hv : Value.Alike W v v') (hw : Value.Alike W w w') (hb : s.equal depth v w = some b) :
    t.equal depth' v' w' = some b := by
  induction depth generalizing depth' v w v' w' b with
  | zero => cases hb
  | succ depth ih =>
    obtain ⟨depth', rfl⟩ : ∃ k, depth' = k + 1 := ⟨depth' - 1, by omega⟩
    have hle : depth ≤ depth' := Nat.le_of_succ_le_succ hdepth
    cases hv with
    | scalar a => cases hw <;> exact hb
    | array hij =>
      cases hw with
      | array hkl =>
        have hxs := h.cells hij
        have hys := h.cells hkl
        have hxlen := hxs.length_eq
        have hylen := hys.length_eq
        simp only [Cells.length] at hxlen hylen
        simp only [Store.equal, hxlen, hylen] at hb ⊢
        split at hb
        next hsize =>
          rw [if_pos hsize]
          exact allEqual_of_forall₂ hxs hys (fun _ _ _ _ hx hy _ => ih hle hx hy) hb
        next hsize =>
          rw [if_neg hsize]
          exact hb
      | _ => exact hb
    | tuple hij =>
      cases hw with
      | tuple hkl =>
        have hxs := (h.slots hij).entries
        have hys := (h.slots hkl).entries
        simp only [Store.equal, hxs.length_eq, hys.length_eq] at hb ⊢
        split at hb
        next hsize =>
          rw [if_pos hsize]
          refine allEqual_of_forall₂ hxs hys ?_ hb
          intro x x' y y' hx hy b hsame
          rw [hx.name, hy.name] at hsame
          split at hsame
          next hname =>
            rw [if_pos hname]
            exact ih hle hx.value hy.value hsame
          next hname =>
            rw [if_neg hname]
            exact hsame
        next hsize =>
          rw [if_neg hsize]
          exact hb
      | _ => exact hb
    | func hij =>
      cases hw with
      | func hkl =>
        have hsame := h.closures.unique hij hkl
        simp only [Store.equal, hsame] at hb ⊢
        exact hb
      | _ => exact hb

/-- Values that look alike have the same text, unless the first is nested too deeply. -/
theorem spell (h : Store.Alike kept W s t) (hdepth : depth ≤ depth') (hv : Value.Alike W v w) :
    Failure.Extends (s.spell depth v) (t.spell depth' w) := by
  induction depth generalizing depth' v w with
  | zero => exact Or.inl rfl
  | succ depth ih =>
    obtain ⟨depth', rfl⟩ : ∃ k, depth' = k + 1 := ⟨depth' - 1, by omega⟩
    have hle : depth ≤ depth' := Nat.le_of_succ_le_succ hdepth
    cases hv with
    | scalar a => exact Or.inr rfl
    | array hij =>
      refine (Failure.extends_mapM (fun _ _ hx => ih hle hx) (h.cells hij)).bind ?_
      exact fun _ => Or.inr rfl
    | tuple hij =>
      refine (Failure.extends_mapM (fun x y hxy => ?_) (h.slots hij).entries).bind
        fun _ => Or.inr rfl
      refine (ih hle hxy.value).bind fun text => Or.inr ?_
      rw [Slot.label, Slot.label, hxy.name]
    | func hij =>
      refine Or.inr ?_
      rw [Store.spell, Store.spell, (h.closure hij).params_eq]

theorem spellLine (h : Store.Alike kept W s t) (hdepth : depth ≤ depth') {vs ws : List Value}
    (hvs : Value.AllAlike W vs ws) :
    Failure.Extends (s.spellLine depth vs) (t.spellLine depth' ws) :=
  (Failure.extends_mapM (fun _ _ hx => h.spell hdepth hx) hvs).bind fun _ => Or.inr rfl

end Store.Alike

end Dee
