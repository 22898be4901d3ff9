import Dee.Proofs.Eval.Primitive
import Mathlib.Data.Fintype.Card
import Mathlib.Data.List.Forall2
import Mathlib.Data.Set.Finite.Lattice
import Mathlib.Logic.Relation

/-!
# Equality of values is a partial equivalence

Comparing two values for equality fails only for what they are themselves: if they are of different
kinds and not both numbers. Whatever they hold makes them equal or unequal, but never fails.
Equality is symmetric and transitive, and only a NaN keeps a value from being equal to itself.

A container may hold itself, and then no depth is enough to compare it. A value is acyclic if
nothing that occurs in it holds itself, and that is to say that it is nested within some number of
levels.

Main statement: `equality_is_partial_equivalence`.
-/

namespace Dee

open Relation

/-! ## Numbers and scalars -/

theorem Real.Exact.equal_self {a : Real.Exact} : a.equal a = true ↔ a ≠ .nan := by
  cases a <;> simp [equal]

theorem Real.Exact.count_mul_equal {unit : Int} (h : unit ≠ 0) (m n : Int) :
    (count (m * unit)).equal (count (n * unit)) = decide (m = n) := by
  show decide (count (m * unit) = count (n * unit)) = _
  rw [decide_eq_decide, count.injEq]
  exact Int.mul_eq_mul_right_iff h

/-- Integers have the same exact value only if they are the same. -/
theorem Real.Exact.ofInt_equal (m n : Int) : (ofInt m).equal (ofInt n) = decide (m = n) := by
  have hunit : ∀ k : Nat, ((Nat.pow 2 k : Nat) : Int) ≠ 0 := fun k =>
    Int.natCast_ne_zero.mpr (Nat.pow_pos (by decide)).ne'
  unfold ofInt
  generalize 1074 = k
  exact count_mul_equal (hunit k) m n

/-- Numbers are equal as their exact values are, two integers too. -/
theorem Number.equal_eq (a b : Number) : a.equal b = a.exact.equal b.exact := by
  cases a with
  | real x => rfl
  | int m =>
    cases b with
    | real y => rfl
    | int n => exact (Real.Exact.ofInt_equal m n).symm

/-- The number that a scalar is stands in for it where it is compared with another number. -/
theorem Scalar.equal_of_number {a b : Scalar} {x y : Number} (ha : a.number? = some x)
    (hb : b.number? = some y) : a.equal b = x.exact.equal y.exact := by
  rw [← Number.equal_eq]
  cases a <;> cases b <;> cases ha <;> cases hb <;> rfl

/-- Scalars that are not both numbers are equal if they are the same. -/
theorem Scalar.equal_of_not_number {a b : Scalar}
    (h : a.number? = Option.none ∨ b.number? = Option.none) :
    a.equal b = decide (a = b) := by
  cases a <;> cases b <;> simp_all [Scalar.equal, Scalar.number?]

theorem Scalar.equal_comm (a b : Scalar) : a.equal b = b.equal a := by
  cases ha : a.number? with
  | none =>
    rw [equal_of_not_number (Or.inl ha), equal_of_not_number (Or.inr ha)]
    exact decide_eq_decide.mpr eq_comm
  | some x =>
    cases hb : b.number? with
    | none =>
      rw [equal_of_not_number (Or.inr hb), equal_of_not_number (Or.inl hb)]
      exact decide_eq_decide.mpr eq_comm
    | some y => rw [equal_of_number ha hb, equal_of_number hb ha, Real.Exact.equal_comm]

theorem Scalar.equal_trans {a b c : Scalar} (hab : a.equal b = true) (hbc : b.equal c = true) :
    a.equal c = true := by
  cases ha : a.number? with
  | none =>
    rw [equal_of_not_number (Or.inl ha), decide_eq_true_eq] at hab
    rwa [hab]
  | some x =>
    cases hc : c.number? with
    | none =>
      rw [equal_of_not_number (Or.inr hc), decide_eq_true_eq] at hbc
      rwa [← hbc]
    | some z =>
      cases hb : b.number? with
      | none =>
        rw [equal_of_not_number (Or.inr hb), decide_eq_true_eq] at hab
        rwa [hab]
      | some y =>
        rw [equal_of_number ha hb] at hab
        rw [equal_of_number hb hc] at hbc
        rw [equal_of_number ha hc]
        exact Real.Exact.equal_trans hab hbc

/-- A scalar is equal to itself, unless it is a NaN. -/
theorem Scalar.equal_self {a : Scalar} (h : ∀ x, a = .real x → Real.shape x ≠ .nan) :
    a.equal a = true := by
  cases ha : a.number? with
  | none => rw [equal_of_not_number (Or.inl ha), decide_eq_true_eq]
  | some x =>
    rw [equal_of_number ha ha, Real.Exact.equal_self]
    cases x with
    | int n => exact nofun
    | real x =>
      have hshape := h x (by cases a <;> cases ha; rfl)
      show Real.Exact.ofReal x ≠ .nan
      unfold Real.Exact.ofReal
      split
      · exact absurd ‹_› hshape
      · split <;> simp
      · simp

/-! ## Lists of values -/

namespace Store

section Lists

variable {α : Type} {equal : α → α → Option Bool} {xs ys : List α}

theorem allEqual_eq_true_iff :
    allEqual equal xs ys = some true ↔ List.Forall₂ (fun x y => equal x y = some true) xs ys := by
  induction xs generalizing ys with
  | nil => cases ys <;> simp [allEqual]
  | cons x xs ih =>
    cases ys with
    | nil => simp [allEqual]
    | cons y ys =>
      rw [List.forall₂_cons, ← ih]
      rcases hxy : equal x y with _ | _ | _ <;> simp [allEqual, hxy]

theorem allEqual_comm (h : ∀ x y, equal x y = equal y x) :
    allEqual equal xs ys = allEqual equal ys xs := by
  induction xs generalizing ys with
  | nil => cases ys <;> rfl
  | cons x xs ih =>
    cases ys with
    | nil => rfl
    | cons y ys => simp only [allEqual, h x y, ih]

theorem allEqual_isSome (h : ∀ x ∈ xs, ∀ y, ∃ t, equal x y = some t) :
    ∃ t, allEqual equal xs ys = some t := by
  induction xs generalizing ys with
  | nil => cases ys <;> exact ⟨_, rfl⟩
  | cons x xs ih =>
    cases ys with
    | nil => exact ⟨_, rfl⟩
    | cons y ys =>
      obtain ⟨t, ht⟩ := h x List.mem_cons_self y
      cases t with
      | false => exact ⟨false, by simp [allEqual, ht]⟩
      | true =>
        obtain ⟨t, hrest⟩ : ∃ t, allEqual equal xs ys = some t :=
          ih fun x' hx' => h x' (List.mem_cons_of_mem x hx')
        exact ⟨t, by simp [allEqual, ht, hrest]⟩

theorem allEqual_mono {equal' : α → α → Option Bool} {t : Bool}
    (h : ∀ x y t, equal x y = some t → equal' x y = some t) (hall : allEqual equal xs ys = some t) :
    allEqual equal' xs ys = some t := by
  induction xs generalizing ys with
  | nil => cases ys <;> exact hall
  | cons x xs ih =>
    cases ys with
    | nil => exact hall
    | cons y ys =>
      rcases hxy : equal x y with _ | _ | _
      · simp [allEqual, hxy] at hall
      · simpa [allEqual, hxy, h x y _ hxy] using hall
      · simp only [allEqual, hxy, h x y _ hxy, Option.bind_eq_bind, Option.bind_some,
          if_true] at hall ⊢
        exact ih hall

end Lists

/-! ## Levels of nesting -/

variable {st : Store} {a b c v x : Value} {depth : Nat}

/-- Nothing that occurs in the value holds itself, however deep inside. -/
def Acyclic (st : Store) (v : Value) : Prop :=
  ∀ x, ReflTransGen st.Holds v x → ¬ TransGen st.Holds x x

/-- The value is nested within so many levels; a value that holds nothing needs one. -/
def NestedWithin (st : Store) : (levels : Nat) → Value → Prop
  | 0, _ => False
  | levels + 1, v => ∀ x, st.Holds v x → st.NestedWithin levels x

theorem NestedWithin.mono {levels levels' : Nat} (h : st.NestedWithin levels v)
    (hle : levels ≤ levels') : st.NestedWithin levels' v := by
  induction levels generalizing levels' v with
  | zero => exact h.elim
  | succ levels ih =>
    obtain ⟨levels', rfl⟩ := Nat.exists_eq_add_of_lt hle
    exact fun x hx => ih (h x hx) (by omega)

/-- What a value holds. -/
def parts (st : Store) : Value → List Value
  | .array ref => (st.cells ref).items.toList
  | .tuple ref => (st.slots ref).values
  | _ => []

theorem mem_parts : x ∈ st.parts v ↔ st.Holds v x := by
  cases v <;> simp [parts, Holds]

instance decidableNestedWithin (st : Store) :
    (levels : Nat) → (v : Value) → Decidable (st.NestedWithin levels v)
  | 0, _ => .isFalse id
  | levels + 1, v =>
    have := decidableNestedWithin st levels
    decidable_of_iff (∀ x ∈ st.parts v, st.NestedWithin levels x)
      ⟨fun h x hx => h x (mem_parts.mpr hx), fun h x hx => h x (mem_parts.mp hx)⟩

/-- As many levels as the deepest of the parts needs are enough for all of them. -/
theorem exists_nestedWithin_all {xs : List Value}
    (h : ∀ x ∈ xs, ∃ levels, st.NestedWithin levels x) :
    ∃ levels, ∀ x ∈ xs, st.NestedWithin levels x := by
  induction xs with
  | nil => exact ⟨0, by simp⟩
  | cons x xs ih =>
    obtain ⟨n, hn⟩ := h x List.mem_cons_self
    obtain ⟨k, hk⟩ := ih fun x' hx' => h x' (List.mem_cons_of_mem x hx')
    refine ⟨max n k, ?_⟩
    intro x' hx'
    rcases List.mem_cons.mp hx' with rfl | hx'
    · exact hn.mono (Nat.le_max_left n k)
    · exact (hk x' hx').mono (Nat.le_max_right n k)

/-- The containers of a store that hold something. -/
def Filled (st : Store) (v : Value) : Prop := ∃ x, st.Holds v x

/-- There are only finitely many of them. -/
theorem finite_filled (st : Store) : {v | st.Filled v}.Finite := by
  have hfinite : (Set.range (fun i : Fin st.arrays.size => Value.array i) ∪
      Set.range (fun i : Fin st.tuples.size => Value.tuple i)).Finite :=
    (Set.finite_range _).union (Set.finite_range _)
  refine hfinite.subset ?_
  rintro v ⟨x, hx⟩
  cases v with
  | array ref =>
    left
    by_cases href : ref < st.arrays.size
    · exact ⟨⟨ref, href⟩, rfl⟩
    · simp [Holds, cells, Array.getD, href] at hx
  | tuple ref =>
    right
    by_cases href : ref < st.tuples.size
    · exact ⟨⟨ref, href⟩, rfl⟩
    · simp [Holds, slots, Slots.values, Array.getD, href] at hx
  | scalar s => exact hx.elim
  | func ref => exact hx.elim

/-- An acyclic value is nested within some number of levels: a longer descent would come by the same
container twice. -/
theorem Acyclic.exists_nestedWithin (h : st.Acyclic v) : ∃ levels, st.NestedWithin levels v := by
  -- Only what holds something can go on, and there is finitely much of it, so descending is
  -- well-founded.
  let Occurring := {x : Value // st.Filled x ∧ ReflTransGen st.Holds v x}
  have : Finite Occurring := (st.finite_filled.subset fun x hx => hx.1).to_subtype
  let inside : Occurring → Occurring → Prop := fun x y => TransGen st.Holds y.1 x.1
  have : IsTrans Occurring inside := ⟨fun _ _ _ hxy hyz => hyz.trans hxy⟩
  have : Std.Irrefl inside := ⟨fun x hx => h x.1 x.2.2 hx⟩
  have hwf : WellFounded inside := Finite.wellFounded_of_trans_of_irrefl inside
  have hempty : ∀ x, ¬ st.Filled x → st.NestedWithin 1 x := fun x hx y hy => absurd ⟨y, hy⟩ hx
  have hfilled : ∀ x : Occurring, ∃ levels, st.NestedWithin levels x.1 := by
    intro x
    induction x using hwf.induction with
    | h x ih =>
      have hparts : ∀ y ∈ st.parts x.1, ∃ levels, st.NestedWithin levels y := by
        intro y hy
        have hy := mem_parts.mp hy
        by_cases hf : st.Filled y
        · exact ih ⟨y, hf, x.2.2.tail hy⟩ (.single hy)
        · exact ⟨1, hempty y hf⟩
      obtain ⟨levels, hlevels⟩ := exists_nestedWithin_all hparts
      exact ⟨levels + 1, fun y hy => hlevels y (mem_parts.mpr hy)⟩
  by_cases hf : st.Filled v
  · exact hfilled ⟨v, hf, .refl⟩
  · exact ⟨1, hempty v hf⟩

/-- What is inside a value needs fewer levels. -/
theorem NestedWithin.of_transGen {levels : Nat} (h : st.NestedWithin (levels + 1) v)
    (hx : TransGen st.Holds v x) : st.NestedWithin levels x := by
  induction hx with
  | single hx => exact h _ hx
  | tail _ hx ih =>
    cases levels with
    | zero => exact ih.elim
    | succ levels => exact (ih _ hx).mono (Nat.le_succ levels)

/-- A value is acyclic exactly if it is nested within some number of levels. -/
theorem acyclic_iff : st.Acyclic v ↔ ∃ levels, st.NestedWithin levels v := by
  refine ⟨Acyclic.exists_nestedWithin, ?_⟩
  rintro ⟨levels, h⟩ x hx hcycle
  have hnested : st.NestedWithin levels x := by
    cases levels with
    | zero => exact h.elim
    | succ levels =>
      rcases reflTransGen_iff_eq_or_transGen.mp hx with rfl | hx
      · exact h
      · exact (NestedWithin.of_transGen h hx).mono (Nat.le_succ levels)
  -- Going around the cycle takes one level each time.
  clear h hx
  induction levels with
  | zero => exact hnested
  | succ levels ih => exact ih (NestedWithin.of_transGen hnested hcycle)

/-! ## Equality -/

theorem equal_comm (depth : Nat) (a b : Value) : st.equal depth a b = st.equal depth b a := by
  induction depth generalizing a b with
  | zero => rfl
  | succ depth ih =>
    cases a <;> cases b <;> try rfl
    case scalar.scalar s t => rw [equal, equal, Scalar.equal_comm]
    case array.array i j =>
      simp only [equal, eq_comm (a := (st.cells j).items.size), allEqual_comm ih]
    case tuple.tuple i j =>
      have hslots : ∀ x y : Slot,
          (if x.name = y.name then st.equal depth x.value y.value else some false) =
            if y.name = x.name then st.equal depth y.value x.value else some false := by
        intro x y
        rw [ih x.value y.value]
        by_cases hname : x.name = y.name
        · simp [hname]
        · simp [hname, Ne.symm hname]
      simp only [equal, eq_comm (a := (st.slots j).entries.length), allEqual_comm hslots]
    case func.func i j => simp only [equal, eq_comm (a := j)]

/-- Arrays are equal if their elements are, one by one. -/
theorem equal_array_iff {i j : Nat} :
    st.equal (depth + 1) (.array i) (.array j) = some true ↔
      List.Forall₂ (fun x y => st.equal depth x y = some true) (st.cells i).items.toList
        (st.cells j).items.toList := by
  rw [equal, ← allEqual_eq_true_iff]
  by_cases hsize : (st.cells i).items.size = (st.cells j).items.size
  · rw [if_pos hsize]
  · rw [if_neg hsize, allEqual_eq_true_iff]
    refine ⟨nofun, fun h => absurd ?_ hsize⟩
    simpa using h.length_eq

/-- Tuples are equal if the names and the values of their entries are, one by one. -/
theorem equal_tuple_iff {i j : Nat} :
    st.equal (depth + 1) (.tuple i) (.tuple j) = some true ↔
      List.Forall₂ (fun x y : Slot => x.name = y.name ∧ st.equal depth x.value y.value = some true)
        (st.slots i).entries (st.slots j).entries := by
  have hslot : ∀ x y : Slot,
      (if x.name = y.name then st.equal depth x.value y.value else some false) = some true ↔
        x.name = y.name ∧ st.equal depth x.value y.value = some true := by
    intro x y
    by_cases hname : x.name = y.name <;> simp [hname]
  rw [equal]
  simp only [← hslot, ← allEqual_eq_true_iff]
  by_cases hlength : (st.slots i).entries.length = (st.slots j).entries.length
  · rw [if_pos hlength]
  · rw [if_neg hlength, allEqual_eq_true_iff]
    exact ⟨nofun, fun h => absurd h.length_eq hlength⟩

theorem forall₂_trans {α : Type} {R : α → α → Prop} (h : ∀ x y z, R x y → R y z → R x z)
    {xs ys zs : List α} (hxy : List.Forall₂ R xs ys) (hyz : List.Forall₂ R ys zs) :
    List.Forall₂ R xs zs := by
  induction hxy generalizing zs with
  | nil => exact hyz
  | cons hx _ ih =>
    cases hyz with
    | cons hy hyz => exact .cons (h _ _ _ hx hy) (ih hyz)

theorem equal_trans (hab : st.equal depth a b = some true) (hbc : st.equal depth b c = some true) :
    st.equal depth a c = some true := by
  induction depth generalizing a b c with
  | zero => cases hab
  | succ depth ih =>
    cases a with
    | scalar s =>
      cases b <;> try cases hab
      cases c <;> try cases hbc
      rw [equal, Option.some.injEq] at hab hbc ⊢
      exact Scalar.equal_trans hab hbc
    | array i =>
      cases b <;> try cases hab
      cases c <;> try cases hbc
      rw [equal_array_iff] at hab hbc ⊢
      refine forall₂_trans ?_ hab hbc
      exact fun x y z hxy hyz => ih hxy hyz
    | tuple i =>
      cases b <;> try cases hab
      cases c <;> try cases hbc
      rw [equal_tuple_iff] at hab hbc ⊢
      refine forall₂_trans ?_ hab hbc
      exact fun x y z hxy hyz => ⟨hxy.1.trans hyz.1, ih hxy.2 hyz.2⟩
    | func i =>
      cases b <;> try cases hab
      cases c <;> try cases hbc
      simp only [equal, Option.some.injEq, decide_eq_true_eq] at hab hbc ⊢
      exact hab.trans hbc

/-- The depth that one of two values needs is enough to compare them. -/
theorem equal_isSome (ha : st.NestedWithin depth a) (b : Value) :
    ∃ t, st.equal depth a b = some t := by
  induction depth generalizing a b with
  | zero => exact ha.elim
  | succ depth ih =>
    cases a <;> cases b <;> try exact ⟨_, rfl⟩
    case array.array i j =>
      rw [equal]
      split
      · exact allEqual_isSome fun x hx y => ih (ha x (Array.mem_def.mpr hx)) y
      · exact ⟨false, rfl⟩
    case tuple.tuple i j =>
      rw [equal]
      split
      · refine allEqual_isSome fun x hx y => ?_
        split
        · exact ih (ha x.value (List.mem_map_of_mem hx)) y.value
        · exact ⟨false, rfl⟩
      · exact ⟨false, rfl⟩

/-- A comparison that is decided stays as it is at a greater depth. -/
theorem equal_mono {depth' : Nat} {t : Bool} (h : st.equal depth a b = some t)
    (hle : depth ≤ depth') :
    st.equal depth' a b = some t := by
  induction depth generalizing depth' a b t with
  | zero => cases h
  | succ depth ih =>
    obtain ⟨extra, rfl⟩ := Nat.exists_eq_add_of_lt hle
    have hless : ∀ x y t, st.equal depth x y = some t → st.equal (depth + extra) x y = some t :=
      fun x y t hxy => ih hxy (by omega)
    cases a <;> cases b <;> try exact h
    case array.array i j =>
      rw [equal] at h ⊢
      split at h
      · rw [if_pos ‹_›]
        exact allEqual_mono hless h
      · rw [if_neg ‹_›]
        exact h
    case tuple.tuple i j =>
      rw [equal] at h ⊢
      split at h
      · rw [if_pos ‹_›]
        refine allEqual_mono ?_ h
        intro x y t hxy
        split at hxy
        · rw [if_pos ‹_›]
          exact hless _ _ _ hxy
        · rw [if_neg ‹_›]
          exact hxy
      · rw [if_neg ‹_›]
        exact h

/-- No NaN occurs in the value. -/
def NanFree (st : Store) (v : Value) : Prop :=
  ∀ x, ReflTransGen st.Holds v (.scalar (.real x)) → Real.shape x ≠ .nan

theorem NanFree.of_holds (h : st.NanFree v) (hx : st.Holds v x) : st.NanFree x :=
  fun y hy => h y (.head hx hy)

theorem nanFree_iff :
    st.NanFree v ↔ (∀ x, v = .scalar (.real x) → Real.shape x ≠ .nan) ∧
      ∀ y ∈ st.parts v, st.NanFree y := by
  constructor
  · intro h
    refine ⟨?_, fun y hy => h.of_holds (mem_parts.mp hy)⟩
    rintro x rfl
    exact h x .refl
  · rintro ⟨hself, hparts⟩ x hx
    rcases ReflTransGen.cases_head hx with rfl | ⟨y, hy, hx⟩
    · exact hself x rfl
    · exact hparts y (mem_parts.mpr hy) x hx

theorem equal_self (ha : st.NestedWithin depth a) (hnan : st.NanFree a) :
    st.equal depth a a = some true := by
  induction depth generalizing a with
  | zero => exact ha.elim
  | succ depth ih =>
    cases a with
    | scalar s =>
      rw [equal, Option.some.injEq]
      refine Scalar.equal_self ?_
      rintro x rfl
      exact hnan x .refl
    | array i =>
      rw [equal_array_iff, List.forall₂_same]
      intro x hx
      have hholds : st.Holds (.array i) x := Array.mem_def.mpr hx
      exact ih (ha x hholds) (hnan.of_holds hholds)
    | tuple i =>
      rw [equal_tuple_iff, List.forall₂_same]
      intro x hx
      have hholds : st.Holds (.tuple i) x.value := List.mem_map_of_mem hx
      exact ⟨rfl, ih (ha _ hholds) (hnan.of_holds hholds)⟩
    | func i => simp [equal]

end Store

/-! ## Comparing -/

/-- Whether two values may be compared for equality: they are both numbers, or of one kind. -/
def Value.comparable (a b : Value) : Bool :=
  (a.kind.isNumeric && b.kind.isNumeric) || a.kind = b.kind

theorem Value.comparable_eq_false_iff {a b : Value} :
    a.comparable b = false ↔
      a.kind ≠ b.kind ∧ ¬ (a.kind.isNumeric = true ∧ b.kind.isNumeric = true) := by
  simp [comparable, and_comm]

theorem Value.comparable_comm (a b : Value) : a.comparable b = b.comparable a := by
  simp only [comparable, Bool.and_comm, eq_comm (a := a.kind)]

/-- What comparing two values by an operator gives; nothing if it fails. -/
def Machine.compare (m : Machine) (depth : Nat) (op : String) (a b : Value) : Option Value :=
  (Eval.binary depth op a b m).1.toOption

variable {m : Machine} {depth : Nat} {op : String} {negated t : Bool} {a b : Value}

/-- Values of one kind that are not both scalars are compared by their contents. -/
theorem Eval.combine_equality (hop : BinaryOp.ofText? op = some (.equality negated))
    (ht : m.store.equal depth a b = some t) :
    Eval.combine depth op a b m =
      if a.kind = b.kind then (.ok (.bool (t != negated)), m)
      else (.error (.ofError (.incomparable a.kind b.kind)), m) := by
  unfold Eval.combine
  rw [hop]
  by_cases hkind : a.kind = b.kind
  · simp only [hkind, if_true]
    show (Eval.ofBounded (m.store.equal depth a b) >>= _ : Eval Value) m = _
    rw [ht]
    rfl
  · simp only [hkind, if_false]
    rfl

/-- An equality of scalars makes no string, so there is always room for it. -/
theorem Scalar.binary_equality (hop : BinaryOp.ofText? op = some (.equality negated))
    (x y : Scalar) :
    Scalar.binary op x y =
      if x.comparable y then .ok (.bool (x.equal y != negated))
      else .error (.ofError (.incomparable x.kind y.kind)) := by
  unfold binary combine
  rw [hop]
  by_cases hcomparable : x.comparable y = true
  · simp only [if_pos hcomparable]
  · simp only [if_neg hcomparable]

/-- An equality that is decided within the depth compares what is comparable, and fails
otherwise. -/
theorem Machine.compare_equality (hop : BinaryOp.ofText? op = some (.equality negated))
    (ht : m.store.equal depth a b = some t) :
    m.compare depth op a b = if a.comparable b then some (.bool (t != negated)) else none := by
  obtain ⟨depth, rfl⟩ : ∃ d, depth = d + 1 := by
    cases depth with
    | zero => cases ht
    | succ depth => exact ⟨depth, rfl⟩
  -- Two scalars are compared by a rule of their own, which allows numbers of different kinds.
  have hcontents : ∀ (_ : a.kind.isNumeric = false ∨ b.kind.isNumeric = false),
      (Eval.combine (depth + 1) op a b m).1.toOption =
        if a.comparable b then some (.bool (t != negated)) else none := by
    intro hnumeric
    have hcomparable : a.comparable b = decide (a.kind = b.kind) := by
      rcases hnumeric with h | h <;> simp [Value.comparable, h]
    rw [Eval.combine_equality hop ht, hcomparable]
    by_cases hkind : a.kind = b.kind <;> simp [hkind] <;> rfl
  cases a with
  | scalar s =>
    cases b with
    | scalar s' =>
      cases ht
      show ((Eval.ofOutcome (Scalar.binary op s s') >>= _ : Eval Value) m).1.toOption = _
      rw [Scalar.binary_equality hop]
      show _ = if s.comparable s' then _ else _
      by_cases hcomparable : s.comparable s' = true
      · rw [if_pos hcomparable, if_pos hcomparable]
        rfl
      · rw [if_neg hcomparable, if_neg hcomparable]
        rfl
    | array j => exact hcontents (Or.inr rfl)
    | tuple j => exact hcontents (Or.inr rfl)
    | func j => exact hcontents (Or.inr rfl)
  | array i => exact hcontents (Or.inl rfl)
  | tuple i => exact hcontents (Or.inl rfl)
  | func i => exact hcontents (Or.inl rfl)

/-- Only what is comparable is equal. -/
theorem Store.comparable_of_equal {st : Store} (h : st.equal depth a b = some true) :
    a.comparable b = true := by
  cases depth with
  | zero => cases h
  | succ depth =>
    cases a <;> cases b <;> try cases h
    case scalar.scalar s s' =>
      rw [Store.equal, Option.some.injEq] at h
      cases s <;> cases s' <;> first | rfl | cases h
    all_goals rfl

theorem Machine.compare_eq_true_iff (ht : m.store.equal depth a b = some t) :
    m.compare depth "=" a b = some (.bool true) ↔ m.store.equal depth a b = some true := by
  have hop : BinaryOp.ofText? "=" = some (.equality false) := rfl
  rw [compare_equality hop ht, ht]
  cases t with
  | false => cases a.comparable b <;> simp [Value.bool]
  | true => simp [Store.comparable_of_equal ht]

/-- Equality is a partial equivalence, and it fails at the top only. Take two acyclic values, and a
third. From some depth on, comparing them goes as follows. It fails if and only if the two values
are of different kinds and not both numbers, whatever they hold, and otherwise gives a boolean.
Swapping them changes nothing, what is equal to an equal is equal, and a value in which no NaN
occurs is equal to itself. Both spellings of equality agree, and both spellings of its negation fail
as it fails and give the other boolean where it gives one. -/
theorem equality_is_partial_equivalence (m : Machine) (a b c : Value) (ha : m.store.Acyclic a)
    (hb : m.store.Acyclic b) :
    ∃ enough, ∀ depth, enough ≤ depth →
      (m.compare depth "=" a b = none ↔
        a.kind ≠ b.kind ∧ ¬ (a.kind.isNumeric = true ∧ b.kind.isNumeric = true)) ∧
      (∀ v, m.compare depth "=" a b = some v → v = .bool true ∨ v = .bool false) ∧
      m.compare depth "=" a b = m.compare depth "=" b a ∧
      (m.compare depth "=" a b = some (.bool true) → m.compare depth "=" b c = some (.bool true) →
        m.compare depth "=" a c = some (.bool true)) ∧
      (m.store.NanFree a → m.compare depth "=" a a = some (.bool true)) ∧
      m.compare depth "==" a b = m.compare depth "=" a b ∧
      ∀ op ∈ ["!=", "/="],
        (m.compare depth op a b = none ↔ m.compare depth "=" a b = none) ∧
        ∀ t, m.compare depth op a b = some (.bool t) ↔
          m.compare depth "=" a b = some (.bool !t) := by
  obtain ⟨la, hla⟩ := ha.exists_nestedWithin
  obtain ⟨lb, hlb⟩ := hb.exists_nestedWithin
  refine ⟨max la lb, fun depth hdepth => ?_⟩
  have hna := hla.mono (le_trans (Nat.le_max_left la lb) hdepth)
  have hnb := hlb.mono (le_trans (Nat.le_max_right la lb) hdepth)
  obtain ⟨t, hab⟩ := Store.equal_isSome hna b
  obtain ⟨u, hbc⟩ := Store.equal_isSome hnb c
  obtain ⟨w, hac⟩ := Store.equal_isSome hna c
  obtain ⟨s, haa⟩ := Store.equal_isSome hna a
  have hba : m.store.equal depth b a = some t := (Store.equal_comm depth b a).trans hab
  have hop : BinaryOp.ofText? "=" = some (.equality false) := rfl
  have hop' : BinaryOp.ofText? "==" = some (.equality false) := rfl
  have heq : m.compare depth "=" a b = if a.comparable b then some (.bool t) else none := by
    rw [Machine.compare_equality hop hab, Bool.bne_false]
  refine ⟨?_, ?_, ?_, ?_, ?_, ?_, ?_⟩
  · rw [heq, ← Value.comparable_eq_false_iff]
    cases a.comparable b <;> simp
  · intro v hv
    rw [heq] at hv
    cases t <;> cases hcomparable : a.comparable b <;> simp_all
  · rw [heq, Machine.compare_equality hop hba, Value.comparable_comm, Bool.bne_false]
  · rw [Machine.compare_eq_true_iff hab, Machine.compare_eq_true_iff hbc,
      Machine.compare_eq_true_iff hac]
    exact Store.equal_trans
  · rw [Machine.compare_eq_true_iff haa]
    exact Store.equal_self hna
  · rw [heq, Machine.compare_equality hop' hab, Bool.bne_false]
  · intro op hop
    have hne : m.compare depth op a b = if a.comparable b then some (.bool !t) else none := by
      have htext : BinaryOp.ofText? op = some (.equality true) := by
        rcases List.mem_pair.mp hop with rfl | rfl <;> rfl
      rw [Machine.compare_equality htext hab, Bool.bne_true]
    rw [heq, hne]
    cases a.comparable b with
    | false => simp
    | true =>
      refine ⟨by simp, fun t' => ?_⟩
      cases t <;> cases t' <;> simp [Value.bool]

/-- `[9007199254740992, {x := 1, y := [2.5]}]` twice, once with the numbers as integers and once
with the first two as reals: the arrays are equal both ways, to each other and to themselves,
although the numbers in them are of different kinds, and neither can be compared with a number. -/
theorem equality_is_partial_equivalence_mixed :
    let pair (x : Value) : Slots :=
      (Slots.of [⟨some "x", x⟩, ⟨some "y", .array 2⟩]).toOption.getD .empty
    let m : Machine := ⟨⟨#[⟨#[.int 9007199254740992, .tuple 0]⟩,
      ⟨#[.scalar (.real 9007199254740992.0), .tuple 1]⟩, ⟨#[.scalar (.real 2.5)]⟩],
      #[pair (.int 1), pair (.scalar (.real 1.0))], #[], .single⟩, ""⟩
    m.store.Acyclic (.array 0) ∧ m.store.Acyclic (.array 1) ∧ m.store.NanFree (.array 0) ∧
      ∃ depth, m.compare depth "=" (.array 0) (.array 1) = some (.bool true) ∧
        m.compare depth "=" (.array 1) (.array 0) = some (.bool true) ∧
        m.compare depth "=" (.array 0) (.array 0) = some (.bool true) ∧
        m.compare depth "/=" (.array 0) (.array 1) = some (.bool false) ∧
        m.compare depth "=" (.array 0) (.int 1) = none := by
  intro pair m
  have hpair : (m.store.slots 0).values = [.int 1, .array 2] := rfl
  have ha : m.store.Acyclic (.array 0) := Store.acyclic_iff.mpr ⟨4, by decide⟩
  have hb : m.store.Acyclic (.array 1) := Store.acyclic_iff.mpr ⟨4, by decide⟩
  have hnan : m.store.NanFree (.array 0) := by
    have hint : ∀ n, m.store.NanFree (.int n) := fun n =>
      Store.nanFree_iff.mpr ⟨by simp [Value.int], by simp [Store.parts, Value.int]⟩
    have hreal : m.store.NanFree (.scalar (.real 2.5)) :=
      Store.nanFree_iff.mpr ⟨by rintro x ⟨⟩; decide, by simp [Store.parts]⟩
    have harray : m.store.NanFree (.array 2) :=
      Store.nanFree_iff.mpr ⟨by simp, by simpa [Store.parts, Store.cells, m] using hreal⟩
    have htuple : m.store.NanFree (.tuple 0) := Store.nanFree_iff.mpr
      ⟨by simp, by simpa [Store.parts, hpair] using ⟨hint 1, harray⟩⟩
    exact Store.nanFree_iff.mpr
      ⟨by simp, by simpa [Store.parts, Store.cells, m] using ⟨hint _, htuple⟩⟩
  obtain ⟨k, hk⟩ := equality_is_partial_equivalence m (.array 0) (.array 1) (.array 0) ha hb
  obtain ⟨l, hl⟩ := equality_is_partial_equivalence m (.array 0) (.int 1) (.array 0) ha
    (Store.acyclic_iff.mpr ⟨1, by decide⟩)
  obtain ⟨-, -, hswap, -, hself, -, hne⟩ := hk (k + l + 4) (by omega)
  obtain ⟨hfails, -⟩ := hl (k + l + 4) (by omega)
  have heq : m.compare (k + l + 4) "=" (.array 0) (.array 1) = some (.bool true) := by
    have hshallow : m.store.equal 4 (.array 0) (.array 1) = some true := by decide +kernel
    have hcells : m.store.equal (k + l + 4) (.array 0) (.array 1) = some true :=
      Store.equal_mono hshallow (by omega)
    exact (Machine.compare_eq_true_iff hcells).mpr hcells
  refine ⟨ha, hb, hnan, k + l + 4, heq, hswap ▸ heq, hself hnan, ?_, ?_⟩
  · exact ((hne "/=" (by simp)).2 false).mpr heq
  · exact hfails.mpr (by decide)

end Dee
