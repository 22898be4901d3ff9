import Dee.Proofs.Eval.Moment
import Dee.Proofs.Store.Acts

/-!
# Loops over items

A loop with a variable first fixes its items: the integers of a range, or the elements that a
container has then. It then takes a turn for one item after the other. `Runner.Iterates` spells the
turns out: each opens a frame under the frame of the loop, and its body runs there. Whatever the
bodies do, the frames bind the variable to the items in order, and only an exit, a return or a
failure leaves items out.

Main statements: `Runner.exec_forLoop` and `Runner.Iterates.laws`.
-/

namespace Dee

open Eval

theorem Eval.bind_eq_ok {α β : Type} {x : Eval α} {f : α → Eval β} {b : β} {m m' : Machine} :
    (x >>= f) m = (.ok b, m') ↔ ∃ a m₁, x m = (.ok a, m₁) ∧ f a m₁ = (.ok b, m') := by
  rcases hx : x m with ⟨result, m₁⟩
  cases result with
  | ok a =>
    rw [bind_apply_ok hx]
    constructor
    · intro h
      exact ⟨a, m₁, rfl, h⟩
    · rintro ⟨_, _, ⟨⟩, h⟩
      exact h
  | error f =>
    rw [bind_apply_error hx]
    constructor
    · rintro ⟨⟩
    · rintro ⟨_, _, ⟨⟩, -⟩

/-- The integers from `a` to `b`, both included: upwards if `a ≤ b`, else downwards. -/
def integersFromTo (a b : Int) : List Int :=
  (List.range ((b - a).natAbs + 1)).map fun k : Nat => if a ≤ b then a + k else a - k

theorem Items.toList_ofRange (a b : Int) :
    (Items.ofRange a b).toList = (integersFromTo a b).map Value.int := by
  simp only [toList, ofRange, integersFromTo, List.map_map]
  refine List.map_congr_left fun k _ => ?_
  by_cases h : a ≤ b
  · simp [h]
  · simp [h]

/-- The value that a frame itself binds to a name. -/
def Machine.bound? (m : Machine) (frame : Nat) (name : String) : Option Value :=
  m.store.frames.frames[frame]?.bind (·.value? name)

/-- A turn of a loop: the frame that is opened for it and the machine on which its body starts. -/
structure Iteration where
  frame : Nat
  start : Machine

theorem Eval.locating_eq {α : Type} (pos : Pos) (x : Eval α) (m : Machine) :
    locating pos x m = ((x m).1.mapError (·.placeAt pos), (x m).2) := by
  rcases hx : x m with ⟨result, m'⟩
  cases result with
  | ok a => exact locating_apply_ok hx
  | error f => exact locating_eq_error.mpr ⟨f, hx, rfl⟩

namespace Runner

variable {r : Runner} {outer : Nat} {v : String} {body : Block} {m m₁ m' : Machine}

/-! ## Items -/

/-- The items that a loop runs over, and the machine on which its first turn begins. -/
inductive Fixes (r : Runner) (outer : Nat) (iterable : Expr) (m : Machine) :
    (rangeEnd : Option Expr) → (items : List Value) → (m' : Machine) → Prop
  | range {last : Expr} {a b : Int} {m₁ m₂ : Machine}
      (hfirst : r.eval iterable outer m = (.ok (.int a), m₁))
      (hlast : r.eval last outer m₁ = (.ok (.int b), m₂)) :
      Fixes r outer iterable m (some last) ((integersFromTo a b).map Value.int) m₂
  | array {ref : Nat} {m₁ : Machine} (h : r.eval iterable outer m = (.ok (.array ref), m₁)) :
      Fixes r outer iterable m none (m₁.store.cells ref).items.toList m₁
  | tuple {ref : Nat} {m₁ : Machine} (h : r.eval iterable outer m = (.ok (.tuple ref), m₁)) :
      Fixes r outer iterable m none (m₁.store.slots ref).values m₁

theorem Fixes.itemsOf {iterable : Expr} {rangeEnd : Option Expr} {xs : List Value}
    (h : r.Fixes outer iterable m rangeEnd xs m₁) :
    ∃ items : Items, items.toList = xs ∧
      r.itemsOf outer iterable rangeEnd m = (.ok items, m₁) := by
  cases h with
  | @range last a b m₂ _ hfirst hlast =>
    refine ⟨.ofRange a b, Items.toList_ofRange a b, ?_⟩
    rw [Runner.itemsOf, bind_apply_ok hfirst]
    exact bind_apply_ok hlast
  | @array ref _ h =>
    refine ⟨.ofArray (m₁.store.cells ref).items, Items.toList_ofArray _, ?_⟩
    rw [itemsOf_none, bind_apply_ok h]
    rfl
  | @tuple ref _ h =>
    refine ⟨.ofArray (m₁.store.slots ref).values.toArray, Items.toList_ofArray _, ?_⟩
    rw [itemsOf_none, bind_apply_ok h]
    rfl

theorem fixes_of_itemsOf {iterable : Expr} {rangeEnd : Option Expr} {items : Items}
    (h : r.itemsOf outer iterable rangeEnd m = (.ok items, m₁)) :
    ∃ xs, r.Fixes outer iterable m rangeEnd xs m₁ := by
  cases rangeEnd with
  | some last =>
    obtain ⟨x, m₂, hx, h⟩ := bind_eq_ok.mp h
    obtain ⟨a, m₃, ha, h⟩ := bind_eq_ok.mp h
    obtain ⟨y, m₄, hy, h⟩ := bind_eq_ok.mp h
    obtain ⟨b, m₅, hb, h⟩ := bind_eq_ok.mp h
    cases h
    obtain ⟨rfl, rfl⟩ := (leads_ok_iff ha).mp (leads_requireInt _ _)
    obtain ⟨rfl, rfl⟩ := (leads_ok_iff hb).mp (leads_requireInt _ _)
    exact ⟨_, .range hx hy⟩
  | none =>
    obtain ⟨container, m₂, hcontainer, h⟩ := bind_eq_ok.mp h
    cases container with
    | array ref =>
      cases h
      exact ⟨_, .array hcontainer⟩
    | tuple ref =>
      cases h
      exact ⟨_, .tuple hcontainer⟩
    | scalar s => cases h
    | func ref => cases h

/-! ## Turns -/

/-- The turns that a loop over the items takes, and how it ends. -/
inductive Iterates (r : Runner) (outer : Nat) (v : String) (body : Block) :
    (items : List Value) → (m : Machine) → List Iteration → Except Failure (Option Signal) →
      (m' : Machine) → Prop
  | done {m : Machine} : Iterates r outer v body [] m [] (.ok none) m
  | next {x : Value} {items : List Value} {turn : Iteration} {turns : List Iteration}
      {signal : Option Signal} {result : Except Failure (Option Signal)} {m m₁ m' : Machine}
      (hopen : turnFrame outer (some v) x m = (.ok turn.frame, turn.start))
      (hbody : r.exec (.block body) turn.frame turn.start = (.ok signal, m₁))
      (hsignal : signal = none ∨ signal = some .nextTurn)
      (h : Iterates r outer v body items m₁ turns result m') :
      Iterates r outer v body (x :: items) m (turn :: turns) result m'
  | exit {x : Value} {items : List Value} {turn : Iteration} {m m' : Machine}
      (hopen : turnFrame outer (some v) x m = (.ok turn.frame, turn.start))
      (hbody : r.exec (.block body) turn.frame turn.start = (.ok (some .exitLoop), m')) :
      Iterates r outer v body (x :: items) m [turn] (.ok none) m'
  | leave {x value : Value} {items : List Value} {turn : Iteration} {m m' : Machine}
      (hopen : turnFrame outer (some v) x m = (.ok turn.frame, turn.start))
      (hbody : r.exec (.block body) turn.frame turn.start = (.ok (some (.leave value)), m')) :
      Iterates r outer v body (x :: items) m [turn] (.ok (some (.leave value))) m'
  | fail {x : Value} {items : List Value} {turn : Iteration} {f : Failure} {m m' : Machine}
      (hopen : turnFrame outer (some v) x m = (.ok turn.frame, turn.start))
      (hbody : r.exec (.block body) turn.frame turn.start = (.error f, m')) :
      Iterates r outer v body (x :: items) m [turn] (.error f) m'

variable {x : Value} {items : List Value} {turn : Iteration} {turns : List Iteration}
  {result : Except Failure (Option Signal)}

theorem itemTurn_ok {signal : Option Signal}
    (hopen : turnFrame outer (some v) x m = (.ok turn.frame, turn.start))
    (hbody : r.exec (.block body) turn.frame turn.start = (.ok signal, m')) :
    r.itemTurn outer (some v) body x m = (.ok (.ofSignal signal), m') := by
  rw [itemTurn_eq, bind_apply_ok hopen, plainTurn, bind_apply_ok hbody]
  rfl

theorem itemTurn_error {f : Failure}
    (hopen : turnFrame outer (some v) x m = (.ok turn.frame, turn.start))
    (hbody : r.exec (.block body) turn.frame turn.start = (.error f, m')) :
    r.itemTurn outer (some v) body x m = (.error f, m') := by
  rw [itemTurn_eq, bind_apply_ok hopen, plainTurn, bind_apply_error hbody]

/-- The turns that are taken from the item number `next` on. -/
theorem exists_iterates (r : Runner) (outer : Nat) (v : String) (body : Block) (items : Items)
    (remaining next : Nat) (m : Machine) :
    ∃ turns, r.Iterates outer v body ((List.range' next remaining).map items.item) m turns
      (items.takeFrom (r.itemTurn outer (some v) body) remaining next m).1
      (items.takeFrom (r.itemTurn outer (some v) body) remaining next m).2 := by
  induction remaining generalizing next m with
  | zero => exact ⟨[], .done⟩
  | succ remaining ih =>
    rw [List.range'_succ, List.map_cons, Items.takeFrom]
    obtain ⟨turn, hopen⟩ : ∃ turn : Iteration,
        turnFrame outer (some v) (items.item next) m = (.ok turn.frame, turn.start) :=
      ⟨⟨_, _⟩, turnFrame_some outer v (items.item next) m⟩
    -- Opening the frame cannot fail, so the outcome of the body tells how the loop goes on.
    rcases hbody : r.exec (.block body) turn.frame turn.start with ⟨outcome, m₁⟩
    cases outcome with
    | error f =>
      rw [bind_apply_error (itemTurn_error hopen hbody)]
      exact ⟨_, .fail hopen hbody⟩
    | ok signal =>
      rw [bind_apply_ok (itemTurn_ok hopen hbody)]
      obtain ⟨turns, hturns⟩ := ih (next + 1) m₁
      rcases signal with - | - | - | value
      · exact ⟨_, .next hopen hbody (Or.inl rfl) hturns⟩
      · exact ⟨_, .exit hopen hbody⟩
      · exact ⟨_, .next hopen hbody (Or.inr rfl) hturns⟩
      · exact ⟨_, .leave hopen hbody⟩

/-- A loop whose items are fixed takes turns over them, and gives what the last turn leaves. -/
theorem exec_forLoop {turns depth : Nat} {iterable : Expr} {rangeEnd : Option Expr}
    {items : List Value}
    (hfixes : (ofDepth turns depth).Fixes outer iterable m rangeEnd items m₁)
    (pos : Pos) (v : String)
    (body : Block) :
    ∃ iterations result m', (ofDepth turns depth).Iterates outer v body items m₁
      iterations result m' ∧
      (ofDepth turns (depth + 1)).exec
        (.forLoop pos (some v) body (some iterable) rangeEnd) outer m =
        (result.mapError (·.placeAt pos), m') := by
  obtain ⟨its, rfl, hitems⟩ := hfixes.itemsOf
  obtain ⟨iterations, h⟩ := exists_iterates (ofDepth turns depth) outer v body its its.count 0 m₁
  rw [← List.range_eq_range'] at h
  refine ⟨iterations, _, _, h, ?_⟩
  show locating pos ((ofDepth turns depth).itemsOf outer iterable rangeEnd >>= _) m = _
  rw [locating_eq, bind_apply_ok hitems]
  rfl

/-- A loop whose items cannot be fixed fails. -/
theorem exec_forLoop_fails {turns depth : Nat} {iterable : Expr} {rangeEnd : Option Expr}
    (hfixes : ∀ items m₁, ¬ (ofDepth turns depth).Fixes outer iterable m rangeEnd items m₁)
    (pos : Pos)
    (v : String) (body : Block) :
    ∃ f m', (ofDepth turns (depth + 1)).exec (.forLoop pos (some v) body (some iterable) rangeEnd)
      outer m = (.error f, m') := by
  rcases hitems : (ofDepth turns depth).itemsOf outer iterable rangeEnd m with ⟨result, m₁⟩
  cases result with
  | ok items =>
    obtain ⟨xs, h⟩ := fixes_of_itemsOf hitems
    exact absurd h (hfixes xs m₁)
  | error f =>
    refine ⟨f.placeAt pos, m₁, ?_⟩
    show locating pos ((ofDepth turns depth).itemsOf outer iterable rangeEnd >>= _) m = _
    rw [locating_eq, bind_apply_error hitems]
    rfl

/-! ## What the turns have in common -/

/-- The body of a turn ends the loop: by an exit, by a return or by a failure. -/
def EndsLoop (r : Runner) (body : Block) (turn : Iteration) : Prop :=
  let outcome := (r.exec (.block body) turn.frame turn.start).1
  outcome = .ok (some .exitLoop) ∨ (∃ x, outcome = .ok (some (.leave x))) ∨ ∃ f, outcome = .error f

theorem frame_of_turnFrame (hopen : turnFrame outer (some v) x m = (.ok turn.frame, turn.start)) :
    turn.frame = m.store.frames.frames.size ∧ turn.start = m.withFrame outer [(v, x)] := by
  rw [turnFrame_some] at hopen
  cases turn
  cases hopen
  exact ⟨rfl, rfl⟩

theorem getElem?_of_turnFrame
    (hopen : turnFrame outer (some v) x m = (.ok turn.frame, turn.start)) :
    turn.start.store.frames.frames[turn.frame]? = some ⟨some outer, [(v, x)]⟩ := by
  obtain ⟨hframe, hstart⟩ := frame_of_turnFrame hopen
  rw [hframe, hstart, Machine.getElem?_withFrame_size]

/-- The frames bind the variable to the items in order, and nothing else. -/
theorem Iterates.frames (h : r.Iterates outer v body items m turns result m') :
    turns.map (fun turn => turn.start.store.frames.frames[turn.frame]?) =
      (items.take turns.length).map fun x => some ⟨some outer, [(v, x)]⟩ := by
  induction h with
  | done => rfl
  | next hopen _ _ _ ih => simp [getElem?_of_turnFrame hopen, ih]
  | exit hopen | leave hopen | fail hopen => simp [getElem?_of_turnFrame hopen]

/-- Only a turn that ends the loop leaves items out. -/
theorem Iterates.whole (h : r.Iterates outer v body items m turns result m') :
    turns.length = items.length ∨ ∃ turn ∈ turns.getLast?, r.EndsLoop body turn := by
  induction h with
  | done => exact Or.inl rfl
  | next _ _ _ _ ih =>
    rcases ih with hlength | ⟨turn, hlast, hends⟩
    · exact Or.inl (by simp [hlength])
    · refine Or.inr ⟨turn, ?_, hends⟩
      rw [List.getLast?_cons, Option.mem_def.mp hlast]
      rfl
  | exit _ hbody => exact Or.inr ⟨_, rfl, Or.inl (congrArg Prod.fst hbody)⟩
  | leave _ hbody => exact Or.inr ⟨_, rfl, Or.inr (Or.inl ⟨_, congrArg Prod.fst hbody⟩)⟩
  | fail _ hbody => exact Or.inr ⟨_, rfl, Or.inr (Or.inr ⟨_, congrArg Prod.fst hbody⟩)⟩

/-- Frames are never removed, whatever code runs. -/
theorem size_le_of_evolves {test : NodeTest} (h : Machine.Evolves test m m') (hm : m.Passes test) :
    m.store.frames.frames.size ≤ m'.store.frames.frames.size := by
  refine h.keeps hm (P := fun m' => m.store.frames.frames.size ≤ m'.store.frames.frames.size) ?_
    (Nat.le_refl _)
  intro m₁ m₂ hchange hle
  cases hchange with
  | contents _ hframes =>
    rw [hframes]
    exact hle
  | function => exact hle
  | frame =>
    simp only [Machine.withFrame, Array.size_push]
    omega
  | declare | initial | assign => simpa [Store.modifyFrames] using hle

/-- The frames of the turns are all new, each of them newer than those before. -/
theorem Iterates.opened (hr : r.Evolving .trivial)
    (h : r.Iterates outer v body items m turns result m') :
    (∀ turn ∈ turns, m.store.frames.frames.size ≤ turn.frame) ∧
      turns.Pairwise fun a b => a.frame < b.frame := by
  induction h with
  | done => exact ⟨by simp, .nil⟩
  | @next x items turn turns signal result m m₁ m' hopen hbody _ _ ih =>
    obtain ⟨hframe, hstart⟩ := frame_of_turnFrame hopen
    have hsize : turn.start.store.frames.frames.size ≤ m₁.store.frames.frames.size :=
      size_le_of_evolves ((hr.exec (Stmt.passes_trivial _) _).ok hbody) (Machine.passes_trivial _)
    have hnext : turn.frame < m₁.store.frames.frames.size := by
      rw [hstart, Machine.withFrame, Array.size_push] at hsize
      omega
    refine ⟨?_, List.pairwise_cons.mpr ⟨?_, ih.2⟩⟩
    · intro turn' hturn'
      rcases List.mem_cons.mp hturn' with rfl | hturn'
      · omega
      · have := ih.1 turn' hturn'
        omega
    · intro turn' hturn'
      have := ih.1 turn' hturn'
      omega
  | exit hopen | leave hopen | fail hopen =>
    refine ⟨?_, List.pairwise_singleton _ _⟩
    intro turn hturn
    cases List.mem_singleton.mp hturn
    exact Nat.le_of_eq (frame_of_turnFrame hopen).1.symm

/-- What holds of the turns of a loop over items, whatever their bodies do. -/
structure IterationLaws (r : Runner) (outer : Nat) (v : String) (body : Block) (items : List Value)
    (m : Machine) (turns : List Iteration) : Prop where
  /-- The frames bind the variable to the items in order, and nothing else. -/
  frames : turns.map (fun turn => turn.start.store.frames.frames[turn.frame]?) =
    (items.take turns.length).map fun x => some ⟨some outer, [(v, x)]⟩
  /-- No frame existed before the loop. -/
  opened : ∀ turn ∈ turns, m.store.frames.frames.size ≤ turn.frame
  /-- No two turns share a frame. -/
  distinct : turns.Pairwise fun a b => a.frame < b.frame
  /-- Only a turn that ends the loop leaves items out. -/
  whole : turns.length = items.length ∨ ∃ turn ∈ turns.getLast?, r.EndsLoop body turn

theorem Iterates.laws (hr : r.Evolving .trivial)
    (h : r.Iterates outer v body items m turns result m') :
    r.IterationLaws outer v body items m turns :=
  ⟨h.frames, (h.opened hr).1, (h.opened hr).2, h.whole⟩

end Runner

end Dee
