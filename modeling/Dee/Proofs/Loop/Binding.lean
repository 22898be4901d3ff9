import Dee.Proofs.Loop.Items
import Dee.Proofs.Loop.Kept

/-!
# The binding of an iteration

In a program that leaves the variable of a loop alone, the frame of each turn binds the variable to
its item for the rest of the run. Code in the scope of a turn finds the variable there, also when it
stands in a function that is made in the turn and called at any time later.

Main statement: `iterations_own_their_bindings`.
-/

namespace Dee

open Eval

/-! ## Turns as parts of a loop -/

namespace Runner

variable {r : Runner} {outer : Nat} {v : String} {body : Block} {m m' : Machine} {turn : Iteration}
  {turns : List Iteration} {result : Except Failure (Option Signal)}

/-- The loop comes to each of its turns. -/
theorem Iterates.comes {items : Items} {next remaining k : Nat}
    (h : r.Iterates outer v body ((List.range' next remaining).map items.item) m turns result m')
    (hk : turns[k]? = some turn) :
    ∃ m₁, Comes (fun k => GoesOn (r.itemTurn outer (some v) body (items.item k)))
        (List.range' next remaining) m (next + k) m₁ ∧
      turnFrame outer (some v) (items.item (next + k)) m₁ = (.ok turn.frame, turn.start) := by
  induction remaining generalizing next m turns k with
  | zero =>
    cases h
    cases hk
  | succ remaining ih =>
    rw [List.range'_succ, List.map_cons] at h
    rw [List.range'_succ]
    cases h with
    | @next _ _ first rest signal _ _ m₁ _ hopen hbody hsignal h =>
      cases k with
      | zero =>
        cases hk
        exact ⟨m, .head, hopen⟩
      | succ k =>
        obtain ⟨m₂, hcomes, hopen'⟩ := ih h hk
        have hgoes : GoesOn (r.itemTurn outer (some v) body (items.item next)) m m₁ := by
          rw [GoesOn, itemTurn_ok hopen hbody]
          rcases hsignal with rfl | rfl
          · rfl
          · rfl
        rw [show next + (k + 1) = next + 1 + k by omega]
        exact ⟨m₂, .tail hgoes hcomes, hopen'⟩
    | exit hopen | leave hopen | fail hopen =>
      cases k with
      | zero =>
        cases hk
        exact ⟨m, .head, hopen⟩
      | succ k => cases hk

/-- The body of a turn is a part of the loop. -/
theorem Iterates.part {pos : Pos} {iterable : Expr} {rangeEnd : Option Expr} {xs : List Value}
    {m₁ : Machine} {k : Nat} (hfixes : r.Fixes outer iterable m rangeEnd xs m₁)
    (h : r.Iterates outer v body xs m₁ turns result m') (hk : turns[k]? = some turn) :
    r.Part (.exec (.forLoop pos (some v) body (some iterable) rangeEnd) outer) m
      (.exec (.block body) turn.frame) turn.start := by
  obtain ⟨items, rfl, hitems⟩ := hfixes.itemsOf
  rw [Items.toList, List.range_eq_range'] at h
  obtain ⟨m₂, hcomes, hopen⟩ := h.comes hk
  exact .itemBody hitems hcomes hopen

theorem Iterates.frame_at {items : List Value} {k : Nat}
    (h : r.Iterates outer v body items m turns result m') (hk : turns[k]? = some turn) :
    ∃ x, items[k]? = some x ∧
      turn.start.store.frames.frames[turn.frame]? = some ⟨some outer, [(v, x)]⟩ := by
  have hlt : k < turns.length := (List.getElem?_eq_some_iff.mp hk).1
  have hframes := congrArg (fun l => l[k]?) h.frames
  simp only [List.getElem?_map, hk, Option.map_some, List.getElem?_take, hlt, if_true] at hframes
  cases hx : items[k]? with
  | none =>
    rw [hx] at hframes
    cases hframes
  | some x =>
    rw [hx] at hframes
    exact ⟨x, rfl, Option.some.inj hframes⟩

end Runner

/-! ## The scope of a turn -/

/-- The frame that a task runs in. -/
def Task.frame : Task → Nat
  | .eval _ frame => frame
  | .exec _ frame => frame

namespace Machine

/-- The run executes the task in the scope of the variable of a turn: the code stands in the body of
the turn or in a function that was made there, and no inner loop or parameter binds the variable
anew. -/
inductive InScope (limits : Limits) (p : Program) (m : Machine) (v : String) (body : Block)
    (turn : Iteration) : (depth : Nat) → Task → Machine → Prop
  | body {depth : Nat} (h : m.Executes limits p depth (.exec (.block body) turn.frame) turn.start) :
      InScope limits p m v body turn depth (.exec (.block body) turn.frame) turn.start
  /-- Parts that run in the same frame. -/
  | part {depth : Nat} {t t' : Task} {m₁ m₂ : Machine}
      (h : InScope limits p m v body turn (depth + 1) t m₁)
      (hpart : (Runner.ofDepth limits.turns depth).Part t m₁ t' m₂) (hframe : t'.frame = t.frame) :
      InScope limits p m v body turn depth t' m₂
  | block {depth frame inner : Nat} {b : Block} {s : Stmt} {m₁ m₂ : Machine}
      (h : InScope limits p m v body turn (depth + 1) (.exec (.block b) frame) m₁)
      (hpart : (Runner.ofDepth limits.turns depth).Part (.exec (.block b) frame) m₁
        (.exec s inner) m₂) :
      InScope limits p m v body turn depth (.exec s inner) m₂
  /-- The body of an inner loop over another variable. -/
  | loop {depth frame inner : Nat} {pos : Pos} {w : String} {b : Block} {iterable : Expr}
      {rangeEnd : Option Expr} {m₁ m₂ : Machine} (hw : w ≠ v)
      (h : InScope limits p m v body turn (depth + 1)
        (.exec (.forLoop pos (some w) b (some iterable) rangeEnd) frame) m₁)
      (hpart : (Runner.ofDepth limits.turns depth).Part
        (.exec (.forLoop pos (some w) b (some iterable) rangeEnd) frame) m₁
        (.exec (.block b) inner) m₂) :
      InScope limits p m v body turn depth (.exec (.block b) inner) m₂
  /-- The body of a function that is made in the scope, wherever the run calls it. -/
  | call {depth depth' frame made ref : Nat} {pos pos' : Pos} {params : List String}
      {statements : List Stmt} {expression : Option Expr} {func : Expr}
      {args : List Expr} {t : Task}
      {m₁ m₂ m₃ m₄ m₅ : Machine}
      (h : InScope limits p m v body turn depth
        (.eval (.function pos params statements expression) made)
        m₁)
      (hmade : (Runner.ofDepth limits.turns depth).eval
        (.function pos params statements expression) made
        m₁ = (.ok (.func ref), m₂))
      (hparams : v ∉ params)
      (hcall : m.Executes limits p (depth' + 1) (.eval (.call pos' func args) frame) m₃)
      (hfunc : (Runner.ofDepth limits.turns depth').eval func frame m₃ = (.ok (.func ref), m₄))
      (hpart : (Runner.ofDepth limits.turns depth').Part
        (.eval (.call pos' func args) frame) m₃ t m₅)
      (hframe : t.frame ≠ frame) :
      InScope limits p m v body turn depth' t m₅

variable {limits : Limits} {p : Program} {m : Machine} {v : String} {body : Block}
    {turn : Iteration}

theorem InScope.executes {depth : Nat} {t : Task} {m' : Machine}
    (h : m.InScope limits p v body turn depth t m') : m.Executes limits p depth t m' := by
  induction h with
  | body h => exact h
  | part _ hpart _ ih => exact ih.part hpart
  | block _ hpart ih => exact ih.part hpart
  | loop _ _ hpart ih => exact ih.part hpart
  | call _ _ _ hcall _ hpart => exact hcall.part hpart

theorem finds_withFrame {parent owner : Nat} {bindings : List (String × Value)}
    (h : m.store.frames.Finds v parent owner) (hbindings : ∀ b ∈ bindings, b.1 ≠ v) :
    (m.withFrame parent bindings).store.frames.Finds v m.store.frames.frames.size owner := by
  refine ((keepsName_withFrame m parent bindings).finds h).child
    (m.getElem?_withFrame_size parent bindings) rfl ?_
  simpa [Frame.binds] using hbindings

/-- The statements of a block run in a new frame that binds nothing yet. -/
theorem finds_block {r : Runner} (hr : r.Evolving (.sparing v)) {b : Block} {s : Stmt}
    {frame inner owner : Nat} {m₁ : Machine} (hm : m.Passes (.sparing v))
    (hb : (Stmt.block b).Passes (.sparing v))
    (hpart : r.Part (.exec (.block b) frame) m (.exec s inner) m₁)
    (h : m.store.frames.Finds v frame owner) : m₁.store.frames.Finds v inner owner := by
  cases hpart with
  | statement hopen hcomes =>
    cases hopen
    have hss := Stmt.passes_block.mp hb
    have hreached := (covers_runAll (fun s hs => hr.exec (hss s hs) _) hcomes).before
    exact (hreached.keepsName hm).finds (finds_withFrame h (by simp))

/-- The body of a loop over another variable runs in a new frame that binds the other variable. -/
theorem finds_loop {r : Runner} (hr : r.Evolving (.sparing v)) {pos : Pos} {w : String} {b : Block}
    {iterable : Expr} {rangeEnd : Option Expr} {frame inner owner : Nat} {m₁ : Machine} (hw : w ≠ v)
    (hm : m.Passes (.sparing v))
    (hloop : (Stmt.forLoop pos (some w) b (some iterable) rangeEnd).Passes (.sparing v))
    (hpart : r.Part (.exec (.forLoop pos (some w) b (some iterable) rangeEnd) frame) m
      (.exec (.block b) inner) m₁)
    (h : m.store.frames.Finds v frame owner) : m₁.store.frames.Finds v inner owner := by
  cases hpart with
  | itemBody hitems hcomes hopen =>
    obtain ⟨hiterable, hend, hbody⟩ := hloop.forLoop
    have hto := (hr.itemsOf (hiterable _ rfl) hend frame).ok hitems
    have hreached := (covers_takeFrom (fun x => hr.itemTurn hbody frame (some w) x) hcomes).before
    rw [Runner.turnFrame_some] at hopen
    cases hopen
    exact finds_withFrame (((hto.trans hreached).keepsName hm).finds h) (by simpa using hw)

/-- A function with a body is in the store. -/
theorem getElem?_closures {st : Store} {ref : Nat}
    (h : (st.closure ref).expression ≠ none ∨ (st.closure ref).statements ≠ []) :
    st.closures[ref]? = some (st.closure ref) := by
  unfold Store.closure at h ⊢
  rw [Array.getD_eq_getD_getElem?] at h ⊢
  cases hc : st.closures[ref]? with
  | some c => rfl
  | none => simp [hc] at h

/-- A call opens a frame under the frame of the function, which is in the store if it has a body. -/
theorem finds_of_calls {r : Runner} {func : Expr} {args : List Expr} {c : Closure}
    {frame inner ref owner : Nat} {m₁ m₂ m₃ : Machine}
    (hfunc : r.eval func frame m = (.ok (.func ref), m₁))
    (hcalls : r.Calls func args frame m c inner m₂)
    (hbody : c.expression ≠ none ∨ c.statements ≠ []) (hkeeps : m₂.KeepsName v m₃) :
    m₃.store.closures[ref]? = some c ∧ (v ∉ c.params → m₃.store.frames.Finds v c.frame owner →
      m₃.store.frames.Finds v inner owner) := by
  obtain ⟨ref', vs, m₄, m₅, hfunc', -, rfl, -, hopen⟩ := hcalls
  cases hfunc'.symm.trans hfunc
  obtain ⟨rfl, bindings, rfl, hbindings⟩ := (leads_ok_iff hopen).mp (Runner.leads_openFrame _ vs m₅)
  refine ⟨hkeeps.closures ref _ (getElem?_closures hbody), fun hparams h => ?_⟩
  obtain ⟨fr, hfr, hparent, hvalue⟩ := hkeeps.frames _ _ (m₅.getElem?_withFrame_size _ bindings)
  refine h.child hfr hparent ?_
  rw [Frame.binds_eq_of_value? hvalue]
  have hnone : ∀ b ∈ bindings, b.1 ≠ v := by
    rintro b hb rfl
    exact hparams (hbindings b hb)
  simpa [Frame.binds] using hnone

/-- The body of a function runs in a frame under the frame of the function. -/
theorem finds_body {r : Runner} (hr : r.Evolving (.sparing v)) {pos : Pos} {func : Expr}
    {args : List Expr} {frame ref owner : Nat} {t : Task} {m₁ m₂ : Machine}
    (hm : m.Passes (.sparing v))
    (he : (Expr.call pos func args).Passes (.sparing v))
    (hfunc : r.eval func frame m = (.ok (.func ref), m₁))
    (hpart : r.Part (.eval (.call pos func args) frame) m t m₂) (hframe : t.frame ≠ frame) :
    ∃ c, m₂.store.closures[ref]? = some c ∧ (v ∉ c.params → m₂.store.frames.Finds v c.frame owner →
      m₂.store.frames.Finds v t.frame owner) := by
  cases hpart with
  | operand => exact absurd rfl hframe
  | @bodyExpression _ _ e _ _ _ c _ _ hcalls hexpression =>
    have hbody : c.expression ≠ none ∨ c.statements ≠ [] := Or.inl (by simp [hexpression])
    exact ⟨c, finds_of_calls hfunc hcalls hbody (.refl m₂)⟩
  | @bodyStatement _ _ _ _ _ c _ _ m₃ _ hcalls _ hcomes =>
    have hbody : c.expression ≠ none ∨ c.statements ≠ [] := Or.inr (List.ne_nil_of_mem hcomes.mem)
    obtain ⟨hc, hcovers⟩ := hr.covers_call he hm hcalls
    have hm₃ : m₃.Passes (.sparing v) := (hcovers m₃ _ (.self _ m₃)).before.passes hm
    have hreached := (covers_runAll (fun s hs => hr.exec (hc.statements s hs) _) hcomes).before
    exact ⟨c, finds_of_calls hfunc hcalls hbody (hreached.keepsName hm₃)⟩

theorem eval_function_ok {turns depth frame ref : Nat} {pos : Pos} {params : List String}
    {statements : List Stmt} {expression : Option Expr} {m' : Machine}
    (h : (Runner.ofDepth turns depth).eval (.function pos params statements expression) frame m =
      (.ok (.func ref), m')) :
    ref = m.store.closures.size ∧
      m' = { m with store := (m.store.newClosure ⟨params, statements, expression, frame⟩).2 } := by
  cases depth with
  | zero => cases h
  | succ depth =>
    cases h
    exact ⟨rfl, rfl⟩

/-- What a moment of a run binds to the name and the functions it has stay as they are. -/
theorem Moment.keepsName_last {m' : Machine} (h : m.Moment limits p m') (hp : p.Passes (.sparing v))
    (hm : m.Passes (.sparing v)) : m'.KeepsName v (m.run limits p).2 := by
  obtain ⟨hm', hevolves⟩ := h.evolves hp hm
  exact hevolves.keepsName hm'

/-- A function that is made where a name is found finds it there too, whenever it is called. -/
theorem finds_call_of_made {depth depth' frame made ref owner : Nat} {pos pos' : Pos}
    {params : List String} {statements : List Stmt} {expression : Option Expr} {func : Expr}
    {args : List Expr} {t : Task} {m₁ m₂ m₃ m₄ m₅ : Machine} (hp : p.Passes (.sparing v))
    (hm : m.Passes (.sparing v))
    (hexec : m.Executes limits p depth (.eval (.function pos params statements expression) made) m₁)
    (hmade : (Runner.ofDepth limits.turns depth).eval
      (.function pos params statements expression) made
      m₁ = (.ok (.func ref), m₂))
    (hparams : v ∉ params)
    (hcall : m.Executes limits p (depth' + 1) (.eval (.call pos' func args) frame) m₃)
    (hfunc : (Runner.ofDepth limits.turns depth').eval func frame m₃ = (.ok (.func ref), m₄))
    (hpart : (Runner.ofDepth limits.turns depth').Part (.eval (.call pos' func args) frame) m₃ t m₅)
    (hframe : t.frame ≠ frame) (h : m₁.store.frames.Finds v made owner) :
    m₅.store.frames.Finds v t.frame owner := by
  have hr := Runner.evolving_ofDepth (.sparing v) limits.turns depth'
  obtain ⟨-, hm₁, -⟩ := hexec.evolves hp hm
  obtain ⟨he, hm₃, -⟩ := hcall.evolves hp hm
  obtain ⟨c, hc, hfinds⟩ := finds_body hr hm₃ he hfunc hpart hframe
  have hbody := hcall.part hpart
  obtain ⟨-, hm₅, -⟩ := hbody.evolves hp hm
  obtain ⟨rfl, hm₂⟩ := eval_function_ok hmade
  have hmake : m.Moment limits p m₂ := by
    have hfinish := Moment.finish hexec
    rw [Task.leaves, hmade] at hfinish
    exact hfinish
  -- The function that is called is the one that was made: both are the one that the run leaves.
  have hsame : c = ⟨params, statements, expression, made⟩ := by
    have hlast :=
      (hmake.keepsName_last hp hm).closures _ _ (by rw [hm₂]; exact Array.getElem?_push_size)
    have hlast' := ((Moment.start hbody).keepsName_last hp hm).closures _ _ hc
    exact Option.some.inj (hlast'.symm.trans hlast)
  subst hsame
  rcases hexec.ordered hbody hp hm with hlater | hearlier
  · exact hfinds hparams ((hlater.keepsName hm₁).finds h)
  · -- Before it was made, the function could not be called.
    have hthere := (hearlier.keepsName hm₅).closures _ _ hc
    simp at hthere

/-- The frames that code in the scope of a turn runs in lead to the frame of the turn. -/
theorem InScope.finds {x : Value} {outer : Nat} (hp : p.Passes (.sparing v))
    (hm : m.Passes (.sparing v))
    (hturn : turn.start.store.frames.frames[turn.frame]? = some ⟨some outer, [(v, x)]⟩)
    {depth : Nat} {t : Task} {m' : Machine} (h : m.InScope limits p v body turn depth t m') :
    m'.store.frames.Finds v t.frame turn.frame := by
  have hr := fun d => Runner.evolving_ofDepth (.sparing v) limits.turns d
  induction h with
  | body h => exact Frames.finds_self hturn (by simp [Frame.binds])
  | part h hpart hframe ih =>
    obtain ⟨ht, hm₁, -⟩ := h.executes.evolves hp hm
    obtain ⟨-, hcovers⟩ := (hr _).part hpart ht hm₁
    rw [hframe]
    exact (hcovers.evolves.1.keepsName hm₁).finds ih
  | block h hpart ih =>
    obtain ⟨ht, hm₁, -⟩ := h.executes.evolves hp hm
    exact finds_block (hr _) hm₁ ht hpart ih
  | loop hw h hpart ih =>
    obtain ⟨ht, hm₁, -⟩ := h.executes.evolves hp hm
    exact finds_loop (hr _) hw hm₁ ht hpart ih
  | call h hmade hparams hcall hfunc hpart hframe ih =>
    exact finds_call_of_made hp hm h.executes hmade hparams hcall hfunc hpart hframe ih

/-- A frame that binds the name keeps the value at all moments that have the frame. -/
theorem Moment.bound? {x : Value} {f : Nat} {fr : Frame Value} {m₁ m' : Machine}
    (hp : p.Passes (.sparing v)) (hm : m.Passes (.sparing v)) (h₁ : m.Moment limits p m₁)
    (hfr : m₁.store.frames.frames[f]? = some fr) (hx : fr.value? v = some x)
    (h : m.Moment limits p m')
    (hf : f < m'.store.frames.frames.size) : m'.bound? f v = some x := by
  have hfr' := Array.getElem?_eq_getElem hf
  obtain ⟨_, hlast, -, hvalue⟩ := (h₁.keepsName_last hp hm).frames f fr hfr
  obtain ⟨_, hlast', -, hvalue'⟩ := (h.keepsName_last hp hm).frames f _ hfr'
  cases hlast.symm.trans hlast'
  rw [Machine.bound?, hfr', Option.bind_some, ← hvalue', hvalue, hx]

/-- The binding of a turn to the item `x` is its own for the whole run. -/
structure OwnsBinding (limits : Limits) (p : Program) (m : Machine) (v : String) (body : Block)
    (turn : Iteration) (x : Value) : Prop where
  /-- From the moment on at which the frame of the turn exists, it binds the variable to the
  item. -/
  kept : ∀ {m'}, m.Moment limits p m' → turn.frame < m'.store.frames.frames.size →
    m'.bound? turn.frame v = some x
  /-- Wherever code in the scope of the turn runs, the variable is read as the item, if enough
  levels of nesting are left. -/
  read : ∀ {depth t m'}, m.InScope limits p v body turn depth t m' → ∃ enough, ∀ levels pos,
    (Runner.ofDepth limits.turns levels).eval (.reference pos v) t.frame m' =
      if enough ≤ levels then (.ok x, m') else (.error .tooDeep, m')

theorem lookup_eq {x : Value} {f owner enough : Nat}
    (henough : ∀ reach, m.store.frames.search v reach f =
      if enough ≤ reach then .found owner else .tooFar)
    (hx : m.bound? owner v = some x) (reach : Nat) :
    lookup reach f v m = if enough ≤ reach then (.ok x, m) else (.error .tooDeep, m) := by
  show ofOutcome (m.store.frames.get reach f v) m = _
  rw [Frames.get, henough reach]
  by_cases hle : enough ≤ reach
  · rw [if_pos hle, if_pos hle]
    simp only [show m.store.frames.frames[owner]?.bind (·.value? v) = some x from hx]
    rfl
  · rw [if_neg hle, if_neg hle]
    rfl

/-- Reading a name that is bound on the chain of frames. -/
theorem exists_enough_levels {x : Value} {f owner : Nat} (h : m.store.frames.Finds v f owner)
    (hx : m.bound? owner v = some x) (turns : Nat) :
    ∃ enough, ∀ levels pos, (Runner.ofDepth turns levels).eval (.reference pos v) f m =
      if enough ≤ levels then (.ok x, m) else (.error .tooDeep, m) := by
  obtain ⟨enough, henough⟩ := h.exists_enough
  -- One level goes to the reference itself.
  refine ⟨enough + 1, fun levels pos => ?_⟩
  cases levels with
  | zero => rfl
  | succ levels =>
    have hdepth : (Runner.ofDepth turns levels).depth = levels := by cases levels <;> rfl
    show locating pos (lookup (Runner.ofDepth turns levels).depth f v) m = _
    rw [hdepth, locating_eq, lookup_eq henough hx]
    by_cases hle : enough ≤ levels
    · rw [if_pos hle, if_pos (Nat.succ_le_succ hle)]
      rfl
    · rw [if_neg hle, if_neg (by omega)]
      rfl

theorem OwnsBinding.of_frame {x : Value} {outer depth : Nat} (hp : p.Passes (.sparing v))
    (hm : m.Passes (.sparing v))
    (hbody : m.Executes limits p depth (.exec (.block body) turn.frame) turn.start)
    (hframe : turn.start.store.frames.frames[turn.frame]? = some ⟨some outer, [(v, x)]⟩) :
    m.OwnsBinding limits p v body turn x := by
  have hkept : ∀ {m'}, m.Moment limits p m' → turn.frame < m'.store.frames.frames.size →
      m'.bound? turn.frame v = some x :=
    fun h hlt => Moment.bound? hp hm (.start hbody) hframe (by simp [Frame.value?]) h hlt
  refine ⟨hkept, fun {depth t m'} h => ?_⟩
  have hfinds := h.finds hp hm hframe
  obtain ⟨reach, hreach⟩ := hfinds
  obtain ⟨fr, hfr, -⟩ := Frames.binds_of_search hreach
  have hlt : turn.frame < m'.store.frames.frames.size := (Array.getElem?_eq_some_iff.mp hfr).1
  exact exists_enough_levels ⟨reach, hreach⟩ (hkept (.start h.executes) hlt) limits.turns

end Machine

/-- The items of a loop are fixed before its first turn, and each turn owns its binding of the
variable. Let a loop over the variable `v` start on any machine. Once its items are fixed, it takes
turns whose frames bind `v` to these items in order, to all of them unless a turn ends the loop; if
they cannot be fixed, it fails. Let moreover the program and the functions that are there at its
start neither declare `v` nor assign to it. Then each turn of a loop over `v` keeps its binding for
the rest of the run, and code in its scope reads the item of the turn. -/
theorem iterations_own_their_bindings (v : String) :
    (∀ (turns depth outer : Nat) (pos : Pos) (body : Block) (iterable : Expr)
      (rangeEnd : Option Expr)
        (m : Machine),
      (∀ items m₁, (Runner.ofDepth turns depth).Fixes outer iterable m rangeEnd items m₁ →
        ∃ iterations result m',
          (Runner.ofDepth turns depth).Iterates outer v body items m₁ iterations result m' ∧
          (Runner.ofDepth turns (depth + 1)).exec
            (.forLoop pos (some v) body (some iterable) rangeEnd) outer m =
              (result.mapError (·.placeAt pos), m') ∧
          (Runner.ofDepth turns depth).IterationLaws outer v body items m₁ iterations) ∧
      ((∀ items m₁, ¬ (Runner.ofDepth turns depth).Fixes outer iterable m rangeEnd items m₁) →
        ∃ f m', (Runner.ofDepth turns (depth + 1)).exec
          (.forLoop pos (some v) body (some iterable) rangeEnd) outer m = (.error f, m'))) ∧
    ∀ (limits : Limits) (p : Program) (m : Machine), p.Passes (.sparing v) → m.Passes (.sparing v) →
      ∀ (depth outer : Nat) (pos : Pos) (body : Block) (iterable : Expr) (rangeEnd : Option Expr)
        (m₁ : Machine) (items : List Value) (m₂ : Machine) (iterations : List Iteration)
        (result : Except Failure (Option Signal)) (m₃ : Machine),
        m.Executes limits p (depth + 1)
          (.exec (.forLoop pos (some v) body (some iterable) rangeEnd) outer) m₁ →
        (Runner.ofDepth limits.turns depth).Fixes outer iterable m₁ rangeEnd items m₂ →
        (Runner.ofDepth limits.turns depth).Iterates outer v body items m₂ iterations result m₃ →
        ∀ (k : Nat) (turn : Iteration), iterations[k]? = some turn →
          ∃ x, items[k]? = some x ∧ m.OwnsBinding limits p v body turn x := by
  refine ⟨?_, ?_⟩
  · intro turns depth outer pos body iterable rangeEnd m
    refine ⟨?_, fun hfixes => Runner.exec_forLoop_fails hfixes pos v body⟩
    intro items m₁ hfixes
    obtain ⟨iterations, result, m', hiterates, hexec⟩ := Runner.exec_forLoop hfixes pos v body
    exact ⟨iterations, result, m', hiterates, hexec, hiterates.laws (Runner.evolving_ofDepth _ _ _)⟩
  · intro limits p m hp hm depth outer pos body iterable rangeEnd m₁ items m₂ iterations
      result m₃ hloop
      hfixes hiterates k turn hk
    obtain ⟨x, hx, hframe⟩ := hiterates.frame_at hk
    have hbody := hloop.part (hiterates.part hfixes hk)
    exact ⟨x, hx, .of_frame hp hm hbody hframe⟩

/-- The body of the loop in `capturing`: it makes a function that reads the variable of the loop. -/
def capture : Block where
  pos := .start
  statements := [.assign .start (.reference .start "f")
    (.function .start [] [] (some (.reference .start "i")))]

/-- A loop from 7 down to 6; the function that its last turn makes is called behind it. -/
def capturing : Program where
  statements :=
    [.declaration .start [⟨"f", none⟩],
     .forLoop .start (some "i") capture (some (.literal .start (.int 7) .int))
       (some (.literal .start (.int 6) .int)),
     .print .start [.call .start (.reference .start "f") []]]
  pos := .start

/-- The machine on which the loop of `capturing` starts. -/
def capturingLoop : Machine := ⟨⟨#[], #[], #[], ⟨#[⟨none, []⟩, ⟨some 0, [("f", .none)]⟩]⟩⟩, ""⟩

theorem iterations_own_their_bindings_captured :
    (Machine.initial.run (.bounded 12 5) capturing).2.output = "6\n" ∧
      (∃ turns, (Runner.ofDepth 5 11).IterationLaws 1 "i" capture [.int 7, .int 6]
        capturingLoop turns) ∧
      (∃ f m', (Runner.ofDepth 5 12).exec (.forLoop .start (some "i") capture
        (some (.literal .start (.int 7) .int)) none) 1 capturingLoop = (.error f, m')) ∧
      ∃ turn, Machine.initial.OwnsBinding (.bounded 12 5) capturing "i" capture turn (.int 6) := by
  have hp : capturing.Passes (.sparing "i") := by
    unfold Program.Passes
    decide +kernel
  have hloop : Machine.initial.Executes (.bounded 12 5) capturing 12
      (.exec (.forLoop .start (some "i") capture (some (.literal .start (.int 7) .int))
        (some (.literal .start (.int 6) .int))) 1) capturingLoop :=
    ⟨_, _, .tail ⟨none, rfl⟩ .head, .refl⟩
  have hfixes : (Runner.ofDepth 5 11).Fixes 1 (.literal .start (.int 7) .int) capturingLoop
      (some (.literal .start (.int 6) .int)) ((integersFromTo 7 6).map Value.int) capturingLoop :=
    .range rfl rfl
  rw [show (integersFromTo 7 6).map Value.int = [.int 7, .int 6] by decide] at hfixes
  obtain ⟨first, last, result, m', hturns⟩ : ∃ first last result m',
      (Runner.ofDepth 5 11).Iterates 1 "i" capture [.int 7, .int 6] capturingLoop
        [first, last] result
        m' :=
    ⟨⟨_, _⟩, ⟨_, _⟩, _, _, .next rfl rfl (Or.inl rfl) (.next rfl rfl (Or.inl rfl) .done)⟩
  obtain ⟨hloops, howns⟩ := iterations_own_their_bindings "i"
  refine ⟨by decide +kernel, ?_, ?_, last, ?_⟩
  · obtain ⟨turns, _, _, -, -, hlaws⟩ := (hloops 5 11 1 .start capture _ _ _).1 _ _ hfixes
    exact ⟨turns, hlaws⟩
  · refine (hloops 5 11 1 .start capture _ none _).2 ?_
    intro items m₁ h
    cases h with
    | array h => cases h
    | tuple h => cases h
  · obtain ⟨x, hx, hx'⟩ :=
      howns _ _ _ hp Machine.passes_initial _ _ _ _ _ _ _ _ _ _ _ _ hloop hfixes
      hturns 1 last rfl
    cases hx
    exact hx'

end Dee
