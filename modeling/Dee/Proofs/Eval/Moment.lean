import Dee.Proofs.Eval.Order
import Dee.Proofs.Eval.Origin

/-!
# Moments of a run

Of two tasks that a run executes, a chain of changes leads from the start of the one to the start of
the other. The machines on which the run starts or ends a task are its moments; from each of them a
chain of changes leads to the machine that the run leaves.

Main statements: `Machine.Executes.ordered` and `Machine.Moment.evolves`.
-/

namespace Dee

open Eval

variable {test : NodeTest} {m m₁ : Machine}

/-! ## Tasks that are reached -/

/-- What the rule for a task covers, the runner one level above covers. -/
theorem Task.Covers.evolves {turns depth : Nat} {t : Task} {m₂ : Machine}
    (h : t.Covers test (.ofDepth turns depth) m m₁ m₂) :
    Machine.Evolves test m m₁ ∧
      Machine.Evolves test m₂ (t.leaves (.ofDepth turns (depth + 1)) m) := by
  cases t with
  | eval e frame =>
    have hcovers := Eval.Covers.locating h e.pos
    exact ⟨hcovers.before, hcovers.behind⟩
  | exec s frame =>
    have hcovers := Eval.Covers.locating h s.pos
    exact ⟨hcovers.before, hcovers.behind⟩

/-- A task that is reached passes the test; the first task gets to it, and from its end to its
own. -/
theorem Runner.Reaches.evolves {turns depth depth' : Nat} {t t' : Task}
    (h : Reaches turns depth t m depth' t' m₁) (ht : t.Passes test) (hm : m.Passes test) :
    t'.Passes test ∧ Machine.Evolves test m m₁ ∧
      Machine.Evolves test (t'.leaves (ofDepth turns depth') m₁)
        (t.leaves (ofDepth turns depth) m) := by
  induction h with
  | refl => exact ⟨ht, .refl _, .refl _⟩
  | part hpart _ ih =>
    obtain ⟨ht₁, hcovers⟩ := (evolving_ofDepth test turns _).part hpart ht hm
    obtain ⟨hto, hfrom⟩ := hcovers.evolves
    obtain ⟨ht', hbefore, hbehind⟩ := ih ht₁ (hto.passes hm)
    exact ⟨ht', hto.trans hbefore, hbehind.trans hfrom⟩

theorem Task.evolves_leaves {r : Runner} (hr : r.Evolving test) {t : Task} (ht : t.Passes test)
    (m : Machine) : Machine.Evolves test m (t.leaves r m) := by
  cases t with
  | eval e frame => exact hr.eval ht frame m
  | exec s frame => exact hr.exec ht frame m

theorem Runner.Reaches.evolves_end {turns depth depth' : Nat} {t t' : Task}
    (h : Reaches turns depth t m depth' t' m₁) (ht : t.Passes test) (hm : m.Passes test) :
    Machine.Evolves test m₁ (t.leaves (ofDepth turns depth) m) := by
  obtain ⟨ht', -, hbehind⟩ := h.evolves ht hm
  exact (Task.evolves_leaves (evolving_ofDepth test turns depth') ht' m₁).trans hbehind

/-- Of two tasks that are reached from one, a chain of changes leads from the start of the one to
the start of the other. -/
theorem Runner.Reaches.ordered {turns depth d₁ d₂ : Nat} {t t₁ t₂ : Task} {m₂ : Machine}
    (h₁ : Reaches turns depth t m d₁ t₁ m₁) (h₂ : Reaches turns depth t m d₂ t₂ m₂)
    (ht : t.Passes test) (hm : m.Passes test) :
    Machine.Evolves test m₁ m₂ ∨ Machine.Evolves test m₂ m₁ := by
  induction h₁ with
  | refl => exact Or.inl (h₂.evolves ht hm).2.1
  | @part depth _ t t₃ _ m m₃ _ hpart₁ h₁ ih =>
    cases h₂ with
    | refl => exact Or.inr (((Reaches.part hpart₁ h₁).evolves ht hm).2.1)
    | @part _ _ _ t₄ _ _ m₄ _ hpart₂ h₂ =>
      have hr := evolving_ofDepth test turns depth
      obtain ⟨ht₃, hcovers₁⟩ := hr.part hpart₁ ht hm
      obtain ⟨ht₄, hcovers₂⟩ := hr.part hpart₂ ht hm
      have hm₃ := hcovers₁.evolves.1.passes hm
      have hm₄ := hcovers₂.evolves.1.passes hm
      -- Either both tasks are reached through the same part, or one part is over with all that is
      -- in it before the other starts.
      rcases hr.apart ht hm hpart₁ hpart₂ with ⟨rfl, rfl⟩ | h | h
      · exact ih h₂ ht₃ hm₃
      · exact Or.inl (((h₁.evolves_end ht₃ hm₃).trans h).trans (h₂.evolves ht₄ hm₄).2.1)
      · exact Or.inr (((h₂.evolves_end ht₄ hm₄).trans h).trans (h₁.evolves ht₃ hm₃).2.1)

theorem Runner.Reaches.snoc {turns depth depth' : Nat} {t t' t'' : Task} {m₂ : Machine}
    (h : Reaches turns depth t m (depth' + 1) t' m₁)
    (hpart : (ofDepth turns depth').Part t' m₁ t'' m₂) :
    Reaches turns depth t m depth' t'' m₂ := by
  generalize hd : depth' + 1 = d at h
  induction h with
  | refl =>
    subst hd
    exact .part hpart .refl
  | part hfirst _ ih => exact .part hfirst (ih hpart hd)

/-! ## Whole runs -/

namespace Machine

/-- What the statements behind the first one evolve to, the run does from the end of the first
one. -/
theorem evolves_behind_stmt {r : Runner} {frame : Nat} {s : Stmt} {rest : List Stmt}
    (hrest : ∀ seen m, Evolves test m (runStmts r frame rest seen m).2) (seen : List Diagnostic)
    (m : Machine) :
    Evolves test (m.runStmt r frame s).2 (runStmts r frame (s :: rest) seen m).2 := by
  rcases hx : r.exec s frame m with ⟨result, m₁⟩
  rw [runStmt_eq hx]
  cases hv : s.verdict result with
  | error a =>
    rw [runStmts_cons_error hx hv]
    exact .refl _
  | ok d =>
    rw [runStmts_cons hx hv]
    exact hrest _ _

theorem evolves_runStmts {r : Runner} (hr : r.Evolving test) {frame : Nat} {ss : List Stmt}
    (hss : ∀ s ∈ ss, s.Passes test) (seen : List Diagnostic) (m : Machine) :
    Evolves test m (runStmts r frame ss seen m).2 := by
  induction ss generalizing seen m with
  | nil => exact .refl m
  | cons s rest ih =>
    have hrest := ih fun s' hs' => hss s' (List.mem_cons_of_mem s hs')
    have hs : Evolves test m (m.runStmt r frame s).2 := hr.exec (hss s List.mem_cons_self) frame m
    exact hs.trans (evolves_behind_stmt hrest seen m)

/-- A run gets to a top-level statement, and from the end of the statement to its own. -/
theorem evolves_of_comes {r : Runner} (hr : r.Evolving test) {frame : Nat}
    {ss : List Stmt} {s : Stmt}
    (hss : ∀ s ∈ ss, s.Passes test) (h : Comes (GoesBeyond r frame) ss m s m₁)
    (seen : List Diagnostic) :
    Evolves test m m₁ ∧ Evolves test (r.exec s frame m₁).2 (runStmts r frame ss seen m).2 := by
  induction ss generalizing seen m with
  | nil => cases h
  | cons first rest ih =>
    have hrest : ∀ s ∈ rest, s.Passes test := fun s' hs' => hss s' (List.mem_cons_of_mem first hs')
    have hfirst : Evolves test m (m.runStmt r frame first).2 :=
      hr.exec (hss first List.mem_cons_self) frame m
    rcases comes_cons.mp h with ⟨rfl, rfl⟩ | ⟨m₂, ⟨d, hd⟩, h⟩
    · exact ⟨.refl _, evolves_behind_stmt (evolves_runStmts hr hrest) seen m₁⟩
    · unfold runStmts
      rw [hd] at hfirst ⊢
      cases d with
      | none => exact ⟨hfirst.trans (ih hrest h seen).1, (ih hrest h seen).2⟩
      | some d => exact ⟨hfirst.trans (ih hrest h (d :: seen)).1, (ih hrest h (d :: seen)).2⟩

variable {limits : Limits} {p : Program}

/-- The code of an executed task passes the test, and from its end the run gets to its own. -/
theorem Executes.evolves {depth : Nat} {t : Task} (h : m.Executes limits p depth t m₁)
    (hp : p.Passes test) (hm : m.Passes test) :
    t.Passes test ∧ m₁.Passes test ∧
      Evolves test (t.leaves (.ofDepth limits.turns depth) m₁) (m.run limits p).2 := by
  obtain ⟨s, m₂, hcomes, hreaches⟩ := h
  have hss := Stmt.everywhereAll_iff.mp hp
  have hr := Runner.evolving_ofDepth test limits.turns limits.depth
  obtain ⟨hto, hfrom⟩ := evolves_of_comes hr hss hcomes []
  have hm₂ : m₂.Passes test := hto.passes hm
  obtain ⟨ht, hbefore, hbehind⟩ := hreaches.evolves (hss s hcomes.mem) hm₂
  exact ⟨ht, hbefore.passes hm₂, hbehind.trans hfrom⟩

/-- Of two tasks that a run executes, a chain of changes leads from the start of the one to the
start of the other. -/
theorem Executes.ordered {d₁ d₂ : Nat} {t₁ t₂ : Task} {m₂ : Machine}
    (h₁ : m.Executes limits p d₁ t₁ m₁) (h₂ : m.Executes limits p d₂ t₂ m₂) (hp : p.Passes test)
    (hm : m.Passes test) : Evolves test m₁ m₂ ∨ Evolves test m₂ m₁ := by
  obtain ⟨s₁, m₃, hcomes₁, hreaches₁⟩ := h₁
  obtain ⟨s₂, m₄, hcomes₂, hreaches₂⟩ := h₂
  have hss := Stmt.everywhereAll_iff.mp hp
  have hr := Runner.evolving_ofDepth test limits.turns limits.depth
  have hs₁ : s₁.Passes test := hss s₁ hcomes₁.mem
  have hs₂ : s₂.Passes test := hss s₂ hcomes₂.mem
  have hm₃ : m₃.Passes test := (evolves_of_comes hr hss hcomes₁ []).1.passes hm
  have hm₄ : m₄.Passes test := (evolves_of_comes hr hss hcomes₂ []).1.passes hm
  have hafter : ∀ {frame s m m'}, GoesBeyond (.ofDepth limits.turns limits.depth) frame s m m' →
      m' = ((Runner.ofDepth limits.turns limits.depth).exec s frame m).2 := by
    rintro frame s m m' ⟨d, hd⟩
    exact (congrArg Prod.snd hd).symm
  rcases hcomes₁.apart hcomes₂ id
    (fun s m => ((Runner.ofDepth limits.turns limits.depth).exec s _ m).2)
    (fun h h' => (hafter h).trans (hafter h').symm) hafter
      (fun s hs m => hr.exec (hss s hs) _ m) with
    ⟨rfl, rfl⟩ | h | h
  · exact hreaches₁.ordered hreaches₂ hs₁ hm₃
  · exact Or.inl (((hreaches₁.evolves_end hs₁ hm₃).trans h).trans (hreaches₂.evolves hs₂ hm₄).2.1)
  · exact Or.inr (((hreaches₂.evolves_end hs₂ hm₄).trans h).trans (hreaches₁.evolves hs₁ hm₃).2.1)

/-- An executed task asks for its parts. -/
theorem Executes.part {depth : Nat} {t t' : Task} {m₂ : Machine}
    (h : m.Executes limits p (depth + 1) t m₁)
    (hpart : (Runner.ofDepth limits.turns depth).Part t m₁ t' m₂) :
    m.Executes limits p depth t' m₂ := by
  obtain ⟨s, m₃, hcomes, hreaches⟩ := h
  exact ⟨s, m₃, hcomes, hreaches.snoc hpart⟩

/-- The machines on which a run starts or ends a task, and the one that it leaves. -/
inductive Moment (limits : Limits) (p : Program) (m : Machine) : Machine → Prop
  | start {depth : Nat} {t : Task} {m₁ : Machine} (h : m.Executes limits p depth t m₁) :
      Moment limits p m m₁
  | finish {depth : Nat} {t : Task} {m₁ : Machine} (h : m.Executes limits p depth t m₁) :
      Moment limits p m (t.leaves (.ofDepth limits.turns depth) m₁)
  | last : Moment limits p m (m.run limits p).2

/-- From each of its moments on, a run makes a chain of changes. -/
theorem Moment.evolves (h : m.Moment limits p m₁) (hp : p.Passes test) (hm : m.Passes test) :
    m₁.Passes test ∧ Evolves test m₁ (m.run limits p).2 := by
  cases h with
  | @start depth t _ h =>
    obtain ⟨ht, hm₁, hbehind⟩ := h.evolves hp hm
    have htask := Task.evolves_leaves (Runner.evolving_ofDepth test limits.turns depth) ht m₁
    exact ⟨hm₁, htask.trans hbehind⟩
  | @finish depth t m₂ h =>
    obtain ⟨ht, hm₂, hbehind⟩ := h.evolves hp hm
    have htask := Task.evolves_leaves (Runner.evolving_ofDepth test limits.turns depth) ht m₂
    exact ⟨htask.passes hm₂, hbehind⟩
  | last =>
    have hr := Runner.evolving_ofDepth test limits.turns limits.depth
    have hwhole : Evolves test { m with store := (m.store.newFrame globalFrame).2 }
        (m.run limits p).2 :=
      evolves_runStmts hr (Stmt.everywhereAll_iff.mp hp) [] _
    exact ⟨hwhole.passes hm, .refl _⟩

end Machine

end Dee
