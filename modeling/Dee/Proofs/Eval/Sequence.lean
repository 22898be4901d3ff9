import Dee.Proofs.Eval.Outcome

/-!
# Sequences and loops of steps

What a sequence of steps leads to, from what each of its steps leads to. Each lemma takes an
invariant of the machine that holds before every step of the sequence; a step that ends the sequence
early leads to the outcome of the whole.
-/

namespace Dee

open Eval

variable {err : Failure → Machine → Prop}

/-! ## Statements in sequence -/

/-- Statements in sequence: `inv rest` holds whenever the statements `rest` are still to run. -/
theorem leads_runAll {exec : Stmt → Eval (Option Signal)} (inv : List Stmt → Machine → Prop)
    {ok : Option Signal → Machine → Prop}
    (hstep : ∀ s rest m, inv (s :: rest) m → Leads (exec s) m
      (fun signal m' => (signal = none → inv rest m') ∧
        ∀ g, signal = some g → ok (some g) m') err)
    (hend : ∀ m, inv [] m → ok none m) (ss : List Stmt) {m : Machine} (h : inv ss m) :
    Leads (runAll exec ss) m ok err := by
  induction ss generalizing m with
  | nil => exact leads_pure.mpr (hend m h)
  | cons s rest ih =>
    refine (hstep s rest m h).bind fun signal m' hs => ?_
    cases signal with
    | none => exact ih (hs.1 rfl)
    | some g => exact leads_pure.mpr (hs.2 g rfl)

/-! ## Turns of a loop -/

/-- A loop without items: `inv` holds before every turn. -/
theorem leads_takeTurns {turn : Eval Turn} (inv : Machine → Prop)
    {ok : Option Signal → Machine → Prop}
    (hturn : ∀ m, inv m → Leads turn m
      (fun t m' => (t = .again → inv m') ∧ ∀ signal, t = .stop signal → ok signal m') err)
    (hout : ∀ m, inv m → err (.abort .outOfTurns) m) (turns : Nat) {m : Machine} (h : inv m) :
    Leads (takeTurns turn turns) m ok err := by
  induction turns generalizing m with
  | zero => exact leads_throw.mpr (hout m h)
  | succ turns ih =>
    refine (hturn m h).bind fun t m' ht => ?_
    cases t with
    | again => exact ih (ht.1 rfl)
    | stop signal => exact leads_pure.mpr (ht.2 signal rfl)

/-- A loop over items: `inv` holds before every turn, and behind the last one. -/
theorem leads_forEach {items : Items} {turn : Value → Eval Turn} (inv : Machine → Prop)
    {ok : Option Signal → Machine → Prop}
    (hturn : ∀ k m, k < items.count → inv m → Leads (turn (items.item k)) m
      (fun t m' => (t = .again → inv m') ∧ ∀ signal, t = .stop signal → ok signal m') err)
    (hend : ∀ m, inv m → ok none m) {m : Machine} (h : inv m) :
    Leads (items.forEach turn) m ok err := by
  have key : ∀ (remaining next : Nat) (m : Machine), next + remaining = items.count → inv m →
      Leads (items.takeFrom turn remaining next) m ok err := by
    intro remaining
    induction remaining with
    | zero =>
      intro next m _ h
      exact leads_pure.mpr (hend m h)
    | succ remaining ih =>
      intro next m hn h
      refine (hturn next m (by omega) h).bind fun t m' ht => ?_
      cases t with
      | again => exact ih (next + 1) m' (by omega) (ht.1 rfl)
      | stop signal => exact leads_pure.mpr (ht.2 signal rfl)
  exact key items.count 0 m (by omega) h

/-! ## Expressions in sequence -/

/-- Expressions from left to right: every value has `good`, and there are as many as
expressions. -/
theorem leads_evalAll {r : Runner} {frame : Nat} (inv : Machine → Prop) (good : Value → Prop)
    {es : List Expr}
    (heval : ∀ e ∈ es, ∀ m, inv m →
      Leads (r.eval e frame) m (fun v m' => good v ∧ inv m') err)
    {m : Machine} (h : inv m) :
    Leads (r.evalAll es frame) m
      (fun vs m' => vs.length = es.length ∧ (∀ v ∈ vs, good v) ∧ inv m') err := by
  unfold Runner.evalAll
  induction es generalizing m with
  | nil =>
    rw [List.mapM_nil]
    exact leads_pure.mpr ⟨rfl, by simp, h⟩
  | cons e rest ih =>
    rw [List.mapM_cons]
    refine (heval e (by simp) m h).bind fun v m' hv => ?_
    refine (ih (fun e' he' => heval e' (by simp [he'])) hv.2).bind fun vs m'' hvs => ?_
    refine leads_pure.mpr ⟨by simp [hvs.1], ?_, hvs.2.2⟩
    intro w hw
    rcases List.mem_cons.mp hw with rfl | hw
    · exact hv.1
    · exact hvs.2.1 w hw

end Dee
