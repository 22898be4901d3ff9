import Dee.Eval.Basic

/-!
# Outcomes of evaluation steps

A step of evaluation is a function from machines to outcomes. `Eval.Leads x m ok err` says what a
step leads to from one machine: `ok` holds of the result and the machine behind it, or `err` of the
failure and the machine it left. The lemmas below take `Leads` apart along the way steps are put
together, so the rules of evaluation never have to be opened twice.

Failures of the operations on values and containers are *plain*: they concern neither names nor
jumps.
-/

namespace Dee

/-- A failure as the code at a position reports it: an error without a position gets this one. -/
def Failure.placeAt (f : Failure) (pos : Pos) : Failure :=
  match f with
  | .error e => .error (e.placeAt pos)
  | .tooDeep => .tooDeep
  | .abort a => .abort a

namespace Eval

variable {α β : Type}

/-! ## Steps as functions of the machine -/

theorem bind_apply_ok {x : Eval α} {f : α → Eval β} {m m' : Machine} {a : α}
    (h : x m = (.ok a, m')) : (x >>= f) m = f a m' := by
  show (ExceptT.bindCont f (x m).1 : StateM Machine (Except Failure β)) (x m).2 = _
  rw [h]
  rfl

theorem bind_apply_error {x : Eval α} {f : α → Eval β} {m m' : Machine} {e : Failure}
    (h : x m = (.error e, m')) : (x >>= f) m = (.error e, m') := by
  show (ExceptT.bindCont f (x m).1 : StateM Machine (Except Failure β)) (x m).2 = _
  rw [h]
  rfl

theorem bind_eq_error {x : Eval α} {f : α → Eval β} {m m' : Machine} {e : Failure} :
    (x >>= f) m = (.error e, m') ↔
      x m = (.error e, m') ∨ ∃ a m₁, x m = (.ok a, m₁) ∧ f a m₁ = (.error e, m') := by
  rcases hx : x m with ⟨result, m₁⟩
  cases result with
  | ok a =>
    rw [bind_apply_ok hx]
    constructor
    · intro h
      exact Or.inr ⟨a, m₁, rfl, h⟩
    · rintro (⟨⟨⟩⟩ | ⟨a', m₂, ⟨⟩, h⟩)
      exact h
  | error e' =>
    rw [bind_apply_error hx]
    constructor
    · rintro ⟨⟩
      exact Or.inl rfl
    · rintro (⟨⟨⟩⟩ | ⟨a', m₂, ⟨⟩, -⟩)
      rfl

theorem locating_apply_ok {x : Eval α} {pos : Pos} {m m' : Machine} {a : α}
    (h : x m = (.ok a, m')) : locating pos x m = (.ok a, m') := by
  unfold locating
  rw [h]

theorem locating_apply_error {x : Eval α} {pos : Pos} {m m' : Machine} {e : Located EvalError}
    (h : x m = (.error (.error e), m')) :
    locating pos x m = (.error (.error (e.placeAt pos)), m') := by
  unfold locating
  rw [h]

/-- Only errors get a position; other failures pass through. -/
theorem locating_apply_other {x : Eval α} {pos : Pos} {m m' : Machine} {f : Failure}
    (hf : ∀ e, f ≠ .error e) (h : x m = (.error f, m')) :
    locating pos x m = (.error f, m') := by
  unfold locating
  rw [h]
  cases f with
  | error e => exact absurd rfl (hf e)
  | tooDeep => rfl
  | abort a => rfl

theorem locating_eq_error {x : Eval α} {pos : Pos} {m m' : Machine} {f : Failure} :
    locating pos x m = (.error f, m') ↔ ∃ g, x m = (.error g, m') ∧ f = g.placeAt pos := by
  rcases hx : x m with ⟨result, m₁⟩
  cases result with
  | ok a =>
    rw [locating_apply_ok hx]
    constructor
    · rintro ⟨⟩
    · rintro ⟨g, ⟨⟩, -⟩
  | error g =>
    have hplace : locating pos x m = (.error (g.placeAt pos), m₁) := by
      cases g with
      | error e => exact locating_apply_error hx
      | tooDeep => exact locating_apply_other (f := .tooDeep) (by simp) hx
      | abort a => exact locating_apply_other (f := .abort a) (by simp) hx
    rw [hplace]
    constructor
    · rintro ⟨⟩
      exact ⟨g, rfl, rfl⟩
    · rintro ⟨g', ⟨⟩, rfl⟩
      rfl

/-! ## What a step leads to -/

/-- From the machine `m` the step gives a result with `ok`, or a failure with `err`. -/
def Leads (x : Eval α) (m : Machine) (ok : α → Machine → Prop) (err : Failure → Machine → Prop) :
    Prop :=
  match x m with
  | (.ok a, m') => ok a m'
  | (.error f, m') => err f m'

variable {x : Eval α} {m : Machine} {ok : α → Machine → Prop} {err : Failure → Machine → Prop}

theorem leads_ok_iff {a : α} {m' : Machine} (h : x m = (.ok a, m')) :
    Leads x m ok err ↔ ok a m' := by
  unfold Leads
  rw [h]

theorem leads_error_iff {f : Failure} {m' : Machine} (h : x m = (.error f, m')) :
    Leads x m ok err ↔ err f m' := by
  unfold Leads
  rw [h]

/-- What holds of every step that leads to `ok` and `err` holds of each of its two outcomes. -/
theorem leads_iff :
    Leads x m ok err ↔
      (∀ a m', x m = (.ok a, m') → ok a m') ∧ (∀ f m', x m = (.error f, m') → err f m') := by
  rcases hx : x m with ⟨o, m'⟩
  cases o with
  | ok a =>
    rw [leads_ok_iff hx]
    refine ⟨fun h => ⟨?_, ?_⟩, fun h => h.1 a m' rfl⟩
    · rintro _ _ ⟨⟩
      exact h
    · rintro _ _ ⟨⟩
  | error f =>
    rw [leads_error_iff hx]
    refine ⟨fun h => ⟨?_, ?_⟩, fun h => h.2 f m' rfl⟩
    · rintro _ _ ⟨⟩
    · rintro _ _ ⟨⟩
      exact h

theorem Leads.mono {ok' : α → Machine → Prop} {err' : Failure → Machine → Prop}
    (h : Leads x m ok err) (hok : ∀ a m', ok a m' → ok' a m')
    (herr : ∀ f m', err f m' → err' f m') : Leads x m ok' err' := by
  rw [leads_iff] at h ⊢
  exact ⟨fun a m' hx => hok a m' (h.1 a m' hx), fun f m' hx => herr f m' (h.2 f m' hx)⟩

theorem leads_pure {a : α} : Leads (pure a) m ok err ↔ ok a m := Iff.rfl

theorem leads_throw {f : Failure} : Leads (throw f : Eval α) m ok err ↔ err f m := Iff.rfl

theorem leads_fail {e : EvalError} : Leads (fail e : Eval α) m ok err ↔ err (.ofError e) m :=
  Iff.rfl

theorem leads_bind {f : α → Eval β} {ok : β → Machine → Prop} :
    Leads (x >>= f) m ok err ↔ Leads x m (fun a m' => Leads (f a) m' ok err) err := by
  rcases hx : x m with ⟨o, m'⟩
  cases o with
  | ok a =>
    rw [leads_ok_iff hx]
    unfold Leads
    rw [bind_apply_ok hx]
  | error e => rw [leads_error_iff hx, leads_error_iff (bind_apply_error hx)]

/-- A step in two halves: what the first half leads to is what the second starts from. -/
theorem Leads.bind {f : α → Eval β} {ok : β → Machine → Prop}
    {Q : α → Machine → Prop} (hx : Leads x m Q err)
    (hf : ∀ a m', Q a m' → Leads (f a) m' ok err) : Leads (x >>= f) m ok err :=
  leads_bind.mpr (hx.mono hf fun _ _ h => h)

/-- Giving an error a position keeps whatever does not depend on the position. -/
theorem Leads.locating {pos : Pos} (h : Leads x m ok err)
    (hplace : ∀ e m', err (.error e) m' → err (.error (e.placeAt pos)) m') :
    Leads (Eval.locating pos x) m ok err := by
  rcases hx : x m with ⟨o, m'⟩
  cases o with
  | ok a =>
    rw [leads_ok_iff hx] at h
    exact (leads_ok_iff (locating_apply_ok hx)).mpr h
  | error f =>
    rw [leads_error_iff hx] at h
    cases f with
    | error e => exact (leads_error_iff (locating_apply_error hx)).mpr (hplace e m' h)
    | tooDeep => exact (leads_error_iff (locating_apply_other (by simp) hx)).mpr h
    | abort a => exact (leads_error_iff (locating_apply_other (by simp) hx)).mpr h

/-! ## Reading and changing the store -/

theorem leads_store {ok : Store → Machine → Prop} :
    Leads store m ok err ↔ ok m.store m := Iff.rfl

theorem leads_modifyStore {f : Store → Store} {ok : Unit → Machine → Prop} :
    Leads (modifyStore f) m ok err ↔ ok () { m with store := f m.store } := Iff.rfl

theorem leads_make {f : Store → α × Store} :
    Leads (make f) m ok err ↔ ok (f m.store).1 { m with store := (f m.store).2 } := Iff.rfl

theorem leads_ofExcept {r : Except EvalError α} :
    Leads (ofExcept r) m ok err ↔
      (∀ a, r = .ok a → ok a m) ∧ (∀ e, r = .error e → err (.ofError e) m) := by
  cases r with
  | ok a => simp [ofExcept, leads_pure]
  | error e => simp [ofExcept, leads_fail]

theorem leads_ofOutcome {r : Except Failure α} :
    Leads (ofOutcome r) m ok err ↔
      (∀ a, r = .ok a → ok a m) ∧ (∀ f, r = .error f → err f m) := by
  cases r with
  | ok a => simp [ofOutcome, leads_pure]
  | error e => simp [ofOutcome, leads_throw]

theorem leads_ofBounded {r : Option α} :
    Leads (ofBounded r) m ok err ↔
      (∀ a, r = some a → ok a m) ∧ (r = none → err .tooDeep m) := by
  cases r with
  | some a => simp [ofBounded, leads_pure]
  | none => simp [ofBounded, leads_throw]

end Eval

end Dee
