import Dee.Proofs.Eval.Sequence
import Dee.Proofs.Refinement.Containers
import Dee.Proofs.Refinement.Store
import Dee.Proofs.Scope.Steps

/-!
# Steps that track steps

`Eval.Tracks kept W ok x y` says that the step `y` does on a second machine what `x` does on a first
one: from machines that look alike in the world `W`, they end with results that belong together or
with the same failure, on machines that look alike in a later world. The second step may do as it
likes where the first one is nested too deeply or fails over a name; checked programs do not do the
latter.
-/

namespace Dee

/-- Whether a failure is none that a second run must repeat. -/
def Failure.isExempt : Failure → Bool
  | .error e => e.cause.concernsName
  | .tooDeep => true
  | .abort _ => false

theorem Failure.isExempt_placeAt (e : Located EvalError) (pos : Pos) :
    (Failure.error (e.placeAt pos)).isExempt = (Failure.error e).isExempt :=
  Failure.concernsName_placeAt e pos

namespace Eval

variable {α β α' β' : Type}

/-- From machines that look alike, `y` ends as `x` does. -/
def Tracks (kept : String → Prop) (W : World) (ok : World → α → β → Prop) (x : Eval α)
    (y : Eval β) : Prop :=
  ∀ m n, Machine.Alike kept W m n →
    Leads x m
      (fun a m' => ∃ W' b n', W ≤ W' ∧ y n = (.ok b, n') ∧ Machine.Alike kept W' m' n' ∧ ok W' a b)
      (fun f m' => f.isExempt = true ∨
        ∃ W' n', W ≤ W' ∧ y n = (.error f, n') ∧ Machine.Alike kept W' m' n')

variable {kept : String → Prop} {W : World} {ok ok' : World → α → β → Prop}
  {x : Eval α} {y : Eval β}

/-! ## Single steps -/

theorem tracks_pure {a : α} {b : β} (h : ok W a b) : Tracks kept W ok (pure a) (pure b) := by
  intro m n hmn
  exact leads_pure.mpr ⟨W, b, n, W.le_refl, rfl, hmn, h⟩

theorem tracks_throw (f : Failure) : Tracks kept W ok (throw f) (throw f) := by
  intro m n hmn
  exact leads_throw.mpr (Or.inr ⟨W, n, W.le_refl, rfl, hmn⟩)

theorem tracks_fail (e : EvalError) : Tracks kept W ok (fail e) (fail e) :=
  tracks_throw (.ofError e)

theorem tracks_exempt {f : Failure} (hf : f.isExempt = true) : Tracks kept W ok (throw f) y := by
  intro m n _
  exact leads_throw.mpr (Or.inl hf)

theorem tracks_ofExcept {r : Except EvalError α} {r' : Except EvalError β}
    (h : Agree (ok W) r r') : Tracks kept W ok (ofExcept r) (ofExcept r') := by
  cases h with
  | ok hab => exact tracks_pure hab
  | error e => exact tracks_fail e

theorem tracks_ofOutcome {r : Except Failure α} {r' : Except Failure β}
    (h : Agree (ok W) r r') : Tracks kept W ok (ofOutcome r) (ofOutcome r') := by
  cases h with
  | ok hab => exact tracks_pure hab
  | error f => exact tracks_throw f

/-- The same result on both sides is the same. -/
theorem tracks_ofExcept_same (r : Except EvalError α) :
    Tracks kept W (fun _ a b => a = b) (ofExcept r) (ofExcept r) :=
  tracks_ofExcept (agree_eq r)

theorem tracks_ofOutcome_same (r : Except Failure α) :
    Tracks kept W (fun _ a b => a = b) (ofOutcome r) (ofOutcome r) :=
  tracks_ofOutcome (agree_eq r)

/-- What the first side makes the second makes as well, unless it was nested too deeply. -/
theorem tracks_ofOutcome_extends {r r' : Except Failure α} (h : Failure.Extends r r') :
    Tracks kept W (fun _ a b => a = b) (ofOutcome r) (ofOutcome r') := by
  rcases h with rfl | rfl
  · exact tracks_exempt rfl
  · exact tracks_ofOutcome_same _

/-- What comes of a descent on the first side comes of it on the second. -/
theorem tracks_ofBounded_same {r r' : Option α} (h : ∀ a, r = some a → r' = some a) :
    Tracks kept W (fun _ a b => a = b) (ofBounded r) (ofBounded r') := by
  cases r with
  | none => exact tracks_exempt rfl
  | some a =>
    rw [h a rfl]
    exact tracks_pure rfl

/-! ## Steps put together -/

theorem Tracks.mono (h : Tracks kept W ok x y)
    (hok : ∀ W' a b, W ≤ W' → ok W' a b → ok' W' a b) : Tracks kept W ok' x y := by
  intro m n hmn
  refine (h m n hmn).mono ?_ fun _ _ hf => hf
  rintro a m' ⟨W', b, n', hW, hy, hmn', hab⟩
  exact ⟨W', b, n', hW, hy, hmn', hok W' a b hW hab⟩

theorem Tracks.bind {ok₂ : World → α' → β' → Prop} {f : α → Eval α'} {g : β → Eval β'}
    (h : Tracks kept W ok x y)
    (hfg : ∀ W' a b, W ≤ W' → ok W' a b → Tracks kept W' ok₂ (f a) (g b)) :
    Tracks kept W ok₂ (x >>= f) (y >>= g) := by
  intro m n hmn
  refine leads_bind.mpr ((h m n hmn).mono ?_ ?_)
  · rintro a m' ⟨W', b, n', hW, hy, hmn', hab⟩
    refine (hfg W' a b hW hab m' n' hmn').mono ?_ ?_
    · rintro a' m'' ⟨W'', b', n'', hW', hg, hmn'', hab'⟩
      exact ⟨W'', b', n'', World.le_trans hW hW', (bind_apply_ok hy).trans hg, hmn'', hab'⟩
    · rintro e m'' (he | ⟨W'', n'', hW', hg, hmn''⟩)
      · exact Or.inl he
      · exact Or.inr ⟨W'', n'', World.le_trans hW hW', (bind_apply_ok hy).trans hg, hmn''⟩
  · rintro e m' (he | ⟨W', n', hW, hy, hmn'⟩)
    · exact Or.inl he
    · exact Or.inr ⟨W', n', hW, bind_apply_error hy, hmn'⟩

/-- What the first side does before, the second side need not do. -/
theorem Tracks.bind_left {ok₂ : World → α' → β' → Prop} {f : α → Eval α'} {b : β} {z : Eval β'}
    (h : Tracks kept W ok x (pure b))
    (hf : ∀ W' a, W ≤ W' → ok W' a b → Tracks kept W' ok₂ (f a) z) :
    Tracks kept W ok₂ (x >>= f) z := by
  have hsame : Tracks kept W (fun W' a b' => b' = b ∧ ok W' a b) x (pure b) := by
    intro m n hmn
    refine (h m n hmn).mono ?_ fun _ _ hf => hf
    rintro a m' ⟨W', b', n', hW, ⟨⟩, hmn', hab⟩
    exact ⟨W', b, n, hW, rfl, hmn', rfl, hab⟩
  have hbind : (pure b >>= fun _ => z : Eval β') = z := rfl
  rw [← hbind]
  refine hsame.bind ?_
  rintro W' a b' hW ⟨-, hab⟩
  exact hf W' a hW hab

/-- Both sides give their errors the same position. -/
theorem Tracks.locating (h : Tracks kept W ok x y) (pos : Pos) :
    Tracks kept W ok (Eval.locating pos x) (Eval.locating pos y) := by
  intro m n hmn
  have hlead := leads_iff.mp (h m n hmn)
  rcases hx : x m with ⟨o, m'⟩
  cases o with
  | ok a =>
    obtain ⟨W', b, n', hW, hy, hmn', hab⟩ := hlead.1 a m' hx
    exact (leads_ok_iff (locating_apply_ok hx)).mpr
      ⟨W', b, n', hW, locating_apply_ok hy, hmn', hab⟩
  | error f =>
    have hf := hlead.2 f m' hx
    cases f with
    | error e =>
      refine (leads_error_iff (locating_apply_error hx)).mpr ?_
      rw [Failure.isExempt_placeAt]
      refine hf.imp_right ?_
      rintro ⟨W', n', hW, hy, hmn'⟩
      exact ⟨W', n', hW, locating_apply_error hy, hmn'⟩
    | tooDeep => exact (leads_error_iff (locating_apply_other (by simp) hx)).mpr (Or.inl rfl)
    | abort a =>
      refine (leads_error_iff (locating_apply_other (by simp) hx)).mpr (hf.imp_right ?_)
      rintro ⟨W', n', hW, hy, hmn'⟩
      exact ⟨W', n', hW, locating_apply_other (by simp) hy, hmn'⟩

/-- Errors that the second side has placed already cannot be moved by the first. -/
theorem Tracks.locating_left (h : Tracks kept W ok x y) (pos : Pos)
    (hplaced : ∀ n e n', y n = (.error (.error e), n') → e.isPlaced = true) :
    Tracks kept W ok (Eval.locating pos x) y := by
  intro m n hmn
  refine (h m n hmn).locating ?_
  rintro e m' (he | ⟨W', n', hW, hy, hmn'⟩)
  · exact Or.inl ((Failure.isExempt_placeAt e pos).trans he)
  · refine Or.inr ⟨W', n', hW, ?_, hmn'⟩
    rw [Located.placeAt, if_pos (hplaced n e n' hy)]
    exact hy

/-! ## The store -/

/-- Both sides read their stores. -/
theorem tracks_store_bind {f : Store → Eval α} {g : Store → Eval β}
    (h : ∀ s t, Store.Alike kept W s t → Tracks kept W ok (f s) (g t)) :
    Tracks kept W ok (store >>= f) (store >>= g) := by
  intro m n hmn
  exact leads_bind.mpr (leads_store.mpr (h m.store n.store hmn.store m n hmn))

theorem tracks_modifyStore {f g : Store → Store} {ok : World → Unit → Unit → Prop}
    (h : ∀ s t, Store.Alike kept W s t → Store.Alike kept W (f s) (g t)) (hok : ok W () ()) :
    Tracks kept W ok (modifyStore f) (modifyStore g) := by
  intro m n hmn
  exact leads_modifyStore.mpr
    ⟨W, (), _, W.le_refl, rfl, ⟨h m.store n.store hmn.store, hmn.output⟩, hok⟩

theorem tracks_make {f : Store → α × Store} {g : Store → β × Store}
    (h : ∀ s t, Store.Alike kept W s t →
      ∃ W', W ≤ W' ∧ Store.Alike kept W' (f s).2 (g t).2 ∧ ok W' (f s).1 (g t).1) :
    Tracks kept W ok (make f) (make g) := by
  intro m n hmn
  obtain ⟨W', hW, hstore, hok⟩ := h m.store n.store hmn.store
  exact leads_make.mpr ⟨W', _, _, hW, rfl, ⟨hstore, by rw [hW.printed]; exact hmn.output⟩, hok⟩

theorem tracks_make_left {f : Store → α × Store} {b : β}
    (h : ∀ s t, Store.Alike kept W s t → Store.Alike kept W (f s).2 t) (hok : ∀ a, ok W a b) :
    Tracks kept W ok (make f) (pure b) := by
  intro m n hmn
  exact leads_make.mpr ⟨W, b, n, W.le_refl, rfl, ⟨h m.store n.store hmn.store, hmn.output⟩, hok _⟩

end Eval

end Dee
