import Dee.Proofs.Refinement.Tracks

/-!
# Primitive steps on machines that look alike

The steps that touch names, containers and operators track themselves: on values that look alike
they do the same on both sides. What concerns a name that is not kept may also happen on the first
side alone.
-/

namespace Dee.Eval

variable {kept : String → Prop} {W : World} {f g : Nat} {name : String} {v w : Value}

/-- Nothing is said about the results. -/
abbrev anyResult {α β : Type} : World → α → β → Prop := fun _ _ _ => True

/-! ## Names -/

/-- A failed definition concerns a name, so it need not be repeated. -/
theorem tracks_define (hfg : W.frames f g) (hv : Value.Alike W v w) :
    Tracks kept W anyResult (define f name v) (define g name w) := by
  intro m n hmn
  refine (leads_define f name v).mono ?_ ?_
  · rintro _ m' ⟨⟨fr, hfr, hb⟩, rfl⟩
    have hnew : ∀ fr', m.store.frames.frames[f]? = some fr' → fr'.binds name = false := by
      intro fr' hfr'
      cases hfr.symm.trans hfr'
      exact hb
    -- The second frame binds no name that the first does not bind.
    obtain ⟨x, y, hx, hy, hxy⟩ := hmn.store.frames.related hfg
    have hyb : y.binds name = false := by
      have hxb := hnew x hx
      cases hyb : y.binds name with
      | false => rfl
      | true =>
        rw [hxy.names name hyb] at hxb
        cases hxb
    have hrun : define g name w n =
        (.ok (), { n with store := n.store.modifyFrames (·.bindAt g name w) }) := by
      have haccepts : n.store.frames.accepts g name = .ok () := by
        simp [Frames.accepts, hy, hyb]
      show (ofExcept (n.store.frames.accepts g name) >>= _ : Eval Unit) n = _
      rw [haccepts]
      rfl
    exact ⟨W, (), _, W.le_refl, hrun, ⟨hmn.store.bindAt hfg hnew hv, hmn.output⟩, trivial⟩
  · rintro e m' ⟨-, ⟨-, rfl⟩ | ⟨fr, -, -, rfl⟩⟩
    · exact Or.inl rfl
    · exact Or.inl rfl

theorem tracks_define_left (hfg : W.frames f g) (hname : ¬ kept name) (v : Value) :
    Tracks kept W anyResult (define f name v) (pure ()) := by
  intro m n hmn
  refine (leads_define f name v).mono ?_ ?_
  · rintro _ m' ⟨-, rfl⟩
    exact ⟨W, (), n, W.le_refl, rfl, ⟨hmn.store.bindAt_left hfg hname v, hmn.output⟩, trivial⟩
  · rintro e m' ⟨-, ⟨-, rfl⟩ | ⟨fr, -, -, rfl⟩⟩
    · exact Or.inl rfl
    · exact Or.inl rfl

variable {reach reach' : Nat}

theorem tracks_assign (hreach : reach ≤ reach') (hname : kept name) (hfg : W.frames f g)
    (hv : Value.Alike W v w) :
    Tracks kept W anyResult (assign reach f name v) (assign reach' g name w) := by
  intro m n hmn
  refine (leads_assign reach f name v).mono ?_ ?_
  · rintro _ m' ⟨owner, hfound, rfl⟩
    obtain ⟨owner', hfound', hpair⟩ := hmn.store.search hname hreach hfg hfound
    have hrun : assign reach' g name w n =
        (.ok (), { n with store := n.store.modifyFrames (·.rebindAt owner' name w) }) := by
      have howner : n.store.frames.owner reach' g name = .ok owner' := by
        simp [Frames.owner, hfound']
      show (ofOutcome (n.store.frames.owner reach' g name) >>= _ : Eval Unit) n = _
      rw [howner]
      rfl
    exact ⟨W, (), _, W.le_refl, hrun, ⟨hmn.store.rebindAt hpair hv, hmn.output⟩, trivial⟩
  · rintro e m' ⟨-, ⟨-, rfl⟩ | ⟨-, rfl⟩⟩
    · exact Or.inl rfl
    · exact Or.inl rfl

theorem tracks_assign_left (hname : ¬ kept name) (reach f : Nat) (v : Value) :
    Tracks kept W anyResult (assign reach f name v) (pure ()) := by
  intro m n hmn
  refine (leads_assign reach f name v).mono ?_ ?_
  · rintro _ m' ⟨owner, -, rfl⟩
    exact ⟨W, (), n, W.le_refl, rfl, ⟨hmn.store.rebindAt_left hname v owner, hmn.output⟩, trivial⟩
  · rintro e m' ⟨-, ⟨-, rfl⟩ | ⟨-, rfl⟩⟩
    · exact Or.inl rfl
    · exact Or.inl rfl

theorem tracks_lookup (hreach : reach ≤ reach') (hname : kept name) (hfg : W.frames f g) :
    Tracks kept W Value.Alike (lookup reach f name) (lookup reach' g name) := by
  intro m n hmn
  refine (leads_lookup reach f name).mono ?_ ?_
  · rintro v m' ⟨rfl, owner, fr, hfound, hfr, hv⟩
    obtain ⟨owner', hfound', hpair⟩ := hmn.store.search hname hreach hfg hfound
    obtain ⟨x, y, hx, hy, hxy⟩ := hmn.store.frames.related hpair
    cases hfr.symm.trans hx
    have hrel := hxy.values name hname
    rw [hv] at hrel
    cases hw : y.value? name with
    | none =>
      rw [hw] at hrel
      cases hrel
    | some w =>
      rw [hw] at hrel
      have hvw : Value.Alike W v w := by
        cases hrel with
        | some hvw => exact hvw
      have hget : n.store.frames.get reach' g name = .ok w := by
        simp [Frames.get, hfound', hy, hw]
      have hrun : lookup reach' g name n = (.ok w, n) := by
        show (ofOutcome (n.store.frames.get reach' g name) : Eval Value) n = _
        rw [hget]
        rfl
      exact ⟨W, w, n, W.le_refl, hrun, hmn, hvw⟩
  · rintro e m' ⟨-, ⟨-, rfl⟩ | ⟨-, rfl⟩⟩
    · exact Or.inl rfl
    · exact Or.inl rfl

theorem tracks_lookup_left (reach f : Nat) (name : String) :
    Tracks kept W anyResult (lookup reach f name) (pure ()) := by
  intro m n hmn
  refine (leads_lookup reach f name).mono ?_ ?_
  · rintro v m' ⟨rfl, -⟩
    exact ⟨W, (), n, W.le_refl, rfl, hmn, trivial⟩
  · rintro e m' ⟨-, ⟨-, rfl⟩ | ⟨-, rfl⟩⟩
    · exact Or.inl rfl
    · exact Or.inl rfl

/-! ## Printing -/

theorem tracks_print {depth depth' : Nat} (hdepth : depth ≤ depth') {vs ws : List Value}
    (hvs : Value.AllAlike W vs ws) :
    Tracks kept W anyResult (print depth vs) (print depth' ws) := by
  refine tracks_store_bind fun s t hst => ?_
  refine Tracks.bind (tracks_ofOutcome_extends (hst.spellLine hdepth hvs)) ?_
  rintro W' line _ - rfl m n hmn
  refine ⟨W', (), _, W'.le_refl, rfl, ⟨hmn.store, ?_⟩, trivial⟩
  show n.output ++ line = W'.printed ++ (m.output ++ line)
  rw [hmn.output, String.append_assoc]

/-! ## Containers -/

theorem tracks_requireInt (role : IntRole) (hv : Value.Alike W v w) :
    Tracks kept W (fun _ i j => i = j) (requireInt role v) (requireInt role w) := by
  cases hv with
  | scalar s =>
    cases s with
    | int n => exact tracks_pure rfl
    | _ => exact tracks_fail _
  | array _ => exact tracks_fail _
  | tuple _ => exact tracks_fail _
  | func _ => exact tracks_fail _

theorem tracks_elementAt (hv : Value.Alike W v w) (index : Int) :
    Tracks kept W Value.Alike (elementAt v index) (elementAt w index) := by
  refine tracks_store_bind fun s t hst => ?_
  cases hv with
  | array hij => exact tracks_ofExcept ((hst.cells hij).get index)
  | tuple hij => exact tracks_ofExcept ((hst.slots hij).get _)
  | scalar _ => exact tracks_fail _
  | func _ => exact tracks_fail _

theorem tracks_memberOf (hv : Value.Alike W v w) (mem : Member) :
    Tracks kept W Value.Alike (memberOf v mem) (memberOf w mem) := by
  refine tracks_store_bind fun s t hst => ?_
  cases hv with
  | tuple hij => exact tracks_ofExcept ((hst.slots hij).get mem)
  | array _ => exact tracks_fail _
  | scalar _ => exact tracks_fail _
  | func _ => exact tracks_fail _

/-- Writing to an entry of a tuple that both sides locate alike. -/
theorem tracks_writeSlot {i j : Nat} (hij : W.tuples i j) (mem : Member) {x y : Value}
    (hxy : Value.Alike W x y) :
    Tracks kept W anyResult
      (do
        let place ← ofExcept (((← store).slots i).locate mem)
        modifyStore (·.modifySlots i (·.write place x)))
      (do
        let place ← ofExcept (((← store).slots j).locate mem)
        modifyStore (·.modifySlots j (·.write place y))) := by
  refine tracks_store_bind fun s t hst => ?_
  rw [(hst.slots hij).locate_eq]
  refine Tracks.bind (tracks_ofExcept_same _) ?_
  rintro W' place _ hW rfl
  refine tracks_modifyStore (fun s' t' hst' => ?_) trivial
  exact hst'.modifySlots (hW.tuples hij) fun c d hcd => hcd.write (hxy.mono hW) place

theorem tracks_setElementAt (hv : Value.Alike W v w) (index : Int) {x y : Value}
    (hxy : Value.Alike W x y) :
    Tracks kept W anyResult (setElementAt v index x) (setElementAt w index y) := by
  cases hv with
  | array hij =>
    refine tracks_store_bind fun s t hst => ?_
    rw [(hst.cells hij).accepts_eq]
    refine Tracks.bind (tracks_ofOutcome_same _) ?_
    rintro W' _ _ hW -
    refine tracks_modifyStore (fun s' t' hst' => ?_) trivial
    exact hst'.modifyCells (hW.arrays hij) fun c d hcd => hcd.write (hxy.mono hW) index
  | tuple hij => exact tracks_writeSlot hij (.position index) hxy
  | scalar _ => exact tracks_fail _
  | func _ => exact tracks_fail _

theorem tracks_setMemberOf (hv : Value.Alike W v w) (mem : Member) {x y : Value}
    (hxy : Value.Alike W x y) :
    Tracks kept W anyResult (setMemberOf v mem x) (setMemberOf w mem y) := by
  cases hv with
  | tuple hij => exact tracks_writeSlot hij mem hxy
  | array _ => exact tracks_fail _
  | scalar _ => exact tracks_fail _
  | func _ => exact tracks_fail _

/-! ## Operators -/

theorem tracks_scalar {x : Eval Scalar} (hx : Tracks kept W (fun _ a b => a = b) x x) :
    Tracks kept W Value.Alike (do return .scalar (← x)) (do return .scalar (← x)) := by
  refine hx.bind ?_
  rintro W' a _ - rfl
  exact tracks_pure (.scalar a)

theorem tracks_combine {depth depth' : Nat} (hdepth : depth ≤ depth') (op : String) {x y : Value}
    (hv : Value.Alike W v w) (hx : Value.Alike W x y) :
    Tracks kept W Value.Alike (combine depth op v x) (combine depth' op w y) := by
  unfold combine
  rw [hv.kind_eq, hx.kind_eq]
  split
  · exact tracks_fail _
  · split
    · exact tracks_fail _
    · exact tracks_fail _
  · split
    · refine tracks_store_bind fun s t hst => ?_
      refine Tracks.bind (tracks_ofBounded_same fun b => hst.equal hdepth hv hx) ?_
      rintro W' b _ - rfl
      exact tracks_pure (.scalar _)
    · exact tracks_fail _
  · refine tracks_store_bind fun s t hst => ?_
    cases hv with
    | scalar a => cases hx <;> exact tracks_fail _
    | func h => cases hx <;> exact tracks_fail _
    | array hij =>
      cases hx with
      | array hkl =>
        have hjoin : Tracks kept W Cells.Alike (ofOutcome ((s.cells _).concat (s.cells _)))
            (ofOutcome ((t.cells _).concat (t.cells _))) :=
          tracks_ofOutcome ((hst.cells hij).concat (hst.cells hkl))
        exact hjoin.bind fun W' c d _ hcd => tracks_make fun s' t' hst' => hst'.newArray hcd
      | _ => exact tracks_fail _
    | tuple hij =>
      cases hx with
      | tuple hkl =>
        have hjoin : Tracks kept W Slots.Alike (ofExcept ((s.slots _).concat (s.slots _)))
            (ofExcept ((t.slots _).concat (t.slots _))) :=
          tracks_ofExcept ((hst.slots hij).concat (hst.slots hkl))
        dsimp only
        rw [(hst.slots hij).length_eq, (hst.slots hkl).length_eq]
        cases Memory.room ((t.slots _).length + (t.slots _).length) with
        | error f => exact tracks_throw f
        | ok _ =>
          exact hjoin.bind fun W' c d _ hcd =>
            tracks_make fun s' t' hst' => hst'.newTuple hcd
      | _ => exact tracks_fail _
  · exact tracks_fail _

theorem tracks_binary {depth depth' : Nat} (hdepth : depth ≤ depth') (op : String) {x y : Value}
    (hv : Value.Alike W v w) (hx : Value.Alike W x y) :
    Tracks kept W Value.Alike (binary depth op v x) (binary depth' op w y) := by
  cases hv with
  | scalar a =>
    cases hx with
    | scalar b => exact tracks_scalar (tracks_ofOutcome_same _)
    | array h => exact tracks_combine hdepth op (.scalar a) (.array h)
    | tuple h => exact tracks_combine hdepth op (.scalar a) (.tuple h)
    | func h => exact tracks_combine hdepth op (.scalar a) (.func h)
  | array h => exact tracks_combine hdepth op (.array h) hx
  | tuple h => exact tracks_combine hdepth op (.tuple h) hx
  | func h => exact tracks_combine hdepth op (.func h) hx

theorem tracks_unary (op : String) (hv : Value.Alike W v w) :
    Tracks kept W Value.Alike (unary op v) (unary op w) := by
  cases hv with
  | scalar s => exact tracks_scalar (tracks_ofExcept_same _)
  | _ =>
    unfold unary
    cases UnaryOp.ofText? op with
    | none => exact tracks_fail _
    | some u => cases u <;> exact tracks_fail _

end Dee.Eval
