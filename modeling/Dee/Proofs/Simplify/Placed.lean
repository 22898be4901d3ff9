import Dee.Proofs.Program.Placed
import Dee.Simplify

/-!
# Where simplified code stands

Simplification invents no position. A folded operator takes the place of the operator, a branch that
replaces its conditional keeps the place of its block, an empty block takes the place of the
conditional; and each note is put at a node of the code.

`Noted.Places` says this of one step of the walk, the walk follows the forms of code.
-/

namespace Dee

variable {okPos : Pos → Bool}

/-! ## Steps -/

namespace Noted

variable {α β : Type}

/-- The result is `good`, and the notes lie at good positions. -/
structure Places (okPos : Pos → Bool) (good : α → Prop) (x : Noted α) : Prop where
  result : good x.result
  notes : AllAt okPos x.notes

variable {good : α → Prop} {good' : β → Prop} {x : Noted α}

theorem places_pure {a : α} (h : good a) : (pure a : Noted α).Places okPos good :=
  ⟨h, allAt_nil⟩

theorem places_note {n : Note} {pos : Pos} (h : okPos pos = true) :
    (note n pos).Places okPos fun _ => True :=
  ⟨trivial, allAt_singleton.mpr h⟩

theorem Places.bind {f : α → Noted β} (hx : x.Places okPos good)
    (hf : ∀ a, good a → (f a).Places okPos good') : (x >>= f).Places okPos good' := by
  have hy := hf x.result hx.result
  exact ⟨hy.result, allAt_append.mpr ⟨hx.notes, hy.notes⟩⟩

end Noted

open Noted

/-! ## Rules -/

theorem places_foldBinary {pos : Pos} {op : String} {left right : Expr}
    (h : (Expr.binary pos op left right).Placed okPos) :
    (foldBinary pos op left right).Places okPos (Expr.Placed okPos) := by
  unfold foldBinary
  split
  · split
    · exact (places_note h.pos).bind fun _ _ => places_pure h.pos
    · exact places_pure h
  · exact places_pure h

theorem places_foldUnary {pos : Pos} {op : String} {operand : Expr}
    (h : (Expr.unary pos op operand).Placed okPos) :
    (foldUnary pos op operand).Places okPos (Expr.Placed okPos) := by
  unfold foldUnary
  split
  · split
    · exact (places_note h.pos).bind fun _ _ => places_pure h.pos
    · exact places_pure h
  · exact places_pure h

/-- A statement that stays is placed. -/
abbrev Stmt.OptionPlaced (okPos : Pos → Bool) (s : Option Stmt) : Prop :=
  ∀ s', s = some s' → s'.Placed okPos

theorem places_some {s : Stmt} (h : s.Placed okPos) :
    (pure (some s) : Noted (Option Stmt)).Places okPos (Stmt.OptionPlaced okPos) := by
  refine places_pure ?_
  rintro s' ⟨⟩
  exact h

/-! ## The walk -/

variable (used : List String)

mutual

theorem Expr.places_simplify : ∀ e : Expr, e.Placed okPos →
    (e.simplify used).Places okPos (Expr.Placed okPos)
  | .literal _ _ _, h => places_pure h
  | .reference _ _, h => places_pure h
  | .binary pos op left right, h => by
    obtain ⟨hpos, hleft, hright⟩ := Expr.placed_binary.mp h
    rw [Expr.simplify]
    refine (left.places_simplify hleft).bind fun left' hleft' => ?_
    refine (right.places_simplify hright).bind fun right' hright' => ?_
    exact places_foldBinary (Expr.placed_binary.mpr ⟨hpos, hleft', hright'⟩)
  | .unary pos op operand, h => by
    obtain ⟨hpos, hoperand⟩ := Expr.placed_unary.mp h
    rw [Expr.simplify]
    refine (operand.places_simplify hoperand).bind fun operand' hoperand' => ?_
    exact places_foldUnary (Expr.placed_unary.mpr ⟨hpos, hoperand'⟩)
  | .call pos func args, h => by
    obtain ⟨hpos, hfunc, hargs⟩ := Expr.placed_call.mp h
    rw [Expr.simplify]
    refine (func.places_simplify hfunc).bind fun func' hfunc' => ?_
    refine (Expr.places_simplifyAll args hargs).bind fun args' hargs' => ?_
    exact places_pure (Expr.placed_call.mpr ⟨hpos, hfunc', hargs'⟩)
  | .index pos value index, h => by
    obtain ⟨hpos, hvalue, hindex⟩ := Expr.placed_index.mp h
    rw [Expr.simplify]
    refine (value.places_simplify hvalue).bind fun value' hvalue' => ?_
    refine (index.places_simplify hindex).bind fun index' hindex' => ?_
    exact places_pure (Expr.placed_index.mpr ⟨hpos, hvalue', hindex'⟩)
  | .array pos elements, h => by
    obtain ⟨hpos, helements⟩ := Expr.placed_array.mp h
    rw [Expr.simplify]
    refine (Expr.places_simplifyAll elements helements).bind fun elements' helements' => ?_
    exact places_pure (Expr.placed_array.mpr ⟨hpos, helements'⟩)
  | .tuple pos entries, h => by
    obtain ⟨hpos, hentries⟩ := Expr.placed_tuple.mp h
    rw [Expr.simplify]
    refine (TupleEntry.places_simplifyAll entries hentries).bind fun entries' hentries' => ?_
    exact places_pure (Expr.placed_tuple.mpr ⟨hpos, hentries'⟩)
  | .function pos params statements (some e), h => by
    obtain ⟨hpos, hstatements, he⟩ := Expr.placed_function.mp h
    rw [Expr.simplify]
    refine (e.places_simplify he).bind fun e' he' => ?_
    exact places_pure (Expr.placed_function.mpr ⟨hpos, hstatements, he'⟩)
  | .function pos params statements none, h => by
    obtain ⟨hpos, hstatements, hnone⟩ := Expr.placed_function.mp h
    rw [Expr.simplify]
    refine (Stmt.places_simplifyAll _ statements hstatements).bind fun statements' hkept => ?_
    exact places_pure (Expr.placed_function.mpr ⟨hpos, hkept, hnone⟩)
  | .typeCheck pos value indicator, h => by
    obtain ⟨hpos, hvalue⟩ := Expr.placed_typeCheck.mp h
    rw [Expr.simplify]
    refine (value.places_simplify hvalue).bind fun value' hvalue' => ?_
    exact places_pure (Expr.placed_typeCheck.mpr ⟨hpos, hvalue'⟩)
  | .member pos value member, h => by
    obtain ⟨hpos, hvalue⟩ := Expr.placed_member.mp h
    rw [Expr.simplify]
    refine (value.places_simplify hvalue).bind fun value' hvalue' => ?_
    exact places_pure (Expr.placed_member.mpr ⟨hpos, hvalue'⟩)

theorem Expr.places_simplifyAll : ∀ es : List Expr, Expr.AllPlaced okPos es →
    (Expr.simplifyAll used es).Places okPos (Expr.AllPlaced okPos)
  | [], h => places_pure h
  | e :: rest, h => by
    obtain ⟨he, hrest⟩ := Expr.allPlaced_cons.mp h
    rw [Expr.simplifyAll]
    refine (e.places_simplify he).bind fun e' he' => ?_
    refine (Expr.places_simplifyAll rest hrest).bind fun rest' hrest' => ?_
    exact places_pure (Expr.allPlaced_cons.mpr ⟨he', hrest'⟩)

theorem Expr.places_simplifyOption : ∀ e : Option Expr, Expr.OptionPlaced okPos e →
    (Expr.simplifyOption used e).Places okPos (Expr.OptionPlaced okPos)
  | none, h => places_pure h
  | some e, h => by
    rw [Expr.simplifyOption]
    exact (e.places_simplify h).bind fun e' he' => places_pure he'

theorem TupleEntry.places_simplifyAll : ∀ entries : List TupleEntry,
    TupleEntry.AllPlaced okPos entries →
    (TupleEntry.simplifyAll used entries).Places okPos (TupleEntry.AllPlaced okPos)
  | [], h => places_pure h
  | ⟨name, e⟩ :: rest, h => by
    obtain ⟨he, hrest⟩ := TupleEntry.allPlaced_cons.mp h
    rw [TupleEntry.simplifyAll]
    refine (e.places_simplify he).bind fun e' he' => ?_
    refine (TupleEntry.places_simplifyAll rest hrest).bind fun rest' hrest' => ?_
    exact places_pure (TupleEntry.allPlaced_cons.mpr ⟨he', hrest'⟩)

theorem Stmt.places_simplify : ∀ s : Stmt, s.Placed okPos →
    (s.simplify used).Places okPos (Stmt.OptionPlaced okPos)
  | .declaration pos vars, h => by
    obtain ⟨hpos, hvars⟩ := Stmt.placed_declaration.mp h
    rw [Stmt.simplify]
    refine (VarDef.places_simplifyAll hpos vars hvars).bind fun kept hkept => places_pure ?_
    split
    · nofun
    · rintro s' ⟨⟩
      exact Stmt.placed_declaration.mpr ⟨hpos, hkept⟩
  | .assign pos target value, h => by
    obtain ⟨hpos, htarget, hvalue⟩ := Stmt.placed_assign.mp h
    rw [Stmt.simplify]
    refine (target.places_simplify htarget).bind fun target' htarget' => ?_
    refine (value.places_simplify hvalue).bind fun value' hvalue' => ?_
    exact places_some (Stmt.placed_assign.mpr ⟨hpos, htarget', hvalue'⟩)
  | .block ⟨pos, body⟩, h => by
    obtain ⟨hpos, hbody⟩ := Stmt.placed_block.mp h
    rw [Stmt.simplify]
    refine (Stmt.places_simplifyAll _ body hbody).bind fun body' hbody' => ?_
    exact places_some (Stmt.placed_block.mpr ⟨hpos, hbody'⟩)
  | .conditional pos condition ⟨thenPos, body⟩ none, h => by
    obtain ⟨hpos, hcondition, ⟨hthen, hbody⟩, -⟩ := Stmt.placed_conditional.mp h
    have hkept := Stmt.places_simplifyAll .unreachableInBlock body hbody
    rw [Stmt.simplify]
    refine (condition.places_simplify hcondition).bind fun condition' hcondition' => ?_
    split
    · refine (places_note hpos).bind fun _ _ => hkept.bind fun body' hbody' => ?_
      exact places_some (Stmt.placed_block.mpr ⟨hthen, hbody'⟩)
    · -- Nothing is left of the conditional but its place.
      refine (places_note hpos).bind fun _ _ => ?_
      exact places_some (Stmt.placed_block.mpr ⟨hpos, rfl⟩)
    · refine hkept.bind fun body' hbody' => places_some ?_
      exact Stmt.placed_conditional.mpr ⟨hpos, hcondition', ⟨hthen, hbody'⟩, nofun⟩
  | .conditional pos condition ⟨thenPos, body⟩ (some ⟨elsePos, other⟩), h => by
    obtain ⟨hpos, hcondition, ⟨hthen, hbody⟩, helse⟩ := Stmt.placed_conditional.mp h
    obtain ⟨helse, hother⟩ := helse _ rfl
    have hkept := Stmt.places_simplifyAll .unreachableInBlock body hbody
    have hkeptOther := Stmt.places_simplifyAll .unreachableInBlock other hother
    rw [Stmt.simplify]
    refine (condition.places_simplify hcondition).bind fun condition' hcondition' => ?_
    split
    · refine (places_note hpos).bind fun _ _ => hkept.bind fun body' hbody' => ?_
      exact places_some (Stmt.placed_block.mpr ⟨hthen, hbody'⟩)
    · refine (places_note hpos).bind fun _ _ => hkeptOther.bind fun other' hother' => ?_
      exact places_some (Stmt.placed_block.mpr ⟨helse, hother'⟩)
    · refine hkeptOther.bind fun other' hother' => hkept.bind fun body' hbody' => places_some ?_
      refine Stmt.placed_conditional.mpr ⟨hpos, hcondition', ⟨hthen, hbody'⟩, ?_⟩
      rintro _ ⟨⟩
      exact ⟨helse, hother'⟩
  | .whileLoop pos condition ⟨bodyPos, body⟩, h => by
    obtain ⟨hpos, hcondition, hbodyPos, hbody⟩ := Stmt.placed_whileLoop.mp h
    rw [Stmt.simplify]
    refine (condition.places_simplify hcondition).bind fun condition' hcondition' => ?_
    refine (Stmt.places_simplifyAll _ body hbody).bind fun body' hbody' => ?_
    exact places_some (Stmt.placed_whileLoop.mpr ⟨hpos, hcondition', hbodyPos, hbody'⟩)
  | .forLoop pos loopVar ⟨bodyPos, body⟩ iterable rangeEnd, h => by
    obtain ⟨hpos, hiterable, hrangeEnd, hbodyPos, hbody⟩ := Stmt.placed_forLoop.mp h
    rw [Stmt.simplify]
    refine (Expr.places_simplifyOption iterable hiterable).bind fun iterable' hiterable' => ?_
    refine (Expr.places_simplifyOption rangeEnd hrangeEnd).bind fun rangeEnd' hrangeEnd' => ?_
    refine (Stmt.places_simplifyAll _ body hbody).bind fun body' hbody' => places_some ?_
    exact Stmt.placed_forLoop.mpr ⟨hpos, hiterable', hrangeEnd', hbodyPos, hbody'⟩
  | .returnStmt pos value, h => by
    obtain ⟨hpos, hvalue⟩ := Stmt.placed_returnStmt.mp h
    rw [Stmt.simplify]
    refine (Expr.places_simplifyOption value hvalue).bind fun value' hvalue' => ?_
    exact places_some (Stmt.placed_returnStmt.mpr ⟨hpos, hvalue'⟩)
  | .exitStmt _, h => places_some h
  | .continueStmt _, h => places_some h
  | .print pos values, h => by
    obtain ⟨hpos, hvalues⟩ := Stmt.placed_print.mp h
    rw [Stmt.simplify]
    refine (Expr.places_simplifyAll values hvalues).bind fun values' hvalues' => ?_
    exact places_some (Stmt.placed_print.mpr ⟨hpos, hvalues'⟩)
  | .expr pos value, h => by
    obtain ⟨hpos, hvalue⟩ := Stmt.placed_expr.mp h
    rw [Stmt.simplify]
    refine (value.places_simplify hvalue).bind fun value' hvalue' => ?_
    exact places_some (Stmt.placed_expr.mpr ⟨hpos, hvalue'⟩)

theorem Stmt.places_simplifyAll (unreachable : Note) : ∀ ss : List Stmt, Stmt.AllPlaced okPos ss →
    (Stmt.simplifyAll used unreachable ss).Places okPos (Stmt.AllPlaced okPos)
  | [], h => places_pure h
  | s :: rest, h => by
    obtain ⟨hs, hrest⟩ := Stmt.allPlaced_cons.mp h
    have hkept := Stmt.places_simplifyAll unreachable rest hrest
    rw [Stmt.simplifyAll]
    refine (s.places_simplify hs).bind fun o ho => ?_
    cases o with
    | none => exact hkept
    | some s' =>
      dsimp only
      split
      · -- Each statement behind the return is noted where it stood.
        refine ⟨Stmt.allPlaced_cons.mpr ⟨ho s' rfl, rfl⟩, allAt_map fun dropped hdropped => ?_⟩
        exact (Stmt.allPlaced_iff.mp hrest dropped hdropped).pos
      · refine hkept.bind fun rest' hrest' => ?_
        exact places_pure (Stmt.allPlaced_cons.mpr ⟨ho s' rfl, hrest'⟩)

theorem VarDef.places_simplifyAll {pos : Pos} (hpos : okPos pos = true) : ∀ vars : List VarDef,
    VarDef.AllPlaced okPos vars →
    (VarDef.simplifyAll used pos vars).Places okPos (VarDef.AllPlaced okPos)
  | [], h => places_pure h
  | ⟨name, initializer⟩ :: rest, h => by
    obtain ⟨hinitializer, hrest⟩ := VarDef.allPlaced_cons.mp h
    have hkept := VarDef.places_simplifyAll hpos rest hrest
    rw [VarDef.simplifyAll]
    split
    · exact (places_note hpos).bind fun _ _ => hkept
    · refine (Expr.places_simplifyOption initializer hinitializer).bind fun initializer' hi => ?_
      refine hkept.bind fun rest' hrest' => ?_
      exact places_pure (VarDef.allPlaced_cons.mpr ⟨hi, hrest'⟩)

end

/-- Simplifying a program at good positions gives one at good positions, with notes at good
positions. -/
theorem Program.places_simplify {p : Program} (hp : Stmt.AllPlaced okPos p.statements) :
    p.simplify.Places okPos fun p' => Stmt.AllPlaced okPos p'.statements :=
  (Stmt.places_simplifyAll p.references .unreachableAtTop p.statements hp).bind
    fun _ hkept => places_pure hkept

end Dee
