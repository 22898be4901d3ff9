import Dee.Proofs.Program.Size
import Dee.Proofs.Program.WellFormed
import Dee.Simplify

/-!
# Notes tell the whole truth

Simplification changes nothing that it does not note, and what it notes makes the program smaller.
`Noted.Truthful size a x` says so of a step `x` that was given the code `a`: either nothing was
noted and the result is `a` itself, or something was noted and the result has fewer nodes than `a`.
So a change in one part can neither be undone nor be hidden by what is built around the part.

A declaration without variables would be dropped without a note, but no such declaration is
well-formed.

Main statement: `Program.truthful_simplify`.
-/

namespace Dee

namespace Noted

variable {α β γ δ : Type}

/-! ## Steps -/

/-- Nothing is noted and the code stays as it is, or something is noted and the code gets
smaller. -/
def Truthful (size : α → Nat) (a : α) (x : Noted α) : Prop :=
  (x.notes = [] ∧ x.result = a) ∨ (x.notes ≠ [] ∧ size x.result < size a)

variable {sizeA : α → Nat} {sizeB : β → Nat} {sizeC : γ → Nat} {size : δ → Nat}
  {a : α} {b : β} {c : γ} {x : Noted α} {y : Noted β} {z : Noted γ}

theorem truthful_pure : (pure a : Noted α).Truthful sizeA a :=
  Or.inl ⟨rfl, rfl⟩

theorem Truthful.le (h : x.Truthful sizeA a) : sizeA x.result ≤ sizeA a := by
  rcases h with ⟨-, hsame⟩ | ⟨-, hless⟩
  · exact Nat.le_of_eq (congrArg sizeA hsame)
  · exact Nat.le_of_lt hless

theorem Truthful.notes_eq_nil_iff (h : x.Truthful sizeA a) : x.notes = [] ↔ x.result = a := by
  rcases h with ⟨hnone, hsame⟩ | ⟨hsome, hless⟩
  · exact iff_of_true hnone hsame
  · refine iff_of_false hsome fun hsame => ?_
    rw [hsame] at hless
    exact Nat.lt_irrefl _ hless

theorem Truthful.lt_of_notes (h : x.Truthful sizeA a) (hnotes : x.notes ≠ []) :
    sizeA x.result < sizeA a := by
  rcases h with ⟨hnone, -⟩ | ⟨-, hless⟩
  · exact absurd hnone hnotes
  · exact hless

/-- A step in two halves: what the first half leaves smaller stays smaller. -/
theorem Truthful.bind {f : α → Noted δ} {d : δ} (hx : x.Truthful sizeA a)
    (hsame : (f a).Truthful size d)
    (hless : sizeA x.result < sizeA a → size (f x.result).result < size d) :
    (x >>= f).Truthful size d := by
  rcases hx with ⟨hnone, hresult⟩ | ⟨hsome, hsmaller⟩
  · rcases hsame with ⟨hnone', hresult'⟩ | ⟨hsome', hless'⟩
    · refine Or.inl ⟨?_, ?_⟩
      · rw [notes_bind, hnone, hresult, hnone', List.append_nil]
      · rw [result_bind, hresult, hresult']
    · refine Or.inr ⟨?_, ?_⟩
      · rw [notes_bind, hnone, hresult, List.nil_append]
        exact hsome'
      · rw [result_bind, hresult]
        exact hless'
  · refine Or.inr ⟨?_, hless hsmaller⟩
    rw [notes_bind]
    exact List.append_ne_nil_of_left_ne_nil hsome _

/-- A node around one part. -/
theorem Truthful.one (k : Nat) {mk : α → δ} (hsize : ∀ a, size (mk a) = sizeA a + k)
    (hx : x.Truthful sizeA a) : (x >>= fun a' => pure (mk a')).Truthful size (mk a) := by
  refine hx.bind truthful_pure fun hless => ?_
  rw [result_pure, hsize, hsize]
  omega

/-- A node around two parts. -/
theorem Truthful.two (k : Nat) {mk : α → β → δ}
    (hsize : ∀ a b, size (mk a b) = sizeA a + sizeB b + k)
    (hx : x.Truthful sizeA a) (hy : y.Truthful sizeB b) :
    (x >>= fun a' => y >>= fun b' => pure (mk a' b')).Truthful size (mk a b) := by
  refine hx.bind (hy.one (sizeA a + k) fun b => ?_) fun hless => ?_
  · rw [hsize]
    omega
  · have := hy.le
    rw [result_bind, result_pure, hsize, hsize]
    omega

/-- A node around three parts. -/
theorem Truthful.three (k : Nat) {mk : α → β → γ → δ}
    (hsize : ∀ a b c, size (mk a b c) = sizeA a + sizeB b + sizeC c + k)
    (hx : x.Truthful sizeA a) (hy : y.Truthful sizeB b) (hz : z.Truthful sizeC c) :
    (x >>= fun a' => y >>= fun b' => z >>= fun c' => pure (mk a' b' c')).Truthful size
      (mk a b c) := by
  refine hx.bind (hy.two (sizeA a + k) (fun b c => ?_) hz) fun hless => ?_
  · rw [hsize]
    omega
  · have := hy.le
    have := hz.le
    rw [result_bind, result_bind, result_pure, hsize, hsize]
    omega

/-- A step that starts with a note is truthful if it gives less than it was given. -/
theorem truthful_note_bind {n : Note} {pos : Pos} {f : Unit → Noted δ} {d : δ}
    (hless : size (f ()).result < size d) : (note n pos >>= f).Truthful size d := by
  refine Or.inr ⟨?_, hless⟩
  rw [notes_bind, notes_note]
  exact List.append_ne_nil_of_left_ne_nil (List.cons_ne_nil _ _) _

end Noted

open Noted

/-! ## Single rules -/

theorem truthful_foldBinary (pos : Pos) (op : String) (left right : Expr) :
    (foldBinary pos op left right).Truthful Expr.size (.binary pos op left right) := by
  unfold foldBinary
  split
  · split
    · refine truthful_note_bind ?_
      simp [Expr.ofScalar, Expr.size]
    · exact truthful_pure
  · exact truthful_pure

theorem truthful_foldUnary (pos : Pos) (op : String) (operand : Expr) :
    (foldUnary pos op operand).Truthful Expr.size (.unary pos op operand) := by
  unfold foldUnary
  split
  · split
    · refine truthful_note_bind ?_
      simp [Expr.ofScalar, Expr.size]
    · exact truthful_pure
  · exact truthful_pure

/-! ## The walk -/

variable (used : List String)

mutual

theorem Expr.truthful_simplify : ∀ e : Expr, e.WellFormed →
    (e.simplify used).Truthful Expr.size e
  | .literal _ _ _, _ => truthful_pure
  | .reference _ _, _ => truthful_pure
  | .binary pos op left right, h => by
    obtain ⟨-, hleft, hright⟩ := Expr.everywhere_binary.mp h
    replace hleft := left.truthful_simplify hleft
    replace hright := right.truthful_simplify hright
    rw [Expr.simplify]
    -- If an operand was noted, folding the smaller operands may note more, but gives nothing
    -- larger.
    refine hleft.bind (hright.bind (truthful_foldBinary pos op left right) fun hless => ?_)
      fun hless => ?_
    · have := (truthful_foldBinary pos op left (right.simplify used).result).le
      simp only [Expr.size] at this ⊢
      omega
    · have := (truthful_foldBinary pos op (left.simplify used).result
        (right.simplify used).result).le
      have := hright.le
      simp only [Expr.size, result_bind] at *
      omega
  | .unary pos op operand, h => by
    obtain ⟨-, hoperand⟩ := Expr.everywhere_unary.mp h
    rw [Expr.simplify]
    refine (operand.truthful_simplify hoperand).bind (truthful_foldUnary pos op operand)
      fun hless => ?_
    have := (truthful_foldUnary pos op (operand.simplify used).result).le
    simp only [Expr.size] at this ⊢
    omega
  | .call _ func args, h => by
    obtain ⟨-, hfunc, hargs⟩ := Expr.everywhere_call.mp h
    rw [Expr.simplify]
    exact (func.truthful_simplify hfunc).two 1 (fun _ _ => rfl)
      (Expr.truthful_simplifyAll args hargs)
  | .index _ value index, h => by
    obtain ⟨-, hvalue, hindex⟩ := Expr.everywhere_index.mp h
    rw [Expr.simplify]
    exact (value.truthful_simplify hvalue).two 1 (fun _ _ => rfl) (index.truthful_simplify hindex)
  | .array _ elements, h => by
    obtain ⟨-, helements⟩ := Expr.everywhere_array.mp h
    rw [Expr.simplify]
    exact (Expr.truthful_simplifyAll elements helements).one 1 fun _ => rfl
  | .tuple _ entries, h => by
    obtain ⟨-, hentries⟩ := Expr.everywhere_tuple.mp h
    rw [Expr.simplify]
    exact (TupleEntry.truthful_simplifyAll entries hentries).one 1 fun _ => rfl
  | .function _ _ statements (some e), h => by
    obtain ⟨-, -, he⟩ := Expr.everywhere_function.mp h
    rw [Expr.simplify]
    refine (e.truthful_simplify he).one (Stmt.sizeAll statements + 1) fun e' => ?_
    rw [Expr.size, Expr.sizeOption]
    omega
  | .function _ _ statements none, h => by
    obtain ⟨-, hstatements, -⟩ := Expr.everywhere_function.mp h
    rw [Expr.simplify]
    exact (Stmt.truthful_simplifyAll _ statements hstatements).one 1 fun _ => rfl
  | .typeCheck _ value _, h => by
    obtain ⟨-, hvalue⟩ := Expr.everywhere_typeCheck.mp h
    rw [Expr.simplify]
    exact (value.truthful_simplify hvalue).one 1 fun _ => rfl
  | .member _ value _, h => by
    obtain ⟨-, hvalue⟩ := Expr.everywhere_member.mp h
    rw [Expr.simplify]
    exact (value.truthful_simplify hvalue).one 1 fun _ => rfl

theorem Expr.truthful_simplifyAll : ∀ es : List Expr,
    Expr.everywhereAll Expr.isWellFormed Stmt.isWellFormed es = true →
    (Expr.simplifyAll used es).Truthful Expr.sizeAll es
  | [], _ => truthful_pure
  | e :: rest, h => by
    obtain ⟨he, hrest⟩ := Expr.everywhereAll_cons.mp h
    rw [Expr.simplifyAll]
    exact (e.truthful_simplify he).two 0 (fun _ _ => rfl) (Expr.truthful_simplifyAll rest hrest)

theorem Expr.truthful_simplifyOption : ∀ e : Option Expr,
    Expr.everywhereOption Expr.isWellFormed Stmt.isWellFormed e = true →
    (Expr.simplifyOption used e).Truthful Expr.sizeOption e
  | none, _ => truthful_pure
  | some e, h => by
    rw [Expr.simplifyOption]
    exact (e.truthful_simplify h).one 0 fun _ => rfl

theorem TupleEntry.truthful_simplifyAll : ∀ entries : List TupleEntry,
    TupleEntry.everywhereAll Expr.isWellFormed Stmt.isWellFormed entries = true →
    (TupleEntry.simplifyAll used entries).Truthful TupleEntry.sizeAll entries
  | [], _ => truthful_pure
  | ⟨_, e⟩ :: rest, h => by
    obtain ⟨he, hrest⟩ := TupleEntry.everywhereAll_cons.mp h
    rw [TupleEntry.simplifyAll]
    refine (e.truthful_simplify he).two 1 (fun _ _ => ?_)
      (TupleEntry.truthful_simplifyAll rest hrest)
    rw [TupleEntry.sizeAll]
    omega

theorem Stmt.truthful_simplify : ∀ s : Stmt, s.WellFormed →
    (s.simplify used).Truthful Stmt.sizeOption (some s)
  | .declaration pos vars, h => by
    obtain ⟨hself, hvars⟩ := Stmt.everywhere_declaration.mp h
    replace hvars := VarDef.truthful_simplifyAll pos vars hvars
    have hne : vars.isEmpty = false := by
      rw [Stmt.isWellFormed, Bool.and_eq_true] at hself
      simpa using hself.1
    rw [Stmt.simplify]
    refine hvars.bind ?_ fun hless => ?_
    · rw [hne]
      exact truthful_pure
    · rw [result_pure]
      -- A declaration that loses all its variables is dropped with them.
      split
      · exact Stmt.size_pos _
      · exact Nat.succ_lt_succ hless
  | .assign _ target value, h => by
    obtain ⟨-, htarget, hvalue⟩ := Stmt.everywhere_assign.mp h
    rw [Stmt.simplify]
    exact (target.truthful_simplify htarget).two 1 (fun _ _ => rfl) (value.truthful_simplify hvalue)
  | .block ⟨_, body⟩, h => by
    obtain ⟨-, hbody⟩ := Stmt.everywhere_block.mp h
    rw [Stmt.simplify]
    exact (Stmt.truthful_simplifyAll _ body hbody).one 1 fun _ => rfl
  | .conditional pos condition ⟨thenPos, body⟩ none, h => by
    obtain ⟨-, hcondition, hbody⟩ := Stmt.everywhere_conditional_none.mp h
    replace hcondition := condition.truthful_simplify hcondition
    replace hbody := Stmt.truthful_simplifyAll .unreachableInBlock body hbody
    have hless := hbody.le
    rw [Stmt.simplify]
    -- A condition that is constant is noted; all other conditions stay in place.
    refine hcondition.bind ?_ fun hsmaller => ?_
    · split
      · refine truthful_note_bind ?_
        simp only [result_bind, result_pure, Stmt.sizeOption, Stmt.size]
        omega
      · refine truthful_note_bind ?_
        simp only [result_pure, Stmt.sizeOption, Stmt.size, Stmt.sizeAll]
        omega
      · refine hbody.one (condition.size + 2) fun body' => ?_
        simp only [Stmt.sizeOption, Stmt.size]
        omega
    · split <;> simp only [result_bind, result_pure, Stmt.sizeOption, Stmt.size, Stmt.sizeAll] <;>
        omega
  | .conditional pos condition ⟨thenPos, body⟩ (some ⟨elsePos, other⟩), h => by
    obtain ⟨-, hcondition, hbody, hother⟩ := Stmt.everywhere_conditional_some.mp h
    replace hcondition := condition.truthful_simplify hcondition
    replace hbody := Stmt.truthful_simplifyAll .unreachableInBlock body hbody
    replace hother := Stmt.truthful_simplifyAll .unreachableInBlock other hother
    have hless := hbody.le
    have hless' := hother.le
    rw [Stmt.simplify]
    refine hcondition.bind ?_ fun hsmaller => ?_
    · split
      · refine truthful_note_bind ?_
        simp only [result_bind, result_pure, Stmt.sizeOption, Stmt.size]
        omega
      · refine truthful_note_bind ?_
        simp only [result_bind, result_pure, Stmt.sizeOption, Stmt.size]
        omega
      · refine hother.two (condition.size + 3) (fun other' body' => ?_) hbody
        simp only [Stmt.sizeOption, Stmt.size]
        omega
    · split <;> simp only [result_bind, result_pure, Stmt.sizeOption, Stmt.size] <;> omega
  | .whileLoop _ condition ⟨_, body⟩, h => by
    obtain ⟨-, hcondition, hbody⟩ := Stmt.everywhere_whileLoop.mp h
    rw [Stmt.simplify]
    refine (condition.truthful_simplify hcondition).two 2 (fun condition' body' => ?_)
      (Stmt.truthful_simplifyAll _ body hbody)
    simp only [Stmt.sizeOption, Stmt.size]
    omega
  | .forLoop _ _ ⟨_, body⟩ iterable rangeEnd, h => by
    obtain ⟨-, hiterable, hrangeEnd, hbody⟩ := Stmt.everywhere_forLoop.mp h
    rw [Stmt.simplify]
    refine (Expr.truthful_simplifyOption iterable hiterable).three 2
      (fun iterable' rangeEnd' body' => ?_)
      (Expr.truthful_simplifyOption rangeEnd hrangeEnd) (Stmt.truthful_simplifyAll _ body hbody)
    simp only [Stmt.sizeOption, Stmt.size]
    omega
  | .returnStmt _ value, h => by
    obtain ⟨-, hvalue⟩ := Stmt.everywhere_returnStmt.mp h
    rw [Stmt.simplify]
    exact (Expr.truthful_simplifyOption value hvalue).one 1 fun _ => rfl
  | .exitStmt _, _ => truthful_pure
  | .continueStmt _, _ => truthful_pure
  | .print _ values, h => by
    obtain ⟨-, hvalues⟩ := Stmt.everywhere_print.mp h
    rw [Stmt.simplify]
    exact (Expr.truthful_simplifyAll values hvalues).one 1 fun _ => rfl
  | .expr _ value, h => by
    obtain ⟨-, hvalue⟩ := Stmt.everywhere_expr.mp h
    rw [Stmt.simplify]
    exact (value.truthful_simplify hvalue).one 1 fun _ => rfl

theorem Stmt.truthful_simplifyAll (unreachable : Note) : ∀ ss : List Stmt,
    Stmt.everywhereAll Expr.isWellFormed Stmt.isWellFormed ss = true →
    (Stmt.simplifyAll used unreachable ss).Truthful Stmt.sizeAll ss
  | [], _ => truthful_pure
  | s :: rest, h => by
    obtain ⟨hs, hrest⟩ := Stmt.everywhereAll_cons.mp h
    replace hs := s.truthful_simplify hs
    replace hrest := Stmt.truthful_simplifyAll unreachable rest hrest
    have hless := hrest.le
    rw [Stmt.simplifyAll]
    refine hs.bind ?_ fun hsmaller => ?_
    · -- The statement stays: what follows a return is dropped, each statement with a note.
      dsimp only
      split
      · cases rest with
        | nil => exact truthful_pure
        | cons dropped rest =>
          refine Or.inr ⟨List.cons_ne_nil _ _, ?_⟩
          have := Stmt.sizeAll_pos (List.cons_ne_nil dropped rest)
          simp only [Stmt.sizeAll] at this ⊢
          omega
      · refine hrest.one s.size fun rest' => ?_
        rw [Stmt.sizeAll]
        omega
    · cases hresult : (s.simplify used).result with
      | none =>
        have := s.size_pos
        simp only [Stmt.sizeAll]
        omega
      | some s' =>
        rw [hresult] at hsmaller
        simp only [Stmt.sizeOption] at hsmaller
        dsimp only
        split
        · simp only [Stmt.sizeAll]
          omega
        · simp only [result_bind, result_pure, Stmt.sizeAll]
          omega

theorem VarDef.truthful_simplifyAll (pos : Pos) : ∀ vars : List VarDef,
    VarDef.everywhereAll Expr.isWellFormed Stmt.isWellFormed vars = true →
    (VarDef.simplifyAll used pos vars).Truthful VarDef.sizeAll vars
  | [], _ => truthful_pure
  | ⟨name, initializer⟩ :: rest, h => by
    obtain ⟨hinitializer, hrest⟩ := VarDef.everywhereAll_cons.mp h
    replace hrest := VarDef.truthful_simplifyAll pos rest hrest
    rw [VarDef.simplifyAll]
    split
    · refine truthful_note_bind ?_
      have := hrest.le
      rw [VarDef.sizeAll]
      omega
    · refine (Expr.truthful_simplifyOption initializer hinitializer).two 1 (fun _ _ => ?_) hrest
      rw [VarDef.sizeAll]
      omega

end

/-- Simplifying a well-formed program notes nothing and gives the program back, or notes something
and gives a smaller one. -/
theorem Program.truthful_simplify {p : Program} (h : p.WellFormed) :
    p.simplify.Truthful Program.size p :=
  (Stmt.truthful_simplifyAll p.references .unreachableAtTop p.statements h).one 1 fun _ => rfl

end Dee
