import Dee.Proofs.Grammar.Parsed
import Dee.Proofs.Simplify.Normal
import Dee.Proofs.Simplify.Refined
import Dee.Proofs.Simplify.Truthful

/-!
# One walk reaches a normal form

Of a normal program simplification can only remove variables: an operand becomes a literal only if
it was that literal before, so no rule but the removal comes to apply. A removal may take the last
reference to another variable with it, so a second walk may still remove some.

Main statement: `simplification_reaches_normal_form`.
-/

namespace Dee

variable (used : List String)

/-! ## A second walk meets the same literals -/

/-- Simplifying an expression gives a literal only if the expression is that literal. -/
def Expr.KeepsLiterals (e : Expr) : Prop :=
  ∀ pos v k, (e.simplify used).result = .literal pos v k → e = .literal pos v k

variable {used} in
theorem foldsBinary_simplify {op : String} {left right : Expr} (hleft : left.KeepsLiterals used)
    (hright : right.KeepsLiterals used) (h : foldsBinary op left right = false) :
    foldsBinary op (left.simplify used).result (right.simplify used).result = false := by
  unfold foldsBinary
  split
  next hl hr =>
    rw [hleft _ _ _ hl, hright _ _ _ hr] at h
    exact h
  next => rfl

variable {used} in
theorem foldsUnary_simplify {op : String} {operand : Expr} (hoperand : operand.KeepsLiterals used)
    (h : foldsUnary op operand = false) : foldsUnary op (operand.simplify used).result = false := by
  unfold foldsUnary
  split
  next ho =>
    rw [hoperand _ _ _ ho] at h
    exact h
  next => rfl

theorem Expr.keepsLiterals_of_normal : ∀ e : Expr, e.Normal → e.KeepsLiterals used
  | .literal _ _ _, _ => fun _ _ _ hresult => hresult
  | .binary pos op left right, h => by
    obtain ⟨hnode, hleft, hright⟩ := Expr.everywhere_binary.mp h
    rw [Expr.isNormal, Bool.not_eq_true'] at hnode
    have hstays := foldsBinary_simplify (left.keepsLiterals_of_normal hleft)
      (right.keepsLiterals_of_normal hright) hnode
    intro pos' v k hresult
    rw [simplify_binary, foldBinary_eq hstays] at hresult
    cases hresult
  | .unary pos op operand, h => by
    obtain ⟨hnode, hoperand⟩ := Expr.everywhere_unary.mp h
    rw [Expr.isNormal, Bool.not_eq_true'] at hnode
    have hstays := foldsUnary_simplify (operand.keepsLiterals_of_normal hoperand) hnode
    intro pos' v k hresult
    rw [simplify_unary, foldUnary_eq hstays] at hresult
    cases hresult
  | .reference _ _, _ | .call _ _ _, _ | .index _ _ _, _ | .array _ _, _ | .tuple _ _, _
  | .function _ _ _ (some _), _ | .function _ _ _ none, _ | .typeCheck _ _ _, _
  | .member _ _ _, _ =>
    fun _ _ _ hresult => nomatch hresult

variable {used} in
theorem constantCondition?_simplify {e : Expr} (he : e.KeepsLiterals used)
    (h : constantCondition? e = none) : constantCondition? (e.simplify used).result = none := by
  cases hresult : constantCondition? (e.simplify used).result with
  | none => rfl
  | some b =>
    obtain ⟨pos, value, kind, hliteral, -⟩ := exists_of_constantCondition? hresult
    rw [he pos value kind hliteral, ← hliteral, hresult] at h
    cases h

/-- Simplification turns no other statement into a return. -/
theorem Stmt.isReturn_of_simplify : ∀ s s' : Stmt, (s.simplify used).result = some s' →
    s'.isReturn = true → s.isReturn = true
  | .returnStmt _ _, _ => fun _ _ => rfl
  | .declaration _ _, _ => by
    intro hs hreturn
    rw [simplify_declaration] at hs
    split at hs <;> cases hs
    cases hreturn
  | .conditional _ _ ⟨_, _⟩ none, _ => by
    intro hs hreturn
    rw [simplify_conditional_none] at hs
    split at hs <;> cases hs <;> cases hreturn
  | .conditional _ _ ⟨_, _⟩ (some ⟨_, _⟩), _ => by
    intro hs hreturn
    rw [simplify_conditional_some] at hs
    split at hs <;> cases hs <;> cases hreturn
  | .assign _ _ _, _ | .block ⟨_, _⟩, _ | .whileLoop _ _ ⟨_, _⟩, _ | .forLoop _ _ ⟨_, _⟩ _ _, _
  | .exitStmt _, _ | .continueStmt _, _ | .print _ _, _ | .expr _ _, _ => by
    rintro ⟨⟩ ⟨⟩

/-! ## A second walk only removes variables -/

namespace Noted

variable {α β : Type} {P : Note → Prop} {x : Noted α}

/-- Every note of a step is one of some kind. -/
def Only (P : Note → Prop) (x : Noted α) : Prop := ∀ n ∈ x.notes, P n.cause

theorem only_pure {a : α} : (pure a : Noted α).Only P := by
  intro n hn
  cases hn

theorem Only.bind {f : α → Noted β} (hx : x.Only P) (hf : (f x.result).Only P) :
    (x >>= f).Only P := by
  intro n hn
  rw [notes_bind, List.mem_append] at hn
  exact hn.elim (hx n) (hf n)

theorem Only.map {f : α → β} (hx : x.Only P) : (x >>= fun a => pure (f a)).Only P :=
  hx.bind only_pure

theorem only_note {n : Note} (h : P n) (pos : Pos) : (note n pos).Only P := by
  intro m hm
  rw [notes_note, List.mem_singleton] at hm
  rw [hm]
  exact h

end Noted

/-- Whether a statement declares only variables of some names, its parts aside. -/
def Stmt.declaresOnly (ok : String → Bool) : Stmt → Bool
  | .declaration _ vars => vars.all fun v => ok v.name
  | _ => true

/-- Whether a program declares only variables of some names, at any depth. -/
def Program.declaresOnly (ok : String → Bool) (p : Program) : Bool :=
  p.everywhere (fun _ => true) (Stmt.declaresOnly ok)

/-- A note on the removal of a variable of one of some names. -/
def Note.Removes (ok : String → Bool) (n : Note) : Prop :=
  ∃ name, n = .unused name ∧ isUnused used name = true ∧ ok name = true

section Removes

variable (ok : String → Bool)

mutual

theorem Expr.removes_simplify : ∀ e : Expr, e.everywhere Expr.isNormal Stmt.isNormal = true →
    e.everywhere (fun _ => true) (Stmt.declaresOnly ok) = true →
    (e.simplify used).Only (Note.Removes used ok)
  | .literal _ _ _, _, _ => Noted.only_pure
  | .reference _ _, _, _ => Noted.only_pure
  | .binary pos op left right, h, hd => by
    obtain ⟨hnode, hleft, hright⟩ := Expr.everywhere_binary.mp h
    obtain ⟨-, hdleft, hdright⟩ := Expr.everywhere_binary.mp hd
    rw [Expr.isNormal, Bool.not_eq_true'] at hnode
    rw [Expr.simplify]
    refine (left.removes_simplify hleft hdleft).bind
      ((right.removes_simplify hright hdright).bind ?_)
    -- The operator could not be applied before, and its operands give no new literals.
    rw [foldBinary_eq (foldsBinary_simplify (left.keepsLiterals_of_normal used hleft)
      (right.keepsLiterals_of_normal used hright) hnode)]
    exact Noted.only_pure
  | .unary pos op operand, h, hd => by
    obtain ⟨hnode, hoperand⟩ := Expr.everywhere_unary.mp h
    obtain ⟨-, hdoperand⟩ := Expr.everywhere_unary.mp hd
    rw [Expr.isNormal, Bool.not_eq_true'] at hnode
    rw [Expr.simplify]
    refine (operand.removes_simplify hoperand hdoperand).bind ?_
    rw [foldUnary_eq (foldsUnary_simplify (operand.keepsLiterals_of_normal used hoperand) hnode)]
    exact Noted.only_pure
  | .call _ func args, h, hd => by
    obtain ⟨-, hfunc, hargs⟩ := Expr.everywhere_call.mp h
    obtain ⟨-, hdfunc, hdargs⟩ := Expr.everywhere_call.mp hd
    rw [Expr.simplify]
    exact (func.removes_simplify hfunc hdfunc).bind (Expr.removes_simplifyAll args hargs hdargs).map
  | .index _ value index, h, hd => by
    obtain ⟨-, hvalue, hindex⟩ := Expr.everywhere_index.mp h
    obtain ⟨-, hdvalue, hdindex⟩ := Expr.everywhere_index.mp hd
    rw [Expr.simplify]
    exact (value.removes_simplify hvalue hdvalue).bind (index.removes_simplify hindex hdindex).map
  | .array _ elements, h, hd => by
    obtain ⟨-, helements⟩ := Expr.everywhere_array.mp h
    obtain ⟨-, hdelements⟩ := Expr.everywhere_array.mp hd
    rw [Expr.simplify]
    exact (Expr.removes_simplifyAll elements helements hdelements).map
  | .tuple _ entries, h, hd => by
    obtain ⟨-, hentries⟩ := Expr.everywhere_tuple.mp h
    obtain ⟨-, hdentries⟩ := Expr.everywhere_tuple.mp hd
    rw [Expr.simplify]
    exact (TupleEntry.removes_simplifyAll entries hentries hdentries).map
  | .function _ _ statements (some e), h, hd => by
    obtain ⟨-, -, he⟩ := Expr.everywhere_function.mp h
    obtain ⟨-, -, hde⟩ := Expr.everywhere_function.mp hd
    rw [Expr.simplify]
    exact (e.removes_simplify he hde).map
  | .function _ _ statements none, h, hd => by
    obtain ⟨hnode, hstatements, -⟩ := Expr.everywhere_function.mp h
    obtain ⟨-, hdstatements, -⟩ := Expr.everywhere_function.mp hd
    rw [Expr.simplify]
    exact (Stmt.removes_simplifyAll _ statements hnode hstatements hdstatements).map
  | .typeCheck _ value _, h, hd => by
    obtain ⟨-, hvalue⟩ := Expr.everywhere_typeCheck.mp h
    obtain ⟨-, hdvalue⟩ := Expr.everywhere_typeCheck.mp hd
    rw [Expr.simplify]
    exact (value.removes_simplify hvalue hdvalue).map
  | .member _ value _, h, hd => by
    obtain ⟨-, hvalue⟩ := Expr.everywhere_member.mp h
    obtain ⟨-, hdvalue⟩ := Expr.everywhere_member.mp hd
    rw [Expr.simplify]
    exact (value.removes_simplify hvalue hdvalue).map

theorem Expr.removes_simplifyAll : ∀ es : List Expr,
    Expr.everywhereAll Expr.isNormal Stmt.isNormal es = true →
    Expr.everywhereAll (fun _ => true) (Stmt.declaresOnly ok) es = true →
    (Expr.simplifyAll used es).Only (Note.Removes used ok)
  | [], _, _ => Noted.only_pure
  | e :: rest, h, hd => by
    obtain ⟨he, hrest⟩ := Expr.everywhereAll_cons.mp h
    obtain ⟨hde, hdrest⟩ := Expr.everywhereAll_cons.mp hd
    rw [Expr.simplifyAll]
    exact (e.removes_simplify he hde).bind (Expr.removes_simplifyAll rest hrest hdrest).map

theorem Expr.removes_simplifyOption : ∀ e : Option Expr,
    Expr.everywhereOption Expr.isNormal Stmt.isNormal e = true →
    Expr.everywhereOption (fun _ => true) (Stmt.declaresOnly ok) e = true →
    (Expr.simplifyOption used e).Only (Note.Removes used ok)
  | none, _, _ => Noted.only_pure
  | some e, h, hd => by
    rw [Expr.simplifyOption]
    exact (e.removes_simplify h hd).map

theorem TupleEntry.removes_simplifyAll : ∀ entries : List TupleEntry,
    TupleEntry.everywhereAll Expr.isNormal Stmt.isNormal entries = true →
    TupleEntry.everywhereAll (fun _ => true) (Stmt.declaresOnly ok) entries = true →
    (TupleEntry.simplifyAll used entries).Only (Note.Removes used ok)
  | [], _, _ => Noted.only_pure
  | ⟨_, e⟩ :: rest, h, hd => by
    obtain ⟨he, hrest⟩ := TupleEntry.everywhereAll_cons.mp h
    obtain ⟨hde, hdrest⟩ := TupleEntry.everywhereAll_cons.mp hd
    rw [TupleEntry.simplifyAll]
    exact (e.removes_simplify he hde).bind (TupleEntry.removes_simplifyAll rest hrest hdrest).map

theorem Stmt.removes_simplify : ∀ s : Stmt, s.everywhere Expr.isNormal Stmt.isNormal = true →
    s.everywhere (fun _ => true) (Stmt.declaresOnly ok) = true →
    (s.simplify used).Only (Note.Removes used ok)
  | .declaration pos vars, h, hd => by
    obtain ⟨-, hvars⟩ := Stmt.everywhere_declaration.mp h
    obtain ⟨hdnode, hdvars⟩ := Stmt.everywhere_declaration.mp hd
    rw [Stmt.simplify]
    exact (VarDef.removes_simplifyAll pos vars hvars hdnode hdvars).map
  | .assign _ target value, h, hd => by
    obtain ⟨-, htarget, hvalue⟩ := Stmt.everywhere_assign.mp h
    obtain ⟨-, hdtarget, hdvalue⟩ := Stmt.everywhere_assign.mp hd
    rw [Stmt.simplify]
    exact (target.removes_simplify htarget hdtarget).bind
      (value.removes_simplify hvalue hdvalue).map
  | .block ⟨_, body⟩, h, hd => by
    obtain ⟨hnode, hbody⟩ := Stmt.everywhere_block.mp h
    obtain ⟨-, hdbody⟩ := Stmt.everywhere_block.mp hd
    rw [Stmt.simplify]
    exact (Stmt.removes_simplifyAll _ body hnode hbody hdbody).map
  | .conditional _ condition ⟨_, body⟩ none, h, hd => by
    obtain ⟨hself, hcondition, hbody⟩ := Stmt.everywhere_conditional_none.mp h
    obtain ⟨-, hdcondition, hdbody⟩ := Stmt.everywhere_conditional_none.mp hd
    rw [Stmt.isNormal, Bool.and_eq_true, Option.isNone_iff_eq_none] at hself
    rw [Stmt.simplify]
    refine (condition.removes_simplify hcondition hdcondition).bind ?_
    -- The condition was no boolean literal and does not become one, so no branch is chosen.
    rw [constantCondition?_simplify (condition.keepsLiterals_of_normal used hcondition) hself.1]
    exact (Stmt.removes_simplifyAll _ body hself.2 hbody hdbody).map
  | .conditional _ condition ⟨_, body⟩ (some ⟨_, other⟩), h, hd => by
    obtain ⟨hself, hcondition, hbody, hother⟩ := Stmt.everywhere_conditional_some.mp h
    obtain ⟨-, hdcondition, hdbody, hdother⟩ := Stmt.everywhere_conditional_some.mp hd
    rw [Stmt.isNormal, Bool.and_eq_true, Bool.and_eq_true, Option.isNone_iff_eq_none] at hself
    rw [Stmt.simplify]
    refine (condition.removes_simplify hcondition hdcondition).bind ?_
    rw [constantCondition?_simplify (condition.keepsLiterals_of_normal used hcondition) hself.1]
    exact (Stmt.removes_simplifyAll _ other hself.2.2 hother hdother).bind
      (Stmt.removes_simplifyAll _ body hself.2.1 hbody hdbody).map
  | .whileLoop _ condition ⟨_, body⟩, h, hd => by
    obtain ⟨hnode, hcondition, hbody⟩ := Stmt.everywhere_whileLoop.mp h
    obtain ⟨-, hdcondition, hdbody⟩ := Stmt.everywhere_whileLoop.mp hd
    rw [Stmt.simplify]
    exact (condition.removes_simplify hcondition hdcondition).bind
      (Stmt.removes_simplifyAll _ body hnode hbody hdbody).map
  | .forLoop _ _ ⟨_, body⟩ iterable rangeEnd, h, hd => by
    obtain ⟨hnode, hiterable, hrangeEnd, hbody⟩ := Stmt.everywhere_forLoop.mp h
    obtain ⟨-, hditerable, hdrangeEnd, hdbody⟩ := Stmt.everywhere_forLoop.mp hd
    rw [Stmt.simplify]
    exact (Expr.removes_simplifyOption iterable hiterable hditerable).bind
      ((Expr.removes_simplifyOption rangeEnd hrangeEnd hdrangeEnd).bind
        (Stmt.removes_simplifyAll _ body hnode hbody hdbody).map)
  | .returnStmt _ value, h, hd => by
    obtain ⟨-, hvalue⟩ := Stmt.everywhere_returnStmt.mp h
    obtain ⟨-, hdvalue⟩ := Stmt.everywhere_returnStmt.mp hd
    rw [Stmt.simplify]
    exact (Expr.removes_simplifyOption value hvalue hdvalue).map
  | .exitStmt _, _, _ => Noted.only_pure
  | .continueStmt _, _, _ => Noted.only_pure
  | .print _ values, h, hd => by
    obtain ⟨-, hvalues⟩ := Stmt.everywhere_print.mp h
    obtain ⟨-, hdvalues⟩ := Stmt.everywhere_print.mp hd
    rw [Stmt.simplify]
    exact (Expr.removes_simplifyAll values hvalues hdvalues).map
  | .expr _ value, h, hd => by
    obtain ⟨-, hvalue⟩ := Stmt.everywhere_expr.mp h
    obtain ⟨-, hdvalue⟩ := Stmt.everywhere_expr.mp hd
    rw [Stmt.simplify]
    exact (value.removes_simplify hvalue hdvalue).map

theorem Stmt.removes_simplifyAll (unreachable : Note) : ∀ ss : List Stmt,
    Stmt.returnsLast ss = true → Stmt.everywhereAll Expr.isNormal Stmt.isNormal ss = true →
    Stmt.everywhereAll (fun _ => true) (Stmt.declaresOnly ok) ss = true →
    (Stmt.simplifyAll used unreachable ss).Only (Note.Removes used ok)
  | [], _, _, _ => Noted.only_pure
  | s :: rest, hlast, h, hd => by
    rw [Stmt.returnsLast_cons] at hlast
    obtain ⟨hs, hrest⟩ := Stmt.everywhereAll_cons.mp h
    obtain ⟨hds, hdrest⟩ := Stmt.everywhereAll_cons.mp hd
    have hbehind := Stmt.removes_simplifyAll unreachable rest hlast.2 hrest hdrest
    rw [Stmt.simplifyAll]
    refine (s.removes_simplify hs hds).bind ?_
    split
    next => exact hbehind
    next s' hs' =>
      split
      next hreturn =>
        -- Only a return becomes a return, and nothing stands behind it.
        rw [hlast.1 (s.isReturn_of_simplify used s' hs' hreturn)]
        exact Noted.only_pure
      next => exact hbehind.map

theorem VarDef.removes_simplifyAll (pos : Pos) : ∀ vars : List VarDef,
    VarDef.everywhereAll Expr.isNormal Stmt.isNormal vars = true →
    (vars.all fun v => ok v.name) = true →
    VarDef.everywhereAll (fun _ => true) (Stmt.declaresOnly ok) vars = true →
    (VarDef.simplifyAll used pos vars).Only (Note.Removes used ok)
  | [], _, _, _ => Noted.only_pure
  | ⟨name, initializer⟩ :: rest, h, hok, hd => by
    obtain ⟨hinitializer, hrest⟩ := VarDef.everywhereAll_cons.mp h
    obtain ⟨hdinitializer, hdrest⟩ := VarDef.everywhereAll_cons.mp hd
    rw [List.all_cons, Bool.and_eq_true] at hok
    have hbehind := VarDef.removes_simplifyAll pos rest hrest hok.2 hdrest
    rw [VarDef.simplifyAll]
    split
    next hunused => exact (Noted.only_note ⟨name, rfl, hunused, hok.1⟩ pos).bind hbehind
    next =>
      exact (Expr.removes_simplifyOption initializer hinitializer hdinitializer).bind hbehind.map

end

end Removes

/-- Of a normal program only variables are removed, each one declared and without a reference. -/
theorem Program.removes_simplify {p : Program} (h : p.Normal) {ok : String → Bool}
    (hd : p.declaresOnly ok = true) : p.simplify.Only (Note.Removes p.references ok) :=
  (Stmt.removes_simplifyAll p.references ok _ p.statements h.returnsLast h.everywhere hd).map

/-! ## One walk is enough -/

/-- Whether a variable of a name stays in a program: something refers to it, or it is marked. -/
def Program.stays (p : Program) (name : String) : Bool :=
  name.toList.head? = some '_' || p.references.contains name

theorem Program.isUnused_of_stays {p : Program} {name : String} (h : p.stays name = true) :
    isUnused p.references name = false := by
  rw [Program.stays, Bool.or_eq_true, decide_eq_true_eq] at h
  unfold isUnused
  rcases h with hmarked | hused
  · rw [hmarked]
    simp
  · rw [hused]
    rfl

/-- Simplification reaches a normal form in one walk. A second walk over its result folds nothing,
finds no dead branch and no unreachable statement: it can only remove variables whose last reference
went in the first walk. If there are none, it changes nothing and notes nothing. -/
theorem simplification_reaches_normal_form (limits : Limits) (source : String) (p : Program)
    (hparse : parse source limits = .ok p) :
    let once := p.simplify.result
    once.Normal ∧
    (∀ n ∈ once.simplify.notes, ∃ name, n.cause = .unused name) ∧
    (once.declaresOnly once.stays = true → once.simplify.result = once ∧
      once.simplify.notes = []) := by
  intro once
  have hp := wellFormed_of_parse hparse
  have hnormal : once.Normal := Program.normal_simplify hp
  refine ⟨hnormal, fun n hn => ?_, fun hstays => ?_⟩
  · have hall : once.declaresOnly (fun _ => true) = true :=
      Stmt.everywhereAll_of_all (fun _ => rfl) (fun s => by cases s <;> simp [Stmt.declaresOnly]) _
    obtain ⟨name, hname, -⟩ := Program.removes_simplify hnormal hall n hn
    exact ⟨name, hname⟩
  · have hnone : once.simplify.notes = [] := by
      rw [List.eq_nil_iff_forall_not_mem]
      intro n hn
      obtain ⟨name, -, hunused, hstay⟩ := Program.removes_simplify hnormal hstays n hn
      rw [Program.isUnused_of_stays hstay] at hunused
      cases hunused
    exact ⟨(Program.truthful_simplify (Program.wellFormed_simplify hp)).notes_eq_nil_iff.mp
      hnone, hnone⟩

/-- The only reference to `a` is in the initial value of `b`, which goes with `b`. A second walk has
nothing left of the sum and of the conditional, but it removes `a`. Had `b` been marked, both would
stay. -/
theorem simplification_reaches_normal_form_chain :
    ∃ p q,
      parse "var a := 1, b := a; if 1 < 2 then print 2 + 3 end" = .ok p ∧
      p.simplify.notes.length = 4 ∧
      p.simplify.result.simplify.notes ≠ [] ∧
      (∀ n ∈ p.simplify.result.simplify.notes, ∃ name, n.cause = .unused name) ∧
      parse "var a := 1, _b := a; if 1 < 2 then print 2 + 3 end" = .ok q ∧
      q.simplify.notes.length = 3 ∧
      q.simplify.result.declaresOnly q.simplify.result.stays = true ∧
      q.simplify.result.simplify.result = q.simplify.result := by
  have heval : (match parse "var a := 1, b := a; if 1 < 2 then print 2 + 3 end",
      parse "var a := 1, _b := a; if 1 < 2 then print 2 + 3 end" with
      | .ok p, .ok q => decide (p.simplify.notes.length = 4) &&
        !p.simplify.result.simplify.notes.isEmpty && decide (q.simplify.notes.length = 3) &&
        q.simplify.result.declaresOnly q.simplify.result.stays
      | _, _ => false) = true := by decide +kernel
  split at heval
  next p q hp hq =>
    simp only [Bool.and_eq_true, decide_eq_true_eq, Bool.not_eq_true',
      List.isEmpty_eq_false_iff] at heval
    obtain ⟨⟨⟨hnotes, hsecond⟩, hnotes'⟩, hstays⟩ := heval
    have hchain := simplification_reaches_normal_form .standard _ p hp
    have hmarked := simplification_reaches_normal_form .standard _ q hq
    exact ⟨p, q, hp, hnotes, hsecond, hchain.2.1, hq, hnotes', hstays, (hmarked.2.2 hstays).1⟩
  next => cases heval

end Dee
