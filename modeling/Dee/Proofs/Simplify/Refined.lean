import Dee.Proofs.Grammar.Source
import Dee.Proofs.Refinement.Code
import Dee.Proofs.Simplify.Removed

/-!
# Simplified code refines the code

What simplification gives may stand in the place of what it was given, if the names of the code are
among the used ones, its blocks stand at places, and the variables that it loses have plain initial
values.
-/

namespace Dee

/-- Whether simplification keeps the variables of a name. -/
def IsKept (used : List String) (name : String) : Prop := isUnused used name = false

theorem isKept_of_mem {used : List String} {name : String} (h : name ∈ used) :
    IsKept used name := by
  unfold IsKept isUnused
  simp [h]

/-- Whether the blocks of a statement stand at places, its parts aside. -/
def Stmt.isPlaced (s : Stmt) : Bool := s.positions.all Pos.isPlace

/-- What simplification asks of code: used names, plain variables where some are lost, and
places. -/
structure Simplifies (used : List String) (references : List String) (removed : List VarDef)
    (placed : Bool) : Prop where
  references : ∀ name ∈ references, name ∈ used
  plain : ∀ v ∈ removed, v.isPlain = true
  placed : placed = true

namespace Simplifies

variable {used refs refs' : List String} {vars vars' : List VarDef} {placed placed' : Bool}

theorem left (h : Simplifies used (refs ++ refs') (vars ++ vars') (placed && placed')) :
    Simplifies used refs vars placed where
  references := fun name hname => h.references name (List.mem_append_left _ hname)
  plain := fun v hv => h.plain v (List.mem_append_left _ hv)
  placed := (Bool.and_eq_true_iff.mp h.placed).1

theorem right (h : Simplifies used (refs ++ refs') (vars ++ vars') (placed && placed')) :
    Simplifies used refs' vars' placed' where
  references := fun name hname => h.references name (List.mem_append_right _ hname)
  plain := fun v hv => h.plain v (List.mem_append_right _ hv)
  placed := (Bool.and_eq_true_iff.mp h.placed).2

/-- A test of the node itself comes before the parts. -/
theorem parts (h : Simplifies used refs vars (placed && placed')) :
    Simplifies used refs vars placed' where
  references := h.references
  plain := h.plain
  placed := (Bool.and_eq_true_iff.mp h.placed).2

/-- Three parts, which the names and the tests put together in different ways. -/
theorem first {refs'' : List String} {vars'' : List VarDef} {placed'' : Bool}
    (h : Simplifies used (refs ++ refs' ++ refs'') (vars ++ (vars' ++ vars''))
      (placed && (placed' && placed''))) : Simplifies used refs vars placed := by
  rw [List.append_assoc] at h
  exact h.left

theorem second {refs'' : List String} {vars'' : List VarDef} {placed'' : Bool}
    (h : Simplifies used (refs ++ refs' ++ refs'') (vars ++ (vars' ++ vars''))
      (placed && (placed' && placed''))) : Simplifies used refs' vars' placed' := by
  rw [List.append_assoc] at h
  exact h.right.left

theorem third {refs'' : List String} {vars'' : List VarDef} {placed'' : Bool}
    (h : Simplifies used (refs ++ refs' ++ refs'') (vars ++ (vars' ++ vars''))
      (placed && (placed' && placed''))) : Simplifies used refs'' vars'' placed'' := by
  rw [List.append_assoc] at h
  exact h.right.right

end Simplifies

variable (used : List String)

/-- What simplification asks of an expression. -/
abbrev Expr.Simplifies (e : Expr) : Prop :=
  Dee.Simplifies used e.references (e.removed used)
    (e.everywhere (fun _ => true) Stmt.isPlaced)

/-- What simplification asks of statements in sequence. -/
abbrev Stmt.AllSimplify (ss : List Stmt) : Prop :=
  Dee.Simplifies used (Stmt.referencesAll ss) (Stmt.removedAll used ss)
    (Stmt.everywhereAll (fun _ => true) Stmt.isPlaced ss)

/-! ## Rules -/

theorem refines_foldBinary {kept : String → Prop} {pos : Pos} {op : String}
    {left right left' right' : Expr} (hleft : Expr.Refines kept left left')
    (hright : Expr.Refines kept right right') :
    Expr.Refines kept (.binary pos op left right) (foldBinary pos op left' right').result := by
  unfold foldBinary
  split
  · split
    next hv => exact .foldBinary hleft hright hv
    next => exact .binary hleft hright
  · exact .binary hleft hright

theorem refines_foldUnary {kept : String → Prop} {pos : Pos} {op : String}
    {operand operand' : Expr} (hoperand : Expr.Refines kept operand operand') :
    Expr.Refines kept (.unary pos op operand) (foldUnary pos op operand').result := by
  unfold foldUnary
  split
  · split
    next hv => exact .foldUnary hoperand hv
    next => exact .unary hoperand
  · exact .unary hoperand

theorem exists_of_constantCondition? {e : Expr} {b : Bool} (h : constantCondition? e = some b) :
    ∃ pos value kind, e = .literal pos value kind ∧ value.truthy = b := by
  unfold constantCondition? at h
  split at h
  next pos value =>
    cases h
    exact ⟨pos, value, _, rfl, rfl⟩
  · cases h

/-- What a statement may become: one that may stand in its place, or nothing. -/
def Stmt.Becomes (kept : String → Prop) (s : Stmt) : Option Stmt → Prop
  | some s' => Stmt.Refines kept s s'
  | none => ∃ pos vars, s = .declaration pos vars ∧ VarDef.RefinesAll kept vars []

theorem becomes_declaration {kept : String → Prop} {pos : Pos} {vars vars' : List VarDef}
    (h : VarDef.RefinesAll kept vars vars') :
    (Stmt.declaration pos vars).Becomes kept
      (if vars'.isEmpty then none else some (.declaration pos vars')) := by
  cases vars' with
  | nil => exact ⟨pos, vars, rfl, h⟩
  | cons v rest => exact Stmt.Refines.declaration h

/-- A conditional becomes the branch that runs, if its condition was folded. -/
theorem becomes_conditional_none {kept : String → Prop} {pos thenPos : Pos}
    {condition condition' : Expr} {body body' : List Stmt}
    (hcondition : Expr.Refines kept condition condition') (hplace : thenPos.isPlace = true)
    (hbody : constantCondition? condition' ≠ some false → Stmt.RefinesAll kept body body') :
    (Stmt.conditional pos condition ⟨thenPos, body⟩ none).Becomes kept
      (match constantCondition? condition' with
        | some true => some (.block ⟨thenPos, body'⟩)
        | some false => some (.block ⟨pos, []⟩)
        | none => some (.conditional pos condition' ⟨thenPos, body'⟩ none)) := by
  cases hc : constantCondition? condition' with
  | none => exact .conditional hcondition (.mk (hbody (by simp [hc]))) .none
  | some b =>
    obtain ⟨pos₁, value, kind, rfl, hvalue⟩ := exists_of_constantCondition? hc
    cases b with
    | true => exact .thenBranch hcondition hvalue hplace (.mk (hbody (by simp [hc])))
    | false => exact .noBranch hcondition hvalue

theorem becomes_conditional_some {kept : String → Prop} {pos thenPos elsePos : Pos}
    {condition condition' : Expr} {body body' other other' : List Stmt}
    (hcondition : Expr.Refines kept condition condition') (hthen : thenPos.isPlace = true)
    (helse : elsePos.isPlace = true)
    (hbody : constantCondition? condition' ≠ some false → Stmt.RefinesAll kept body body')
    (hother : constantCondition? condition' ≠ some true → Stmt.RefinesAll kept other other') :
    (Stmt.conditional pos condition ⟨thenPos, body⟩ (some ⟨elsePos, other⟩)).Becomes kept
      (match constantCondition? condition' with
        | some true => some (.block ⟨thenPos, body'⟩)
        | some false => some (.block ⟨elsePos, other'⟩)
        | none =>
          some (.conditional pos condition' ⟨thenPos, body'⟩ (some ⟨elsePos, other'⟩))) := by
  cases hc : constantCondition? condition' with
  | none =>
    exact .conditional hcondition (.mk (hbody (by simp [hc]))) (.some (.mk (hother (by simp [hc]))))
  | some b =>
    obtain ⟨pos₁, value, kind, rfl, hvalue⟩ := exists_of_constantCondition? hc
    cases b with
    | true => exact .thenBranch hcondition hvalue hthen (.mk (hbody (by simp [hc])))
    | false => exact .elseBranch hcondition hvalue helse (.mk (hother (by simp [hc])))

/-- One statement before others: it goes, ends the list, or stays. -/
theorem refinesAll_cons {kept : String → Prop} {s : Stmt} {rest rest' : List Stmt}
    {result : Option Stmt} : s.Becomes kept result →
    (result.any Stmt.isReturn = false → Stmt.RefinesAll kept rest rest') →
    Stmt.RefinesAll kept (s :: rest)
      (match result with
        | none => rest'
        | some s' => if s'.isReturn then [s'] else s' :: rest') := by
  intro hs hrest
  cases result with
  | none =>
    obtain ⟨pos, vars, rfl, hvars⟩ := hs
    exact .skip hvars (hrest rfl)
  | some s' =>
    cases hreturn : s'.isReturn with
    | false =>
      simp only [hreturn]
      exact .cons hs (hrest (by simpa using hreturn))
    | true =>
      simp only [hreturn, if_true]
      have hrefines : Stmt.Refines kept s s' := hs
      cases hrefines with
      | returnStmt hvalue => exact .cut hvalue
      | _ => cases hreturn

/-! ## The walk -/

variable {used} in
/-- A part whose names, lost variables and tests are among those of the whole. -/
theorem Simplifies.mono {refs refs' : List String} {vars vars' : List VarDef}
    {placed placed' : Bool} (h : Dee.Simplifies used refs vars placed)
    (hrefs : ∀ name ∈ refs', name ∈ refs) (hvars : ∀ v ∈ vars', v ∈ vars)
    (hplaced : placed = true → placed' = true) : Dee.Simplifies used refs' vars' placed' :=
  ⟨fun name hname => h.references name (hrefs name hname),
    fun v hv => h.plain v (hvars v hv), hplaced h.placed⟩

mutual

theorem Expr.refines_simplify : ∀ e : Expr, e.Simplifies used →
    Expr.Refines (IsKept used) e (e.simplify used).result
  | .literal _ _ _, _ => .literal
  | .reference pos name, h =>
    .reference (isKept_of_mem (h.references name (by simp [Expr.references])))
  | .binary pos op left right, h =>
    refines_foldBinary (Expr.refines_simplify left h.parts.left)
      (Expr.refines_simplify right h.parts.right)
  | .unary pos op operand, h => refines_foldUnary (Expr.refines_simplify operand h.parts)
  | .call pos func args, h =>
    .call (Expr.refines_simplify func h.parts.left) (Expr.refinesAll_simplify args h.parts.right)
  | .index pos value index, h =>
    .index (Expr.refines_simplify value h.parts.left) (Expr.refines_simplify index h.parts.right)
  | .array pos elements, h => .array (Expr.refinesAll_simplify elements h.parts)
  | .tuple pos entries, h => .tuple (TupleEntry.refinesAll_simplify entries h.parts)
  | .function pos params statements (some e), h =>
    .lambda (Expr.refines_simplify e (h.mono (fun _ hn => List.mem_append_right _ hn)
      (fun _ hv => hv) fun hp => (Expr.everywhere_function.mp hp).2.2))
  | .function pos params statements none, h =>
    .function (Stmt.refinesAll_simplify statements (h.mono (fun _ hn => List.mem_append_left _ hn)
      (fun _ hv => hv) fun hp => (Expr.everywhere_function.mp hp).2.1))
  | .typeCheck pos value indicator, h => .typeCheck (Expr.refines_simplify value h.parts)
  | .member pos value member, h => .member (Expr.refines_simplify value h.parts)

theorem Expr.refinesAll_simplify : ∀ es : List Expr,
    Dee.Simplifies used (Expr.referencesAll es) (Expr.removedAll used es)
      (Expr.everywhereAll (fun _ => true) Stmt.isPlaced es) →
    List.Forall₂ (Expr.Refines (IsKept used)) es (Expr.simplifyAll used es).result
  | [], _ => .nil
  | e :: rest, h => .cons (Expr.refines_simplify e h.left) (Expr.refinesAll_simplify rest h.right)

theorem Expr.refinesOption_simplify : ∀ e : Option Expr,
    Dee.Simplifies used (Expr.referencesOption e) (Expr.removedOption used e)
      (Expr.everywhereOption (fun _ => true) Stmt.isPlaced e) →
    Option.Rel (Expr.Refines (IsKept used)) e (Expr.simplifyOption used e).result
  | none, _ => .none
  | some e, h => .some (Expr.refines_simplify e h)

theorem TupleEntry.refinesAll_simplify : ∀ entries : List TupleEntry,
    Dee.Simplifies used (TupleEntry.referencesAll entries) (TupleEntry.removedAll used entries)
      (TupleEntry.everywhereAll (fun _ => true) Stmt.isPlaced entries) →
    List.Forall₂ (TupleEntry.Refines (IsKept used)) entries
      (TupleEntry.simplifyAll used entries).result
  | [], _ => .nil
  | ⟨_, e⟩ :: rest, h =>
    .cons (.mk (Expr.refines_simplify e h.left)) (TupleEntry.refinesAll_simplify rest h.right)

theorem Stmt.becomes_simplify : ∀ s : Stmt,
    Dee.Simplifies used s.references (s.removed used)
      (s.everywhere (fun _ => true) Stmt.isPlaced) →
    s.Becomes (IsKept used) (s.simplify used).result
  | .declaration pos vars, h => becomes_declaration (VarDef.refinesAll_simplify pos vars h.parts)
  | .assign pos target value, h =>
    Stmt.Refines.assign (Expr.refines_simplify target h.parts.left)
      (Expr.refines_simplify value h.parts.right)
  | .block ⟨pos, body⟩, h => Stmt.Refines.block (.mk (Stmt.refinesAll_simplify body h.parts))
  | .conditional pos condition ⟨thenPos, body⟩ none, h => by
    obtain ⟨hnode, -, -⟩ := Stmt.everywhere_conditional_none.mp h.placed
    rw [simplify_conditional_none]
    refine becomes_conditional_none (Expr.refines_simplify condition h.parts.left)
      (Stmt.all_two.mp hnode).2 fun hlive => Stmt.refinesAll_simplify body ?_
    refine h.parts.right.mono (fun _ hn => hn) (fun v hv => ?_) id
    split
    · exact hv
    next hdead => exact absurd hdead hlive
    · exact hv
  | .conditional pos condition ⟨thenPos, body⟩ (some ⟨elsePos, other⟩), h => by
    obtain ⟨hnode, hcondition, hbody, hother⟩ := Stmt.everywhere_conditional_some.mp h.placed
    obtain ⟨-, hthen, helse⟩ := Stmt.all_three.mp hnode
    rw [simplify_conditional_some]
    refine becomes_conditional_some (Expr.refines_simplify condition ?_) hthen helse
      (fun hlive => Stmt.refinesAll_simplify body ?_) fun hlive => Stmt.refinesAll_simplify other ?_
    · exact h.mono (fun _ hn => by simp [Stmt.references, hn])
        (fun _ hv => List.mem_append_left _ hv) fun _ => hcondition
    · refine h.mono (fun _ hn => by simp [Stmt.references, hn])
        (fun v hv => List.mem_append_right _ ?_) fun _ => hbody
      split
      · exact hv
      next hdead => exact absurd hdead hlive
      · exact List.mem_append_right _ hv
    · refine h.mono (fun _ hn => by simp [Stmt.references, hn])
        (fun v hv => List.mem_append_right _ ?_) fun _ => hother
      split
      next hdead => exact absurd hdead hlive
      · exact hv
      · exact List.mem_append_left _ hv
  | .whileLoop pos condition ⟨bodyPos, body⟩, h =>
    Stmt.Refines.whileLoop (Expr.refines_simplify condition h.parts.left)
      (.mk (Stmt.refinesAll_simplify body h.parts.right))
  | .forLoop pos loopVar ⟨bodyPos, body⟩ iterable rangeEnd, h =>
    Stmt.Refines.forLoop (.mk (Stmt.refinesAll_simplify body h.parts.third))
      (Expr.refinesOption_simplify iterable h.parts.first)
      (Expr.refinesOption_simplify rangeEnd h.parts.second)
  | .returnStmt pos value, h => Stmt.Refines.returnStmt (Expr.refinesOption_simplify value h.parts)
  | .exitStmt _, _ => Stmt.Refines.exitStmt
  | .continueStmt _, _ => Stmt.Refines.continueStmt
  | .print pos values, h => Stmt.Refines.print (Expr.refinesAll_simplify values h.parts)
  | .expr pos value, h => Stmt.Refines.expr (Expr.refines_simplify value h.parts)

theorem Stmt.refinesAll_simplify : ∀ ss : List Stmt, Stmt.AllSimplify used ss →
    Stmt.RefinesAll (IsKept used) ss (keptStatements used ss)
  | [], _ => .nil
  | s :: rest, h => by
    rw [keptStatements, simplifyAll_stmt_cons]
    refine refinesAll_cons (Stmt.becomes_simplify s h.left) fun hlive =>
      Stmt.refinesAll_simplify rest ?_
    refine h.right.mono (fun _ hn => hn) (fun v hv => ?_) id
    rw [if_neg (by simp [hlive])]
    exact hv

theorem VarDef.refinesAll_simplify (pos : Pos) : ∀ vars : List VarDef,
    Dee.Simplifies used (VarDef.referencesAll vars) (VarDef.removedAll used vars)
      (VarDef.everywhereAll (fun _ => true) Stmt.isPlaced vars) →
    VarDef.RefinesAll (IsKept used) vars (VarDef.simplifyAll used pos vars).result
  | [], _ => .nil
  | ⟨name, initializer⟩ :: rest, h => by
    rw [simplifyAll_var_cons]
    have hrest := VarDef.refinesAll_simplify pos rest h.right
    cases hunused : isUnused used name with
    | true =>
      rw [if_pos rfl]
      refine .drop (by simp [IsKept, hunused]) (h.plain _ ?_) hrest
      simp [VarDef.removedAll, hunused]
    | false =>
      rw [if_neg (by simp)]
      refine .keep hunused (Expr.refinesOption_simplify initializer ?_) hrest
      refine h.left.mono (fun _ hn => hn) (fun v hv => ?_) id
      rw [if_neg (by simp [hunused])]
      exact hv

end

end Dee
