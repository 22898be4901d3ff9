import Dee.Proofs.Grammar.Parsed
import Dee.Proofs.Simplify.WellFormed
import Dee.Scope

/-!
# Simplification brings in no fault

The simplified program declares fewer names than the program itself, but none that is referred to is
missing. `Scope.Narrows` compares the scopes at the same point of the two programs; under it the
faults of the simplified code are among those of the code, in the same order.

Main statement: `simplification_adds_no_fault`.
-/

namespace Dee

namespace Scope

variable {used : List String}

/-- Frame by frame the first scopes declare some of the names of the second, and all that are
used. -/
def FramesNarrow (used : List String) : List (List String) → List (List String) → Prop
  | [], [] => True
  | frame' :: rest', frame :: rest =>
    (∀ name ∈ frame', name ∈ frame) ∧ (∀ name ∈ frame, name ∈ used → name ∈ frame') ∧
      FramesNarrow used rest' rest
  | _, _ => False

/-- The first scope is the second without some names that are not used. -/
structure Narrows (used : List String) (s' s : Scope) : Prop where
  frames : FramesNarrow used s'.frames s.frames
  nonempty : s'.frames ≠ []
  inFunction : s'.inFunction = s.inFunction
  inLoop : s'.inLoop = s.inLoop

theorem narrows_top : Narrows used .top .top :=
  ⟨⟨by simp, by simp, trivial⟩, by simp [top], rfl, rfl⟩

variable {s' s : Scope} {name : String}

/-! ## Names in narrowed scopes -/

theorem Narrows.binds (h : Narrows used s' s) (hname : name ∈ used) (hb : s.binds name = true) :
    s'.binds name = true := by
  -- There are as many frames on both sides, so the mixed cases are void.
  have key : ∀ {fs' fs : List (List String)}, FramesNarrow used fs' fs →
      fs.any (·.contains name) = true → fs'.any (·.contains name) = true := by
    intro fs'
    induction fs' with
    | nil =>
      intro fs h hb
      cases fs with
      | nil => exact hb
      | cons frame rest => exact absurd h id
    | cons frame' rest' ih =>
      intro fs h hb
      cases fs with
      | nil => exact absurd h id
      | cons frame rest =>
        rw [List.any_cons, Bool.or_eq_true] at hb ⊢
        rcases hb with hb | hb
        · rw [List.contains_iff_mem] at hb ⊢
          exact Or.inl (h.2.1 name hb hname)
        · exact Or.inr (ih h.2.2 hb)
  exact key h.frames hb

theorem Narrows.bindsHere (h : Narrows used s' s) (hb : s'.bindsHere name = true) :
    s.bindsHere name = true := by
  obtain ⟨fs', f', l'⟩ := s'
  obtain ⟨fs, f, l⟩ := s
  have hframes := h.frames
  cases fs' with
  | nil => cases hb
  | cons frame' rest' =>
    cases fs with
    | nil => exact absurd hframes id
    | cons frame rest =>
      exact List.contains_iff_mem.mpr (hframes.1 name (List.contains_iff_mem.mp hb))

/-! ## Declaring -/

theorem Narrows.declare (h : Narrows used s' s) (name : String) :
    Narrows used (s'.declare name) (s.declare name) := by
  obtain ⟨fs', f', l'⟩ := s'
  obtain ⟨fs, f, l⟩ := s
  have hframes := h.frames
  cases fs' with
  | nil =>
    cases fs with
    | nil => exact absurd rfl h.nonempty
    | cons frame rest => exact absurd hframes id
  | cons frame' rest' =>
    cases fs with
    | nil => exact absurd hframes id
    | cons frame rest =>
      refine ⟨⟨fun n hn => ?_, fun n hn hu => ?_, hframes.2.2⟩, by simp [Scope.declare],
        h.inFunction, h.inLoop⟩
      · exact (List.mem_cons.mp hn).elim (fun h => by simp [h])
          fun h => List.mem_cons_of_mem _ (hframes.1 n h)
      · exact (List.mem_cons.mp hn).elim (fun h => by simp [h])
          fun h => List.mem_cons_of_mem _ (hframes.2.1 n h hu)

/-- The simplified program may miss a name that is not used. -/
theorem Narrows.declare_right (h : Narrows used s' s) (hname : name ∉ used) :
    Narrows used s' (s.declare name) := by
  obtain ⟨fs', f', l'⟩ := s'
  obtain ⟨fs, f, l⟩ := s
  have hframes := h.frames
  cases fs' with
  | nil => exact absurd rfl h.nonempty
  | cons frame' rest' =>
    cases fs with
    | nil => exact absurd hframes id
    | cons frame rest =>
      refine ⟨⟨fun n hn => List.mem_cons_of_mem _ (hframes.1 n hn), fun n hn hu => ?_,
        hframes.2.2⟩, h.nonempty, h.inFunction, h.inLoop⟩
      rcases List.mem_cons.mp hn with rfl | hn
      · exact absurd hu hname
      · exact hframes.2.1 n hn hu

/-- A name that is declared already may be declared again. -/
theorem Narrows.declare_left (h : Narrows used s' s) (hb : s.bindsHere name = true) :
    Narrows used (s'.declare name) s := by
  obtain ⟨fs', f', l'⟩ := s'
  obtain ⟨fs, f, l⟩ := s
  have hframes := h.frames
  cases fs with
  | nil => cases hb
  | cons frame rest =>
    cases fs' with
    | nil => exact absurd hframes id
    | cons frame' rest' =>
      refine ⟨⟨fun n hn => ?_, fun n hn hu => List.mem_cons_of_mem _ (hframes.2.1 n hn hu),
        hframes.2.2⟩, by simp [Scope.declare], h.inFunction, h.inLoop⟩
      rcases List.mem_cons.mp hn with rfl | hn
      · exact List.contains_iff_mem.mp hb
      · exact hframes.1 n hn

section Kept

variable (keep : String → Bool) (hkeep : ∀ name, keep name = false → name ∉ used)
include hkeep

/-- Names that are not used may be left out of a declaration. -/
theorem Narrows.declareAll (h : Narrows used s' s) (names : List String) :
    Narrows used (s'.declareAll (names.filter keep)) (s.declareAll names) := by
  unfold Scope.declareAll
  induction names generalizing s' s with
  | nil => exact h
  | cons name rest ih =>
    by_cases hk : keep name = true
    · rw [List.filter_cons_of_pos hk, List.foldl_cons, List.foldl_cons]
      exact ih (h.declare name)
    · rw [List.filter_cons_of_neg hk, List.foldl_cons]
      exact ih (h.declare_right (hkeep name (by simpa using hk)))

/-- A name that clashes in the simplified program clashed before. -/
theorem Narrows.repeated (h : Narrows used s' s) (names : List String) :
    (s'.repeated (names.filter keep)).Sublist (s.repeated names) := by
  induction names generalizing s' s with
  | nil => exact List.Sublist.slnil
  | cons name rest ih =>
    by_cases hk : keep name = true
    · rw [List.filter_cons_of_pos hk, Scope.repeated, Scope.repeated]
      by_cases hb' : s'.bindsHere name = true
      · rw [if_pos hb', if_pos (h.bindsHere hb')]
        exact (ih h).cons_cons name
      · rw [if_neg hb']
        split
        next hb =>
          -- It clashed with a name that is gone, so the simplified program declares it here.
          exact (ih (h.declare_left hb)).cons name
        next => exact ih (h.declare name)
    · rw [List.filter_cons_of_neg hk, Scope.repeated]
      split
      · exact (ih h).cons name
      · exact ih (h.declare_right (hkeep name (by simpa using hk)))

end Kept

theorem not_mem_of_isUnused (name : String) (h : (!isUnused used name) = false) : name ∉ used := by
  unfold isUnused at h
  rw [Bool.not_eq_false', Bool.and_eq_true] at h
  simpa using h.1

/-! ## Entering -/

theorem Narrows.enter (h : Narrows used s' s) : Narrows used s'.enter s.enter :=
  ⟨⟨by simp, by simp, h.frames⟩, by simp [Scope.enter], h.inFunction, h.inLoop⟩

theorem Narrows.enterFunction (h : Narrows used s' s) :
    Narrows used s'.enterFunction s.enterFunction :=
  ⟨⟨by simp, by simp, h.frames⟩, by simp [Scope.enterFunction, Scope.enter], rfl, h.inLoop⟩

theorem Narrows.enterLoop (h : Narrows used s' s) : Narrows used s'.enterLoop s.enterLoop :=
  ⟨h.frames, h.nonempty, h.inFunction, rfl⟩

end Scope

/-! ## Faults of simplified code -/

variable {used : List String}

/-- The names that the variables of a declaration keep. -/
theorem names_simplifyAll_var (pos : Pos) (vars : List VarDef) :
    (VarDef.simplifyAll used pos vars).result.map VarDef.name =
      (vars.map VarDef.name).filter fun name => !isUnused used name := by
  induction vars with
  | nil => rfl
  | cons v rest ih =>
    obtain ⟨name, initializer⟩ := v
    rw [simplifyAll_var_cons, List.map_cons]
    by_cases hu : isUnused used name = true
    · rw [if_pos hu, List.filter_cons_of_neg (by simp [hu]), ih]
    · rw [if_neg hu, List.filter_cons_of_pos (by simp [hu]), List.map_cons, ih]

theorem check_foldBinary (s : Scope) (pos : Pos) (op : String) (left right : Expr) :
    ((foldBinary pos op left right).result.check s).Sublist (left.check s ++ right.check s) := by
  have hsame : (Expr.binary pos op left right).check s = left.check s ++ right.check s := by
    rw [Expr.check]
  unfold foldBinary
  split
  · split
    · exact List.nil_sublist _
    · exact hsame ▸ List.Sublist.refl _
  · exact hsame ▸ List.Sublist.refl _

theorem check_foldUnary (s : Scope) (pos : Pos) (op : String) (operand : Expr) :
    ((foldUnary pos op operand).result.check s).Sublist (operand.check s) := by
  have hsame : (Expr.unary pos op operand).check s = operand.check s := by
    rw [Expr.check]
  unfold foldUnary
  split
  · split
    · exact List.nil_sublist _
    · exact hsame ▸ List.Sublist.refl _
  · exact hsame ▸ List.Sublist.refl _

/-- Only a declaration is dropped, when it keeps none of its variables. -/
theorem exists_of_simplify_eq_none : ∀ st : Stmt, (st.simplify used).result = none →
    ∃ pos vars, st = .declaration pos vars ∧ (VarDef.simplifyAll used pos vars).result = []
  | .declaration pos vars, hst => by
    rw [simplify_declaration] at hst
    split at hst
    next hempty => exact ⟨pos, vars, rfl, List.isEmpty_iff.mp hempty⟩
    · cases hst
  | .conditional pos condition ⟨thenPos, body⟩ none, hst => by
    rw [simplify_conditional_none] at hst
    split at hst <;> cases hst
  | .conditional pos condition ⟨thenPos, body⟩ (some ⟨elsePos, other⟩), hst => by
    rw [simplify_conditional_some] at hst
    split at hst <;> cases hst
  | .assign _ _ _, hst | .block ⟨_, _⟩, hst | .whileLoop _ _ ⟨_, _⟩, hst
  | .forLoop _ _ ⟨_, _⟩ _ _, hst | .returnStmt _ _, hst | .exitStmt _, hst
  | .continueStmt _, hst | .print _ _, hst | .expr _ _, hst => by cases hst

theorem Scope.Narrows.of_dropped {s' s : Scope} (h : Scope.Narrows used s' s) {st : Stmt}
    (hst : (st.simplify used).result = none) :
    Scope.Narrows used s' (s.declareAll st.declaredNames) := by
  obtain ⟨pos, vars, rfl, hkept⟩ := exists_of_simplify_eq_none st hst
  have hinner := h.declareAll _ Scope.not_mem_of_isUnused (vars.map VarDef.name)
  rw [← names_simplifyAll_var pos, hkept] at hinner
  exact hinner

variable (used)

mutual

theorem Expr.check_simplify : ∀ (e : Expr) {s' s : Scope}, Scope.Narrows used s' s →
    e.WellFormed → e.references ⊆ used → ((e.simplify used).result.check s').Sublist (e.check s)
  | .literal _ _ _, _, _, _, _, _ => List.nil_sublist _
  | .reference pos name, s', s, h, _, hu => by
    rw [simplify_reference, Expr.check, Expr.check]
    split
    · exact List.nil_sublist _
    next hb' =>
      -- A name that is referred to is used, so it was missing before.
      have hb : ¬ s.binds name = true := by
        intro hb
        exact hb' (h.binds (hu (by simp [Expr.references])) hb)
      simp [hb]
  | .binary pos op left right, s', s, h, hw, hu => by
    obtain ⟨-, hwleft, hwright⟩ := Expr.everywhere_binary.mp hw
    rw [Expr.references, List.append_subset] at hu
    rw [simplify_binary, Expr.check.eq_3]
    exact (check_foldBinary s' pos op _ _).trans
      ((Expr.check_simplify left h hwleft hu.1).append (Expr.check_simplify right h hwright hu.2))
  | .unary pos op operand, s', s, h, hw, hu => by
    obtain ⟨-, hwoperand⟩ := Expr.everywhere_unary.mp hw
    rw [Expr.references] at hu
    rw [simplify_unary, Expr.check.eq_4]
    exact (check_foldUnary s' pos op _).trans (Expr.check_simplify operand h hwoperand hu)
  | .call pos func args, s', s, h, hw, hu => by
    obtain ⟨-, hwfunc, hwargs⟩ := Expr.everywhere_call.mp hw
    rw [Expr.references, List.append_subset] at hu
    rw [simplify_call, Expr.check, Expr.check]
    exact (Expr.check_simplify func h hwfunc hu.1).append
      (Expr.checkAll_simplify args h hwargs hu.2)
  | .index pos value index, s', s, h, hw, hu => by
    obtain ⟨-, hwvalue, hwindex⟩ := Expr.everywhere_index.mp hw
    rw [Expr.references, List.append_subset] at hu
    rw [simplify_index, Expr.check, Expr.check]
    exact (Expr.check_simplify value h hwvalue hu.1).append
      (Expr.check_simplify index h hwindex hu.2)
  | .array pos elements, s', s, h, hw, hu => by
    obtain ⟨-, hwelements⟩ := Expr.everywhere_array.mp hw
    rw [Expr.references] at hu
    rw [simplify_array, Expr.check, Expr.check]
    exact Expr.checkAll_simplify elements h hwelements hu
  | .tuple pos entries, s', s, h, hw, hu => by
    obtain ⟨-, hwentries⟩ := Expr.everywhere_tuple.mp hw
    rw [Expr.references] at hu
    rw [simplify_tuple, Expr.check, Expr.check]
    exact TupleEntry.checkAll_simplify entries h hwentries hu
  | .function pos params statements (some e), s', s, h, hw, hu => by
    obtain ⟨hwnode, -, hwe⟩ := Expr.everywhere_function.mp hw
    rw [Expr.references, List.append_subset] at hu
    -- Statements beside an expression would be left as they are, and checked in a smaller scope.
    obtain rfl := Expr.statements_eq_nil hwnode
    have hinner := h.enterFunction.declareAll (fun _ => true) (by simp) params
    have hparams := h.enterFunction.repeated (fun _ => true) (by simp) params
    rw [List.filter_eq_self.mpr (by simp)] at hinner hparams
    rw [simplify_function_some, Expr.check, Expr.check]
    exact ((hparams.map _).append (Expr.check_simplify e hinner hwe hu.2)).append
      (List.nil_sublist _)
  | .function pos params statements none, s', s, h, hw, hu => by
    obtain ⟨-, hwstatements, -⟩ := Expr.everywhere_function.mp hw
    rw [Expr.references, List.append_subset] at hu
    have hinner := h.enterFunction.declareAll (fun _ => true) (by simp) params
    have hparams := h.enterFunction.repeated (fun _ => true) (by simp) params
    rw [List.filter_eq_self.mpr (by simp)] at hinner hparams
    rw [simplify_function_none, Expr.check, Expr.check]
    exact ((hparams.map _).append (List.nil_sublist _)).append
      (Stmt.checkAll_kept statements hinner hwstatements hu.1)
  | .typeCheck pos value indicator, s', s, h, hw, hu => by
    obtain ⟨-, hwvalue⟩ := Expr.everywhere_typeCheck.mp hw
    rw [Expr.references] at hu
    rw [simplify_typeCheck, Expr.check, Expr.check]
    exact Expr.check_simplify value h hwvalue hu
  | .member pos value member, s', s, h, hw, hu => by
    obtain ⟨-, hwvalue⟩ := Expr.everywhere_member.mp hw
    rw [Expr.references] at hu
    rw [simplify_member, Expr.check, Expr.check]
    exact Expr.check_simplify value h hwvalue hu

theorem Expr.checkAll_simplify : ∀ (es : List Expr) {s' s : Scope}, Scope.Narrows used s' s →
    Expr.AllWellFormed es → Expr.referencesAll es ⊆ used →
    (Expr.checkAll s' (Expr.simplifyAll used es).result).Sublist (Expr.checkAll s es)
  | [], _, _, _, _, _ => List.nil_sublist _
  | e :: rest, s', s, h, hw, hu => by
    obtain ⟨hwe, hwrest⟩ := Expr.everywhereAll_cons.mp hw
    rw [Expr.referencesAll, List.append_subset] at hu
    rw [simplifyAll_expr_cons, Expr.checkAll, Expr.checkAll]
    exact (Expr.check_simplify e h hwe hu.1).append (Expr.checkAll_simplify rest h hwrest hu.2)

theorem Expr.checkOption_simplify : ∀ (e : Option Expr) {s' s : Scope},
    Scope.Narrows used s' s →
    Expr.everywhereOption Expr.isWellFormed Stmt.isWellFormed e = true →
    Expr.referencesOption e ⊆ used →
    (Expr.checkOption s' (Expr.simplifyOption used e).result).Sublist (Expr.checkOption s e)
  | none, _, _, _, _, _ => List.nil_sublist _
  | some e, _, _, h, hw, hu => Expr.check_simplify e h hw hu

theorem TupleEntry.checkAll_simplify : ∀ (entries : List TupleEntry) {s' s : Scope},
    Scope.Narrows used s' s →
    TupleEntry.everywhereAll Expr.isWellFormed Stmt.isWellFormed entries = true →
    TupleEntry.referencesAll entries ⊆ used →
    (TupleEntry.checkAll s' (TupleEntry.simplifyAll used entries).result).Sublist
      (TupleEntry.checkAll s entries)
  | [], _, _, _, _, _ => List.nil_sublist _
  | ⟨name, e⟩ :: rest, s', s, h, hw, hu => by
    obtain ⟨hwe, hwrest⟩ := TupleEntry.everywhereAll_cons.mp hw
    rw [TupleEntry.referencesAll, List.append_subset] at hu
    rw [simplifyAll_entry_cons, TupleEntry.checkAll, TupleEntry.checkAll]
    exact (Expr.check_simplify e h hwe hu.1).append
      (TupleEntry.checkAll_simplify rest h hwrest hu.2)

/-- A statement that stays has no new faults, and what follows it sees no name less that is used. -/
theorem Stmt.check_simplify : ∀ (st st' : Stmt) {s' s : Scope}, Scope.Narrows used s' s →
    st.WellFormed → st.references ⊆ used → (st.simplify used).result = some st' →
    (st'.check s').Sublist (st.check s) ∧
      Scope.Narrows used (s'.declareAll st'.declaredNames) (s.declareAll st.declaredNames)
  | .declaration pos vars, st', s', s, h, hw, hu, hst => by
    obtain ⟨-, hwvars⟩ := Stmt.everywhere_declaration.mp hw
    rw [Stmt.references] at hu
    rw [simplify_declaration] at hst
    split at hst
    · cases hst
    · cases hst
      have hinner := h.declareAll _ Scope.not_mem_of_isUnused (vars.map VarDef.name)
      have hnames := h.repeated _ Scope.not_mem_of_isUnused (vars.map VarDef.name)
      rw [← names_simplifyAll_var pos] at hinner hnames
      refine ⟨?_, hinner⟩
      rw [Stmt.check, Stmt.check]
      exact (hnames.map _).append (VarDef.checkAll_simplify pos vars hinner hwvars hu)
  | .assign pos target value, st', s', s, h, hw, hu, hst => by
    obtain ⟨-, hwtarget, hwvalue⟩ := Stmt.everywhere_assign.mp hw
    rw [Stmt.references, List.append_subset] at hu
    rw [simplify_assign] at hst
    cases hst
    refine ⟨?_, h⟩
    rw [Stmt.check, Stmt.check]
    exact (Expr.check_simplify value h hwvalue hu.2).append
      (Expr.check_simplify target h hwtarget hu.1)
  | .block ⟨pos, body⟩, st', s', s, h, hw, hu, hst => by
    obtain ⟨-, hwbody⟩ := Stmt.everywhere_block.mp hw
    rw [Stmt.references] at hu
    rw [simplify_block] at hst
    cases hst
    refine ⟨?_, h⟩
    rw [Stmt.check, Stmt.check]
    exact Stmt.checkAll_kept body h.enter hwbody hu
  | .conditional pos condition ⟨thenPos, body⟩ none, st', s', s, h, hw, hu, hst => by
    obtain ⟨-, hwcondition, hwbody⟩ := Stmt.everywhere_conditional_none.mp hw
    rw [Stmt.references, List.append_subset] at hu
    have hbody := Stmt.checkAll_kept body h.enter hwbody hu.2
    rw [simplify_conditional_none] at hst
    rw [Stmt.check.eq_4]
    -- The condition is known to hold, known not to hold, or kept.
    split at hst <;> cases hst <;> refine ⟨?_, h⟩ <;> rw [Stmt.check]
    · exact hbody.trans (List.sublist_append_right _ _)
    · exact List.nil_sublist _
    · exact (Expr.check_simplify condition h hwcondition hu.1).append hbody
  | .conditional pos condition ⟨thenPos, body⟩ (some ⟨elsePos, other⟩), st', s', s, h, hw, hu,
      hst => by
    obtain ⟨-, hwcondition, hwbody, hwother⟩ := Stmt.everywhere_conditional_some.mp hw
    rw [Stmt.references, List.append_subset, List.append_subset] at hu
    have hbody := Stmt.checkAll_kept body h.enter hwbody hu.1.2
    have hother := Stmt.checkAll_kept other h.enter hwother hu.2
    rw [simplify_conditional_some] at hst
    rw [Stmt.check.eq_5]
    split at hst <;> cases hst <;> refine ⟨?_, h⟩ <;> rw [Stmt.check]
    · exact (hbody.trans (List.sublist_append_right _ _)).trans (List.sublist_append_left _ _)
    · exact hother.trans (List.sublist_append_right _ _)
    · exact ((Expr.check_simplify condition h hwcondition hu.1.1).append hbody).append hother
  | .whileLoop pos condition ⟨bodyPos, body⟩, st', s', s, h, hw, hu, hst => by
    obtain ⟨-, hwcondition, hwbody⟩ := Stmt.everywhere_whileLoop.mp hw
    rw [Stmt.references, List.append_subset] at hu
    rw [simplify_whileLoop] at hst
    cases hst
    refine ⟨?_, h⟩
    rw [Stmt.check, Stmt.check]
    exact (Expr.check_simplify condition h hwcondition hu.1).append
      (Stmt.checkAll_kept body h.enterLoop.enter hwbody hu.2)
  | .forLoop pos loopVar ⟨bodyPos, body⟩ iterable rangeEnd, st', s', s, h, hw, hu, hst => by
    obtain ⟨-, hwiterable, hwrangeEnd, hwbody⟩ := Stmt.everywhere_forLoop.mp hw
    rw [Stmt.references, List.append_subset, List.append_subset] at hu
    rw [simplify_forLoop] at hst
    cases hst
    refine ⟨?_, h⟩
    have hitems := (Expr.checkOption_simplify iterable h hwiterable hu.1.1).append
      (Expr.checkOption_simplify rangeEnd h hwrangeEnd hu.1.2)
    cases loopVar with
    | none =>
      rw [Stmt.check, Stmt.check]
      exact hitems.append (Stmt.checkAll_kept body h.enterLoop.enter hwbody hu.2)
    | some name =>
      rw [Stmt.check, Stmt.check]
      exact hitems.append
        (Stmt.checkAll_kept body (h.enterLoop.enter.declare name).enter hwbody hu.2)
  | .returnStmt pos value, st', s', s, h, hw, hu, hst => by
    obtain ⟨-, hwvalue⟩ := Stmt.everywhere_returnStmt.mp hw
    rw [Stmt.references] at hu
    rw [simplify_returnStmt] at hst
    cases hst
    refine ⟨?_, h⟩
    rw [Stmt.check, Stmt.check, h.inFunction]
    exact (List.Sublist.refl _).append (Expr.checkOption_simplify value h hwvalue hu)
  | .exitStmt pos, st', s', s, h, hw, hu, hst => by
    rw [simplify_exitStmt] at hst
    cases hst
    have hsame : (Stmt.exitStmt pos).check s' = (Stmt.exitStmt pos).check s := by
      rw [Stmt.check, Stmt.check, h.inLoop]
    exact ⟨hsame ▸ List.Sublist.refl _, h⟩
  | .continueStmt pos, st', s', s, h, hw, hu, hst => by
    rw [simplify_continueStmt] at hst
    cases hst
    have hsame : (Stmt.continueStmt pos).check s' = (Stmt.continueStmt pos).check s := by
      rw [Stmt.check, Stmt.check, h.inLoop]
    exact ⟨hsame ▸ List.Sublist.refl _, h⟩
  | .print pos values, st', s', s, h, hw, hu, hst => by
    obtain ⟨-, hwvalues⟩ := Stmt.everywhere_print.mp hw
    rw [Stmt.references] at hu
    rw [simplify_print] at hst
    cases hst
    refine ⟨?_, h⟩
    rw [Stmt.check, Stmt.check]
    exact Expr.checkAll_simplify values h hwvalues hu
  | .expr pos value, st', s', s, h, hw, hu, hst => by
    obtain ⟨-, hwvalue⟩ := Stmt.everywhere_expr.mp hw
    rw [Stmt.references] at hu
    rw [simplify_expr] at hst
    cases hst
    refine ⟨?_, h⟩
    rw [Stmt.check, Stmt.check]
    exact Expr.check_simplify value h hwvalue hu

theorem Stmt.checkAll_kept : ∀ (ss : List Stmt) {s' s : Scope}, Scope.Narrows used s' s →
    Stmt.AllWellFormed ss → Stmt.referencesAll ss ⊆ used →
    (Stmt.checkAll s' (keptStatements used ss)).Sublist (Stmt.checkAll s ss)
  | [], _, _, _, _, _ => List.nil_sublist _
  | st :: rest, s', s, h, hw, hu => by
    obtain ⟨hwst, hwrest⟩ := Stmt.everywhereAll_cons.mp hw
    rw [Stmt.referencesAll, List.append_subset] at hu
    rw [keptStatements, simplifyAll_stmt_cons, Stmt.checkAll.eq_2]
    split
    next hdropped =>
      exact (Stmt.checkAll_kept rest (Scope.Narrows.of_dropped h hdropped) hwrest hu.2).trans
        (List.sublist_append_right _ _)
    next st' hst =>
      obtain ⟨hcheck, hnext⟩ := Stmt.check_simplify st st' h hwst hu.1 hst
      split
      · -- What stands behind a return is gone, with all its faults.
        rw [Stmt.checkAll, Stmt.checkAll]
        exact hcheck.append (List.nil_sublist _)
      · rw [Stmt.checkAll]
        exact hcheck.append (Stmt.checkAll_kept rest hnext hwrest hu.2)

theorem VarDef.checkAll_simplify (pos : Pos) : ∀ (vars : List VarDef) {s' s : Scope},
    Scope.Narrows used s' s →
    VarDef.everywhereAll Expr.isWellFormed Stmt.isWellFormed vars = true →
    VarDef.referencesAll vars ⊆ used →
    (VarDef.checkAll s' (VarDef.simplifyAll used pos vars).result).Sublist
      (VarDef.checkAll s vars)
  | [], _, _, _, _, _ => List.nil_sublist _
  | ⟨name, initializer⟩ :: rest, s', s, h, hw, hu => by
    obtain ⟨hwinitializer, hwrest⟩ := VarDef.everywhereAll_cons.mp hw
    rw [VarDef.referencesAll, List.append_subset] at hu
    have hrest := VarDef.checkAll_simplify pos rest h hwrest hu.2
    rw [simplifyAll_var_cons, VarDef.checkAll.eq_2]
    split
    · exact hrest.trans (List.sublist_append_right _ _)
    · rw [VarDef.checkAll]
      exact (Expr.checkOption_simplify initializer h hwinitializer hu.1).append hrest

end

/-- The faults of a simplified program are among those of the program, in the same order. -/
theorem Program.faults_simplify {p : Program} (hw : p.WellFormed) :
    p.simplify.result.faults.Sublist p.faults := by
  rw [Program.simplify_result]
  exact Stmt.checkAll_kept p.references p.statements Scope.narrows_top hw (List.Subset.refl _)

/-! ## Parsed programs -/

/-- The diagnostics of a simplified program are among those of the program it was made from, with
the same positions and in the same order. In particular a program without faults stays without
faults. -/
theorem simplification_adds_no_fault (limits : Limits) (source : String) (p : Program)
    (hparse : parse source limits = .ok p) :
    p.simplify.result.analyze.Sublist p.analyze ∧
      (p.analyze = [] → p.simplify.result.analyze = []) := by
  have hsub : p.simplify.result.analyze.Sublist p.analyze :=
    (Program.faults_simplify (wellFormed_of_parse hparse)).map _
  refine ⟨hsub, ?_⟩
  intro hcheck
  rw [hcheck] at hsub
  exact List.eq_nil_of_sublist_nil hsub

/-- Three of five faults stand in what is dropped: in the initial value of a removed variable, in a
branch that never runs and behind a return. The two others stay. -/
theorem simplification_adds_no_fault_two_of_five :
    let source :=
      "var a, b := gone; var f := func(a, c) is return a + c; print lost end; " ++
        "if 2 < 1 then print none + x end; f(1, y); exit"
    ∃ p, parse source = .ok p ∧ p.analyze.length = 5 ∧ p.simplify.result.analyze.length = 2 ∧
      p.simplify.result.analyze.Sublist p.analyze ∧
      (p.analyze = [] → p.simplify.result.analyze = []) := by
  intro source
  have heval : ((parse source).toOption.elim false fun p =>
      decide (p.analyze.length = 5) && decide (p.simplify.result.analyze.length = 2)) = true := by
    decide +kernel
  cases hparse : parse source with
  | error e =>
    rw [hparse] at heval
    cases heval
  | ok p =>
    rw [hparse] at heval
    change (_ && _) = true at heval
    rw [Bool.and_eq_true, decide_eq_true_iff, decide_eq_true_iff] at heval
    exact ⟨p, rfl, heval.1, heval.2, simplification_adds_no_fault .standard source p hparse⟩

end Dee
