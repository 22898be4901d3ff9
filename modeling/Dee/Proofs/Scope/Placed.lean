import Dee.Proofs.Program.Placed
import Dee.Scope

/-!
# Where scope analysis finds faults

Every fault of code at good positions lies at a good position: a fault is found at a node of the
code and takes the position of that node.
-/

namespace Dee

variable {okPos : Pos → Bool}

mutual

theorem Expr.allAt_check : ∀ (e : Expr) (s : Scope), e.Placed okPos → AllAt okPos (e.check s)
  | .literal _ _ _, _, _ => allAt_nil
  | .reference pos name, s, h => by
    rw [Expr.check]
    split
    · exact allAt_nil
    · exact allAt_singleton.mpr h.pos
  | .binary _ _ left right, s, h => by
    obtain ⟨-, hleft, hright⟩ := Expr.placed_binary.mp h
    exact allAt_append.mpr ⟨left.allAt_check s hleft, right.allAt_check s hright⟩
  | .unary _ _ operand, s, h => operand.allAt_check s (Expr.placed_unary.mp h).2
  | .call _ func args, s, h => by
    obtain ⟨-, hfunc, hargs⟩ := Expr.placed_call.mp h
    exact allAt_append.mpr ⟨func.allAt_check s hfunc, Expr.allAt_checkAll args s hargs⟩
  | .index _ value index, s, h => by
    obtain ⟨-, hvalue, hindex⟩ := Expr.placed_index.mp h
    exact allAt_append.mpr ⟨value.allAt_check s hvalue, index.allAt_check s hindex⟩
  | .array _ elements, s, h => Expr.allAt_checkAll elements s (Expr.placed_array.mp h).2
  | .tuple _ entries, s, h => TupleEntry.allAt_checkAll entries s (Expr.placed_tuple.mp h).2
  | .function pos params statements expression, s, h => by
    obtain ⟨hpos, hstatements, hexpression⟩ := Expr.placed_function.mp h
    rw [Expr.check, allAt_append, allAt_append]
    -- Parameters have no positions of their own: one that clashes is blamed on the function.
    refine ⟨⟨allAt_map fun _ _ => hpos, ?_⟩, ?_⟩
    · exact Expr.allAt_checkOption expression _ hexpression
    · exact Stmt.allAt_checkAll statements _ hstatements
  | .typeCheck _ value _, s, h => value.allAt_check s (Expr.placed_typeCheck.mp h).2
  | .member _ value _, s, h => value.allAt_check s (Expr.placed_member.mp h).2

theorem Expr.allAt_checkAll : ∀ (es : List Expr) (s : Scope), Expr.AllPlaced okPos es →
    AllAt okPos (Expr.checkAll s es)
  | [], _, _ => allAt_nil
  | e :: rest, s, h => by
    obtain ⟨he, hrest⟩ := Expr.allPlaced_cons.mp h
    exact allAt_append.mpr ⟨e.allAt_check s he, Expr.allAt_checkAll rest s hrest⟩

theorem Expr.allAt_checkOption : ∀ (e : Option Expr) (s : Scope), Expr.OptionPlaced okPos e →
    AllAt okPos (Expr.checkOption s e)
  | none, _, _ => allAt_nil
  | some e, s, h => e.allAt_check s h

theorem TupleEntry.allAt_checkAll : ∀ (entries : List TupleEntry) (s : Scope),
    TupleEntry.AllPlaced okPos entries → AllAt okPos (TupleEntry.checkAll s entries)
  | [], _, _ => allAt_nil
  | ⟨_, e⟩ :: rest, s, h => by
    obtain ⟨he, hrest⟩ := TupleEntry.allPlaced_cons.mp h
    exact allAt_append.mpr ⟨e.allAt_check s he, TupleEntry.allAt_checkAll rest s hrest⟩

theorem Stmt.allAt_check : ∀ (st : Stmt) (s : Scope), st.Placed okPos → AllAt okPos (st.check s)
  | .declaration pos vars, s, h => by
    obtain ⟨hpos, hvars⟩ := Stmt.placed_declaration.mp h
    rw [Stmt.check, allAt_append]
    exact ⟨allAt_map fun _ _ => hpos, VarDef.allAt_checkAll vars _ hvars⟩
  | .assign _ target value, s, h => by
    obtain ⟨-, htarget, hvalue⟩ := Stmt.placed_assign.mp h
    exact allAt_append.mpr ⟨value.allAt_check s hvalue, target.allAt_check s htarget⟩
  | .block ⟨_, body⟩, s, h => Stmt.allAt_checkAll body _ (Stmt.placed_block.mp h).statements
  | .conditional _ condition ⟨_, body⟩ none, s, h => by
    obtain ⟨-, hcondition, hthen, -⟩ := Stmt.placed_conditional.mp h
    exact allAt_append.mpr
      ⟨condition.allAt_check s hcondition, Stmt.allAt_checkAll body _ hthen.statements⟩
  | .conditional _ condition ⟨_, body⟩ (some ⟨_, other⟩), s, h => by
    obtain ⟨-, hcondition, hthen, helse⟩ := Stmt.placed_conditional.mp h
    have hother := (helse _ rfl).statements
    rw [Stmt.check, allAt_append, allAt_append]
    exact ⟨⟨condition.allAt_check s hcondition, Stmt.allAt_checkAll body _ hthen.statements⟩,
      Stmt.allAt_checkAll other _ hother⟩
  | .whileLoop _ condition ⟨_, body⟩, s, h => by
    obtain ⟨-, hcondition, hbody⟩ := Stmt.placed_whileLoop.mp h
    exact allAt_append.mpr
      ⟨condition.allAt_check s hcondition, Stmt.allAt_checkAll body _ hbody.statements⟩
  | .forLoop _ loopVar ⟨_, body⟩ iterable rangeEnd, s, h => by
    obtain ⟨-, hiterable, hrangeEnd, hbody⟩ := Stmt.placed_forLoop.mp h
    have hheader : AllAt okPos (Expr.checkOption s iterable ++ Expr.checkOption s rangeEnd) :=
      allAt_append.mpr ⟨Expr.allAt_checkOption iterable s hiterable,
        Expr.allAt_checkOption rangeEnd s hrangeEnd⟩
    cases loopVar with
    | none => exact allAt_append.mpr ⟨hheader, Stmt.allAt_checkAll body _ hbody.statements⟩
    | some name => exact allAt_append.mpr ⟨hheader, Stmt.allAt_checkAll body _ hbody.statements⟩
  | .returnStmt pos value, s, h => by
    obtain ⟨hpos, hvalue⟩ := Stmt.placed_returnStmt.mp h
    rw [Stmt.check, allAt_append]
    refine ⟨?_, Expr.allAt_checkOption value s hvalue⟩
    split
    · exact allAt_nil
    · exact allAt_singleton.mpr hpos
  | .exitStmt pos, s, h => by
    rw [Stmt.check]
    split
    · exact allAt_nil
    · exact allAt_singleton.mpr h.pos
  | .continueStmt pos, s, h => by
    rw [Stmt.check]
    split
    · exact allAt_nil
    · exact allAt_singleton.mpr h.pos
  | .print _ values, s, h => Expr.allAt_checkAll values s (Stmt.placed_print.mp h).2
  | .expr _ value, s, h => value.allAt_check s (Stmt.placed_expr.mp h).2

theorem Stmt.allAt_checkAll : ∀ (ss : List Stmt) (s : Scope), Stmt.AllPlaced okPos ss →
    AllAt okPos (Stmt.checkAll s ss)
  | [], _, _ => allAt_nil
  | st :: rest, s, h => by
    obtain ⟨hst, hrest⟩ := Stmt.allPlaced_cons.mp h
    exact allAt_append.mpr ⟨st.allAt_check s hst, Stmt.allAt_checkAll rest _ hrest⟩

theorem VarDef.allAt_checkAll : ∀ (vars : List VarDef) (s : Scope), VarDef.AllPlaced okPos vars →
    AllAt okPos (VarDef.checkAll s vars)
  | [], _, _ => allAt_nil
  | ⟨_, initializer⟩ :: rest, s, h => by
    obtain ⟨hinitializer, hrest⟩ := VarDef.allPlaced_cons.mp h
    exact allAt_append.mpr
      ⟨Expr.allAt_checkOption initializer s hinitializer, VarDef.allAt_checkAll rest s hrest⟩

end

/-- The faults of a program at good positions lie at good positions. -/
theorem Program.allAt_faults {p : Program} (hp : Stmt.AllPlaced okPos p.statements) :
    AllAt okPos p.faults :=
  Stmt.allAt_checkAll p.statements .top hp

end Dee
