import Dee.Proofs.Program.Everywhere
import Dee.Proofs.Program.Mentions
import Dee.Proofs.Store.Room

/-!
# The characters in string literals

How many characters the string literals of a piece of code have together. No string that operators
make of them is longer.
-/

namespace Dee

/-- How many characters a mention brings in: those of a string. -/
def Mention.characters : Mention → Nat
  | .literal value => value.size
  | _ => 0

/-- How many characters some mentions bring in. -/
def charactersOf : List Mention → Nat
  | [] => 0
  | first :: rest => first.characters + charactersOf rest

@[simp]
theorem charactersOf_cons (first : Mention) (ms : List Mention) :
    charactersOf (first :: ms) = first.characters + charactersOf ms := rfl

@[simp]
theorem charactersOf_append (ms ns : List Mention) :
    charactersOf (ms ++ ns) = charactersOf ms + charactersOf ns := by
  induction ms with
  | nil => exact (Nat.zero_add _).symm
  | cons first rest ih =>
    rw [List.cons_append, charactersOf_cons, ih, charactersOf_cons, Nat.add_assoc]

/-- How many characters the string literals of an expression have. -/
def Expr.characters (e : Expr) : Nat := charactersOf e.mentions

theorem Expr.characters_literal (pos : Pos) (value : Scalar) (kind : Kind) :
    (Expr.literal pos value kind).characters = value.size := by
  simp [characters, mentions, charactersOf, Mention.characters]

theorem Expr.characters_unary (pos : Pos) (op : String) (operand : Expr) :
    (Expr.unary pos op operand).characters = operand.characters := by
  simp [characters, mentions, Mention.characters]

theorem Expr.characters_binary (pos : Pos) (op : String) (left right : Expr) :
    (Expr.binary pos op left right).characters = left.characters + right.characters := by
  simp [characters, mentions, charactersOf, Mention.characters]

/-! ## Every node -/

section Everywhere

variable {p : Expr → Bool} {n : Nat} (hp : ∀ e, e.characters ≤ n → p e = true)
include hp

set_option linter.unusedSectionVars false

mutual

/-- No part of an expression has more characters than the whole. -/
theorem Expr.everywhere_of_characters : ∀ e : Expr, charactersOf e.mentions ≤ n →
    e.everywhere p (fun _ => true) = true
  | .literal _ _ _, h => hp _ h
  | .reference _ _, h => hp _ h
  | .binary _ _ left right, h => by
    have hparts := h
    simp only [Expr.mentions, charactersOf_append, charactersOf_cons] at hparts
    exact Expr.everywhere_binary.mpr ⟨hp _ h, Expr.everywhere_of_characters left (by omega),
      Expr.everywhere_of_characters right (by omega)⟩
  | .unary _ _ operand, h => by
    have hparts := h
    simp only [Expr.mentions, charactersOf_cons] at hparts
    exact Expr.everywhere_unary.mpr ⟨hp _ h, Expr.everywhere_of_characters operand (by omega)⟩
  | .call _ func args, h => by
    have hparts := h
    simp only [Expr.mentions, charactersOf_append] at hparts
    exact Expr.everywhere_call.mpr ⟨hp _ h, Expr.everywhere_of_characters func (by omega),
      Expr.everywhereAll_of_characters args (by omega)⟩
  | .index _ value index, h => by
    have hparts := h
    simp only [Expr.mentions, charactersOf_append] at hparts
    exact Expr.everywhere_index.mpr ⟨hp _ h, Expr.everywhere_of_characters value (by omega),
      Expr.everywhere_of_characters index (by omega)⟩
  | .array _ elements, h =>
    Expr.everywhere_array.mpr ⟨hp _ h, Expr.everywhereAll_of_characters elements h⟩
  | .tuple _ entries, h =>
    Expr.everywhere_tuple.mpr ⟨hp _ h, TupleEntry.everywhereAll_of_characters entries h⟩
  | .function _ _ statements expression, h => by
    have hparts := h
    simp only [Expr.mentions, charactersOf_append] at hparts
    exact Expr.everywhere_function.mpr ⟨hp _ h,
      Stmt.everywhereAll_of_characters statements (by omega),
      Expr.everywhereOption_of_characters expression (by omega)⟩
  | .typeCheck _ value _, h => by
    have hparts := h
    simp only [Expr.mentions, charactersOf_append] at hparts
    exact Expr.everywhere_typeCheck.mpr ⟨hp _ h, Expr.everywhere_of_characters value (by omega)⟩
  | .member _ value _, h => by
    have hparts := h
    simp only [Expr.mentions, charactersOf_append] at hparts
    exact Expr.everywhere_member.mpr ⟨hp _ h, Expr.everywhere_of_characters value (by omega)⟩

theorem Expr.everywhereAll_of_characters : ∀ es : List Expr,
    charactersOf (Expr.mentionsAll es) ≤ n → Expr.everywhereAll p (fun _ => true) es = true
  | [], _ => rfl
  | e :: rest, h => by
    simp only [Expr.mentionsAll, charactersOf_append] at h
    exact Expr.everywhereAll_cons.mpr ⟨Expr.everywhere_of_characters e (by omega),
      Expr.everywhereAll_of_characters rest (by omega)⟩

theorem Expr.everywhereOption_of_characters : ∀ e : Option Expr,
    charactersOf (Expr.mentionsOption e) ≤ n → Expr.everywhereOption p (fun _ => true) e = true
  | none, _ => rfl
  | some e, h => Expr.everywhere_of_characters e h

theorem TupleEntry.everywhereAll_of_characters : ∀ entries : List TupleEntry,
    charactersOf (TupleEntry.mentionsAll entries) ≤ n →
      TupleEntry.everywhereAll p (fun _ => true) entries = true
  | [], _ => rfl
  | ⟨_, e⟩ :: rest, h => by
    simp only [TupleEntry.mentionsAll, charactersOf_append] at h
    exact TupleEntry.everywhereAll_cons.mpr ⟨Expr.everywhere_of_characters e (by omega),
      TupleEntry.everywhereAll_of_characters rest (by omega)⟩

theorem Stmt.everywhere_of_characters : ∀ s : Stmt, charactersOf s.mentions ≤ n →
    s.everywhere p (fun _ => true) = true
  | .declaration _ vars, h =>
    Stmt.everywhere_declaration.mpr ⟨rfl, VarDef.everywhereAll_of_characters vars h⟩
  | .assign _ target value, h => by
    simp only [Stmt.mentions, charactersOf_append] at h
    exact Stmt.everywhere_assign.mpr ⟨rfl, Expr.everywhere_of_characters target (by omega),
      Expr.everywhere_of_characters value (by omega)⟩
  | .block ⟨_, body⟩, h =>
    Stmt.everywhere_block.mpr ⟨rfl, Stmt.everywhereAll_of_characters body h⟩
  | .conditional _ condition ⟨_, body⟩ none, h => by
    simp only [Stmt.mentions, charactersOf_append] at h
    exact Stmt.everywhere_conditional_none.mpr ⟨rfl,
      Expr.everywhere_of_characters condition (by omega),
      Stmt.everywhereAll_of_characters body (by omega)⟩
  | .conditional _ condition ⟨_, body⟩ (some ⟨_, other⟩), h => by
    simp only [Stmt.mentions, charactersOf_append] at h
    exact Stmt.everywhere_conditional_some.mpr ⟨rfl,
      Expr.everywhere_of_characters condition (by omega),
      Stmt.everywhereAll_of_characters body (by omega),
      Stmt.everywhereAll_of_characters other (by omega)⟩
  | .whileLoop _ condition ⟨_, body⟩, h => by
    simp only [Stmt.mentions, charactersOf_append] at h
    exact Stmt.everywhere_whileLoop.mpr ⟨rfl, Expr.everywhere_of_characters condition (by omega),
      Stmt.everywhereAll_of_characters body (by omega)⟩
  | .forLoop _ _ ⟨_, body⟩ iterable rangeEnd, h => by
    simp only [Stmt.mentions, charactersOf_append] at h
    exact Stmt.everywhere_forLoop.mpr ⟨rfl,
      Expr.everywhereOption_of_characters iterable (by omega),
      Expr.everywhereOption_of_characters rangeEnd (by omega),
      Stmt.everywhereAll_of_characters body (by omega)⟩
  | .returnStmt _ value, h =>
    Stmt.everywhere_returnStmt.mpr ⟨rfl, Expr.everywhereOption_of_characters value h⟩
  | .exitStmt _, _ => rfl
  | .continueStmt _, _ => rfl
  | .print _ values, h =>
    Stmt.everywhere_print.mpr ⟨rfl, Expr.everywhereAll_of_characters values h⟩
  | .expr _ value, h =>
    Stmt.everywhere_expr.mpr ⟨rfl, Expr.everywhere_of_characters value h⟩

theorem Stmt.everywhereAll_of_characters : ∀ ss : List Stmt,
    charactersOf (Stmt.mentionsAll ss) ≤ n → Stmt.everywhereAll p (fun _ => true) ss = true
  | [], _ => rfl
  | s :: rest, h => by
    simp only [Stmt.mentionsAll, charactersOf_append] at h
    exact Stmt.everywhereAll_cons.mpr ⟨Stmt.everywhere_of_characters s (by omega),
      Stmt.everywhereAll_of_characters rest (by omega)⟩

theorem VarDef.everywhereAll_of_characters : ∀ vars : List VarDef,
    charactersOf (VarDef.mentionsAll vars) ≤ n →
      VarDef.everywhereAll p (fun _ => true) vars = true
  | [], _ => rfl
  | ⟨_, initializer⟩ :: rest, h => by
    simp only [VarDef.mentionsAll, charactersOf_append, charactersOf_cons] at h
    exact VarDef.everywhereAll_cons.mpr
      ⟨Expr.everywhereOption_of_characters initializer (by omega),
        VarDef.everywhereAll_of_characters rest (by omega)⟩

end

end Everywhere

/-! ## Operators -/

namespace Scalar

variable {text : String} {a b c : Scalar}

/-- An operator makes no string that is longer than its operands together. -/
theorem size_le_of_combine (h : combine text a b = .ok c) : c.size ≤ a.size + b.size := by
  cases c with
  | str s =>
    obtain ⟨-, t, u, rfl, rfl, rfl⟩ := combine_eq_str.mp h
    exact Nat.le_of_eq (String.length_append t u)
  | _ => exact Nat.zero_le _

/-- A unary operator makes no string. -/
theorem size_of_unary (h : unary text a = .ok c) : c.size = 0 := by
  have hnumber : ∀ n : Number, (ofNumber n).size = 0 := by rintro (n | x) <;> rfl
  unfold unary at h
  split at h
  · cases h
  · cases a <;> cases h
    rfl
  · split at h
    · cases h
      exact hnumber _
    · cases h

end Scalar

end Dee
