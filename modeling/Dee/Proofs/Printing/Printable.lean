import Dee.Proofs.Decimal.Value
import Dee.Proofs.Printing.Pieces

/-!
# Every program has a text

The pieces of a well-formed program that can be written as it is are proper: names are identifiers,
operators have a meaning, numbers carry no sign. A proper piece has a spelling, unless it is a real
that no digits stand for. So such a program has a text that prints it, if its reals have spellings.

Main statement: `Program.exists_prints`.
-/

namespace Dee

/-! ## Proper pieces -/

/-- Whether a piece has a spelling, reals aside. -/
def Piece.isProper : Piece → Bool
  | .literal (.int n) => 0 ≤ n
  | .position index => (Member.position index).isWellFormed
  | .name text => isIdentifier text
  | .operator text => (BinaryOp.ofText? text).isSome || (UnaryOp.ofText? text).isSome
  | .indicator text =>
    isIndicator text && text ≠ Kind.arrayBrackets && text ≠ Kind.tupleBrackets
  | _ => true

/-- Whether all pieces of a list are proper. -/
abbrev Proper (ps : List Piece) : Prop := ps.all Piece.isProper = true

section Lists

variable {ps qs : List Piece} {p : Piece}

theorem proper_cons : Proper (p :: ps) ↔ p.isProper = true ∧ Proper ps := by
  rw [Proper, List.all_cons, Bool.and_eq_true]

theorem proper_append : Proper (ps ++ qs) ↔ Proper ps ∧ Proper qs := by
  rw [Proper, List.all_append, Bool.and_eq_true]

theorem Proper.guarded (h : Proper ps) (needed : Bool) : Proper (Piece.guarded needed ps) := by
  unfold Piece.guarded
  split
  · exact proper_cons.mpr ⟨rfl, proper_append.mpr ⟨h, rfl⟩⟩
  · exact h

theorem proper_intercalate (hp : p.isProper = true) {groups : List (List Piece)}
    (h : ∀ group ∈ groups, Proper group) : Proper ([p].intercalate groups) := by
  induction groups with
  | nil => rfl
  | cons group rest ih =>
    obtain ⟨hgroup, hrest⟩ := List.forall_mem_cons.mp h
    cases rest with
    | nil =>
      rw [List.intercalate_singleton]
      exact hgroup
    | cons second rest =>
      rw [List.intercalate_cons_cons, List.append_assoc, List.singleton_append]
      exact proper_append.mpr ⟨hgroup, proper_cons.mpr ⟨hp, ih hrest⟩⟩

theorem proper_ofMember {m : Member} (h : m.isWellFormed = true) :
    (Piece.ofMember m).isProper = true := by
  cases m with
  | named name => exact h
  | position index => exact h

theorem proper_ofIndicator {text : String} (h : isIndicator text = true) :
    Proper (Piece.ofIndicator text) := by
  unfold Piece.ofIndicator
  split
  · rfl
  next hbrackets =>
    split
    · rfl
    next hbraces =>
      refine proper_cons.mpr ⟨?_, rfl⟩
      simp [Piece.isProper, h, hbrackets, hbraces]

theorem proper_ofLoopVar {loopVar : Option String} (h : loopVar.all isIdentifier = true) :
    Proper (Piece.ofLoopVar loopVar) := by
  cases loopVar with
  | none => rfl
  | some v => exact proper_cons.mpr ⟨h, rfl⟩

theorem proper_params {params : List String} (h : params.all isIdentifier = true) :
    Proper (Piece.commas (params.map fun q => [.name q])) := by
  refine proper_intercalate rfl fun group hgroup => ?_
  obtain ⟨q, hq, rfl⟩ := List.mem_map.mp hgroup
  exact proper_cons.mpr ⟨List.all_eq_true.mp h q hq, rfl⟩

end Lists

/-! ## Pieces of programs -/

mutual

theorem Expr.proper_pieces : ∀ e : Expr,
    e.everywhere Expr.isWellFormed Stmt.isWellFormed = true →
    e.everywhere Expr.isWritten Stmt.isWritten = true → Proper e.pieces
  | .literal _ value _, _, hw => by
    rw [Expr.pieces]
    refine proper_cons.mpr ⟨?_, rfl⟩
    cases value with
    | int n => exact hw
    | _ => rfl
  | .reference _ _, h, _ => proper_cons.mpr ⟨h, rfl⟩
  | .binary _ _ left right, h, hw => by
    obtain ⟨hnode, hleft, hright⟩ := Expr.everywhere_binary.mp h
    obtain ⟨-, hwleft, hwright⟩ := Expr.everywhere_binary.mp hw
    rw [Expr.pieces]
    refine proper_append.mpr ⟨(Expr.proper_pieces left hleft hwleft).guarded _, ?_⟩
    refine proper_cons.mpr ⟨?_, (Expr.proper_pieces right hright hwright).guarded _⟩
    exact Bool.or_eq_true _ _ ▸ Or.inl hnode
  | .unary _ _ operand, h, hw => by
    obtain ⟨hnode, hoperand⟩ := Expr.everywhere_unary.mp h
    obtain ⟨-, hwoperand⟩ := Expr.everywhere_unary.mp hw
    rw [Expr.pieces]
    refine proper_cons.mpr ⟨?_, (Expr.proper_pieces operand hoperand hwoperand).guarded _⟩
    exact Bool.or_eq_true _ _ ▸ Or.inr hnode
  | .call _ func args, h, hw => by
    obtain ⟨-, hfunc, hargs⟩ := Expr.everywhere_call.mp h
    obtain ⟨-, hwfunc, hwargs⟩ := Expr.everywhere_call.mp hw
    rw [Expr.pieces]
    refine proper_append.mpr ⟨(Expr.proper_pieces func hfunc hwfunc).guarded _, ?_⟩
    refine proper_cons.mpr ⟨rfl, proper_append.mpr ⟨?_, rfl⟩⟩
    exact proper_intercalate rfl (Expr.proper_piecesAll args hargs hwargs)
  | .index _ value index, h, hw => by
    obtain ⟨-, hvalue, hindex⟩ := Expr.everywhere_index.mp h
    obtain ⟨-, hwvalue, hwindex⟩ := Expr.everywhere_index.mp hw
    rw [Expr.pieces]
    refine proper_append.mpr ⟨(Expr.proper_pieces value hvalue hwvalue).guarded _, ?_⟩
    exact proper_cons.mpr ⟨rfl, proper_append.mpr ⟨Expr.proper_pieces index hindex hwindex, rfl⟩⟩
  | .array _ elements, h, hw => by
    obtain ⟨-, helements⟩ := Expr.everywhere_array.mp h
    obtain ⟨-, hwelements⟩ := Expr.everywhere_array.mp hw
    rw [Expr.pieces]
    refine proper_cons.mpr ⟨rfl, proper_append.mpr ⟨?_, rfl⟩⟩
    exact proper_intercalate rfl (Expr.proper_piecesAll elements helements hwelements)
  | .tuple _ entries, h, hw => by
    obtain ⟨hnode, hentries⟩ := Expr.everywhere_tuple.mp h
    obtain ⟨-, hwentries⟩ := Expr.everywhere_tuple.mp hw
    rw [Expr.pieces]
    refine proper_cons.mpr ⟨rfl, proper_append.mpr ⟨?_, rfl⟩⟩
    exact proper_intercalate rfl
      (TupleEntry.proper_piecesAll entries (List.all_eq_true.mp hnode) hentries hwentries)
  | .function _ _ statements none, h, hw => by
    obtain ⟨hnode, hstatements, -⟩ := Expr.everywhere_function.mp h
    obtain ⟨-, hwstatements, -⟩ := Expr.everywhere_function.mp hw
    rw [Expr.isWellFormed, Bool.and_eq_true] at hnode
    rw [Expr.pieces]
    refine proper_cons.mpr ⟨rfl, proper_cons.mpr ⟨rfl, proper_append.mpr ⟨?_, ?_⟩⟩⟩
    · exact proper_params hnode.1
    · refine proper_cons.mpr ⟨rfl, proper_cons.mpr ⟨rfl, proper_append.mpr ⟨?_, rfl⟩⟩⟩
      exact proper_intercalate rfl (Stmt.proper_piecesAll statements hstatements hwstatements)
  | .function _ _ _ (some e), h, hw => by
    obtain ⟨hnode, -, he⟩ := Expr.everywhere_function.mp h
    obtain ⟨-, -, hwe⟩ := Expr.everywhere_function.mp hw
    rw [Expr.isWellFormed, Bool.and_eq_true] at hnode
    rw [Expr.pieces]
    refine proper_cons.mpr ⟨rfl, proper_cons.mpr ⟨rfl, proper_append.mpr ⟨?_, ?_⟩⟩⟩
    · exact proper_params hnode.1
    · exact proper_cons.mpr ⟨rfl, proper_cons.mpr ⟨rfl, Expr.proper_pieces e he hwe⟩⟩
  | .typeCheck _ value _, h, hw => by
    obtain ⟨hnode, hvalue⟩ := Expr.everywhere_typeCheck.mp h
    obtain ⟨-, hwvalue⟩ := Expr.everywhere_typeCheck.mp hw
    rw [Expr.pieces]
    refine proper_append.mpr ⟨(Expr.proper_pieces value hvalue hwvalue).guarded _, ?_⟩
    exact proper_cons.mpr ⟨rfl, proper_ofIndicator hnode⟩
  | .member _ value _, h, hw => by
    obtain ⟨hnode, hvalue⟩ := Expr.everywhere_member.mp h
    obtain ⟨-, hwvalue⟩ := Expr.everywhere_member.mp hw
    rw [Expr.pieces]
    refine proper_append.mpr ⟨(Expr.proper_pieces value hvalue hwvalue).guarded _, ?_⟩
    exact proper_cons.mpr ⟨rfl, proper_cons.mpr ⟨proper_ofMember hnode, rfl⟩⟩

theorem Expr.proper_piecesAll : ∀ es : List Expr,
    Expr.everywhereAll Expr.isWellFormed Stmt.isWellFormed es = true →
    Expr.everywhereAll Expr.isWritten Stmt.isWritten es = true →
    ∀ group ∈ Expr.piecesAll es, Proper group
  | [], _, _ => by simp [Expr.piecesAll]
  | e :: rest, h, hw => by
    obtain ⟨he, hrest⟩ := Expr.everywhereAll_cons.mp h
    obtain ⟨hwe, hwrest⟩ := Expr.everywhereAll_cons.mp hw
    exact List.forall_mem_cons.mpr
      ⟨Expr.proper_pieces e he hwe, Expr.proper_piecesAll rest hrest hwrest⟩

theorem TupleEntry.proper_piecesAll : ∀ entries : List TupleEntry,
    (∀ entry ∈ entries, entry.name.all isIdentifier = true) →
    TupleEntry.everywhereAll Expr.isWellFormed Stmt.isWellFormed entries = true →
    TupleEntry.everywhereAll Expr.isWritten Stmt.isWritten entries = true →
    ∀ group ∈ TupleEntry.piecesAll entries, Proper group
  | [], _, _, _ => by simp [TupleEntry.piecesAll]
  | ⟨none, e⟩ :: rest, hnames, h, hw => by
    obtain ⟨he, hrest⟩ := TupleEntry.everywhereAll_cons.mp h
    obtain ⟨hwe, hwrest⟩ := TupleEntry.everywhereAll_cons.mp hw
    refine List.forall_mem_cons.mpr ⟨Expr.proper_pieces e he hwe, ?_⟩
    exact TupleEntry.proper_piecesAll rest (List.forall_mem_cons.mp hnames).2 hrest hwrest
  | ⟨some _, e⟩ :: rest, hnames, h, hw => by
    obtain ⟨he, hrest⟩ := TupleEntry.everywhereAll_cons.mp h
    obtain ⟨hwe, hwrest⟩ := TupleEntry.everywhereAll_cons.mp hw
    obtain ⟨hname, hnames⟩ := List.forall_mem_cons.mp hnames
    refine List.forall_mem_cons.mpr ⟨?_, TupleEntry.proper_piecesAll rest hnames hrest hwrest⟩
    exact proper_cons.mpr ⟨hname, proper_cons.mpr ⟨rfl, Expr.proper_pieces e he hwe⟩⟩

theorem Stmt.proper_pieces : ∀ s : Stmt,
    s.everywhere Expr.isWellFormed Stmt.isWellFormed = true →
    s.everywhere Expr.isWritten Stmt.isWritten = true → Proper s.pieces
  | .declaration _ vars, h, hw => by
    obtain ⟨hnode, hvars⟩ := Stmt.everywhere_declaration.mp h
    obtain ⟨-, hwvars⟩ := Stmt.everywhere_declaration.mp hw
    rw [Stmt.isWellFormed, Bool.and_eq_true] at hnode
    rw [Stmt.pieces]
    refine proper_cons.mpr ⟨rfl, proper_intercalate rfl ?_⟩
    exact VarDef.proper_piecesAll vars (List.all_eq_true.mp hnode.2) hvars hwvars
  | .assign _ target value, h, hw => by
    obtain ⟨-, htarget, hvalue⟩ := Stmt.everywhere_assign.mp h
    obtain ⟨-, hwtarget, hwvalue⟩ := Stmt.everywhere_assign.mp hw
    rw [Stmt.pieces]
    refine proper_append.mpr ⟨Expr.proper_pieces target htarget hwtarget, ?_⟩
    exact proper_cons.mpr ⟨rfl, Expr.proper_pieces value hvalue hwvalue⟩
  | .block ⟨_, body⟩, h, hw => by
    obtain ⟨-, hbody⟩ := Stmt.everywhere_block.mp h
    obtain ⟨-, hwbody⟩ := Stmt.everywhere_block.mp hw
    rw [Stmt.pieces]
    exact proper_intercalate rfl (Stmt.proper_piecesAll body hbody hwbody)
  | .conditional _ condition ⟨_, body⟩ none, h, hw => by
    obtain ⟨-, hcondition, hbody⟩ := Stmt.everywhere_conditional_none.mp h
    obtain ⟨-, hwcondition, hwbody⟩ := Stmt.everywhere_conditional_none.mp hw
    rw [Stmt.pieces]
    refine proper_cons.mpr ⟨rfl, proper_append.mpr ⟨?_, ?_⟩⟩
    · exact Expr.proper_pieces condition hcondition hwcondition
    · refine proper_cons.mpr ⟨rfl, proper_append.mpr ⟨?_, rfl⟩⟩
      exact proper_intercalate rfl (Stmt.proper_piecesAll body hbody hwbody)
  | .conditional _ condition ⟨_, body⟩ (some ⟨_, other⟩), h, hw => by
    obtain ⟨-, hcondition, hbody, hother⟩ := Stmt.everywhere_conditional_some.mp h
    obtain ⟨-, hwcondition, hwbody, hwother⟩ := Stmt.everywhere_conditional_some.mp hw
    rw [Stmt.pieces]
    refine proper_cons.mpr ⟨rfl, proper_append.mpr ⟨?_, ?_⟩⟩
    · exact Expr.proper_pieces condition hcondition hwcondition
    · refine proper_cons.mpr ⟨rfl, proper_append.mpr ⟨?_, ?_⟩⟩
      · exact proper_intercalate rfl (Stmt.proper_piecesAll body hbody hwbody)
      · refine proper_cons.mpr ⟨rfl, proper_append.mpr ⟨?_, rfl⟩⟩
        exact proper_intercalate rfl (Stmt.proper_piecesAll other hother hwother)
  | .whileLoop _ condition ⟨_, body⟩, h, hw => by
    obtain ⟨-, hcondition, hbody⟩ := Stmt.everywhere_whileLoop.mp h
    obtain ⟨-, hwcondition, hwbody⟩ := Stmt.everywhere_whileLoop.mp hw
    rw [Stmt.pieces]
    refine proper_cons.mpr ⟨rfl, proper_append.mpr ⟨?_, ?_⟩⟩
    · exact Expr.proper_pieces condition hcondition hwcondition
    · refine proper_cons.mpr ⟨rfl, proper_append.mpr ⟨?_, rfl⟩⟩
      exact proper_intercalate rfl (Stmt.proper_piecesAll body hbody hwbody)
  | .forLoop _ _ ⟨_, body⟩ none _, h, hw => by
    obtain ⟨-, -, -, hbody⟩ := Stmt.everywhere_forLoop.mp h
    obtain ⟨-, -, -, hwbody⟩ := Stmt.everywhere_forLoop.mp hw
    rw [Stmt.pieces]
    refine proper_cons.mpr ⟨rfl, proper_append.mpr ⟨?_, rfl⟩⟩
    exact proper_intercalate rfl (Stmt.proper_piecesAll body hbody hwbody)
  | .forLoop _ _ ⟨_, body⟩ (some source) none, h, hw => by
    obtain ⟨hnode, hsource, -, hbody⟩ := Stmt.everywhere_forLoop.mp h
    obtain ⟨-, hwsource, -, hwbody⟩ := Stmt.everywhere_forLoop.mp hw
    rw [Stmt.isWellFormed, Bool.and_eq_true] at hnode
    rw [Stmt.pieces]
    refine proper_cons.mpr ⟨rfl, proper_append.mpr ⟨proper_ofLoopVar hnode.1, ?_⟩⟩
    refine proper_append.mpr ⟨Expr.proper_pieces source hsource hwsource, ?_⟩
    refine proper_cons.mpr ⟨rfl, proper_append.mpr ⟨?_, rfl⟩⟩
    exact proper_intercalate rfl (Stmt.proper_piecesAll body hbody hwbody)
  | .forLoop _ _ ⟨_, body⟩ (some source) (some rangeEnd), h, hw => by
    obtain ⟨hnode, hsource, hrangeEnd, hbody⟩ := Stmt.everywhere_forLoop.mp h
    obtain ⟨-, hwsource, hwrangeEnd, hwbody⟩ := Stmt.everywhere_forLoop.mp hw
    rw [Stmt.isWellFormed, Bool.and_eq_true] at hnode
    rw [Stmt.pieces]
    refine proper_cons.mpr ⟨rfl, proper_append.mpr ⟨proper_ofLoopVar hnode.1, ?_⟩⟩
    refine proper_append.mpr ⟨Expr.proper_pieces source hsource hwsource, ?_⟩
    refine proper_cons.mpr ⟨rfl, proper_append.mpr ⟨?_, ?_⟩⟩
    · exact Expr.proper_pieces rangeEnd hrangeEnd hwrangeEnd
    · refine proper_cons.mpr ⟨rfl, proper_append.mpr ⟨?_, rfl⟩⟩
      exact proper_intercalate rfl (Stmt.proper_piecesAll body hbody hwbody)
  | .returnStmt _ none, _, _ => rfl
  | .returnStmt _ (some e), h, hw => by
    obtain ⟨-, he⟩ := Stmt.everywhere_returnStmt.mp h
    obtain ⟨-, hwe⟩ := Stmt.everywhere_returnStmt.mp hw
    rw [Stmt.pieces]
    exact proper_cons.mpr ⟨rfl, Expr.proper_pieces e he hwe⟩
  | .exitStmt _, _, _ => rfl
  | .continueStmt _, _, _ => rfl
  | .print _ values, h, hw => by
    obtain ⟨-, hvalues⟩ := Stmt.everywhere_print.mp h
    obtain ⟨-, hwvalues⟩ := Stmt.everywhere_print.mp hw
    rw [Stmt.pieces]
    refine proper_cons.mpr ⟨rfl, proper_intercalate rfl ?_⟩
    exact Expr.proper_piecesAll values hvalues hwvalues
  | .expr _ value, h, hw => by
    obtain ⟨-, hvalue⟩ := Stmt.everywhere_expr.mp h
    obtain ⟨-, hwvalue⟩ := Stmt.everywhere_expr.mp hw
    rw [Stmt.pieces]
    exact Expr.proper_pieces value hvalue hwvalue

theorem Stmt.proper_piecesAll : ∀ ss : List Stmt,
    Stmt.everywhereAll Expr.isWellFormed Stmt.isWellFormed ss = true →
    Stmt.everywhereAll Expr.isWritten Stmt.isWritten ss = true →
    ∀ group ∈ Stmt.piecesAll ss, Proper group
  | [], _, _ => by simp [Stmt.piecesAll]
  | s :: rest, h, hw => by
    obtain ⟨hs, hrest⟩ := Stmt.everywhereAll_cons.mp h
    obtain ⟨hws, hwrest⟩ := Stmt.everywhereAll_cons.mp hw
    exact List.forall_mem_cons.mpr
      ⟨Stmt.proper_pieces s hs hws, Stmt.proper_piecesAll rest hrest hwrest⟩

theorem VarDef.proper_piecesAll : ∀ vars : List VarDef,
    (∀ v ∈ vars, isIdentifier v.name = true) →
    VarDef.everywhereAll Expr.isWellFormed Stmt.isWellFormed vars = true →
    VarDef.everywhereAll Expr.isWritten Stmt.isWritten vars = true →
    ∀ group ∈ VarDef.piecesAll vars, Proper group
  | [], _, _, _ => by simp [VarDef.piecesAll]
  | ⟨_, none⟩ :: rest, hnames, h, hw => by
    obtain ⟨-, hrest⟩ := VarDef.everywhereAll_cons.mp h
    obtain ⟨-, hwrest⟩ := VarDef.everywhereAll_cons.mp hw
    obtain ⟨hname, hnames⟩ := List.forall_mem_cons.mp hnames
    refine List.forall_mem_cons.mpr ⟨proper_cons.mpr ⟨hname, rfl⟩, ?_⟩
    exact VarDef.proper_piecesAll rest hnames hrest hwrest
  | ⟨_, some e⟩ :: rest, hnames, h, hw => by
    obtain ⟨he, hrest⟩ := VarDef.everywhereAll_cons.mp h
    obtain ⟨hwe, hwrest⟩ := VarDef.everywhereAll_cons.mp hw
    obtain ⟨hname, hnames⟩ := List.forall_mem_cons.mp hnames
    refine List.forall_mem_cons.mpr ⟨?_, VarDef.proper_piecesAll rest hnames hrest hwrest⟩
    exact proper_cons.mpr ⟨hname, proper_cons.mpr ⟨rfl, Expr.proper_pieces e he hwe⟩⟩

end

/-! ## Spellings -/

theorem isDigits_digits (n : Nat) : isDigits (Decimal.digits n) = true := by
  rw [isDigits, Decimal.all_isDigit_digits, Bool.and_true, Bool.not_eq_true',
    List.isEmpty_eq_false_iff]
  exact Nat.toDigits_ne_nil

/-- Every string can be escaped: a quote and a backslash stand behind a backslash. -/
theorem exists_escapes (value : List Char) : ∃ written, Escapes '\x22' value written := by
  induction value with
  | nil => exact ⟨[], .nil⟩
  | cons c rest ih =>
    obtain ⟨written, hwritten⟩ := ih
    by_cases hplain : c ≠ '\x22' ∧ c ≠ '\\'
    · exact ⟨c :: written, .plain hplain.1 hplain.2 hwritten⟩
    · have hself : unescape c = c := by
        rcases Classical.not_and_iff_not_or_not.mp hplain with hc | hc
        · rw [Classical.not_not.mp hc]
          rfl
        · rw [Classical.not_not.mp hc]
          rfl
      have hescaped := Escapes.escaped c hwritten
      rw [hself] at hescaped
      exact ⟨_, hescaped⟩

theorem exists_isSpelled (s : Symbol) : ∃ cs, s.IsSpelled (String.ofList cs) := by
  cases s with
  | assign => exact ⟨_, Or.inl ⟨':', '=', rfl, rfl⟩⟩
  | arrow => exact ⟨_, Or.inl ⟨'=', '>', rfl, rfl⟩⟩
  | thinArrow => exact ⟨_, Or.inl ⟨'-', '>', rfl, rfl⟩⟩
  | range => exact ⟨_, Or.inl ⟨'.', '.', rfl, rfl⟩⟩
  | plus => exact ⟨_, Or.inr ⟨'+', rfl, rfl⟩⟩
  | minus => exact ⟨_, Or.inr ⟨'-', rfl, rfl⟩⟩
  | star => exact ⟨_, Or.inr ⟨'*', rfl, rfl⟩⟩
  | slash => exact ⟨_, Or.inr ⟨'/', rfl, rfl⟩⟩
  | equal => exact ⟨_, Or.inr ⟨'=', rfl, rfl⟩⟩
  | notEqual => exact ⟨_, Or.inl ⟨'!', '=', rfl, rfl⟩⟩
  | less => exact ⟨_, Or.inr ⟨'<', rfl, rfl⟩⟩
  | lessEqual => exact ⟨_, Or.inl ⟨'<', '=', rfl, rfl⟩⟩
  | greater => exact ⟨_, Or.inr ⟨'>', rfl, rfl⟩⟩
  | greaterEqual => exact ⟨_, Or.inl ⟨'>', '=', rfl, rfl⟩⟩
  | openParen => exact ⟨_, Or.inr ⟨'(', rfl, rfl⟩⟩
  | closeParen => exact ⟨_, Or.inr ⟨')', rfl, rfl⟩⟩
  | openBracket => exact ⟨_, Or.inr ⟨'[', rfl, rfl⟩⟩
  | closeBracket => exact ⟨_, Or.inr ⟨']', rfl, rfl⟩⟩
  | openBrace => exact ⟨_, Or.inr ⟨'\x7b', rfl, rfl⟩⟩
  | closeBrace => exact ⟨_, Or.inr ⟨'\x7d', rfl, rfl⟩⟩
  | comma => exact ⟨_, Or.inr ⟨',', rfl, rfl⟩⟩
  | semicolon => exact ⟨_, Or.inr ⟨';', rfl, rfl⟩⟩
  | dot => exact ⟨_, Or.inr ⟨'.', rfl, rfl⟩⟩

/-- A word that indicates a type is an identifier or the name of a kind. -/
theorem kind_of_isIndicator {text : String} (h : isIndicator text = true)
    (hbrackets : text ≠ Kind.arrayBrackets) (hbraces : text ≠ Kind.tupleBrackets) :
    isIdentifier text = true ∨ ∃ k : Kind, text = k.name := by
  rw [isIndicator, Bool.or_eq_true] at h
  rcases h with hkind | hidentifier
  · obtain ⟨k, hk⟩ := Option.isSome_iff_exists.mp hkind
    rw [Kind.ofIndicator?, if_neg hbrackets, if_neg hbraces] at hk
    have hname := List.find?_some hk
    exact Or.inr ⟨k, (of_decide_eq_true hname).symm⟩
  · exact Or.inl hidentifier

/-- A proper piece has a spelling, and so has a real that digits stand for. -/
theorem Piece.exists_spelling {piece : Piece} (h : piece.isProper = true)
    (hreal : ∀ x, piece = .literal (.real x) → ∃ cs, (Scalar.real x).Spelling cs) :
    ∃ cs, piece.Spelling cs := by
  cases piece with
  | literal value =>
    cases value with
    | none => exact ⟨"none".toList, String.ofList_toList⟩
    | bool b =>
      cases b with
      | true => exact ⟨"true".toList, String.ofList_toList⟩
      | false => exact ⟨"false".toList, String.ofList_toList⟩
    | int n =>
      have hnat : 0 ≤ n := of_decide_eq_true h
      refine ⟨Decimal.digits n.toNat, isDigits_digits _, ?_⟩
      rw [Decimal.toNat_digits, Int.toNat_of_nonneg hnat]
    | real x => exact hreal x rfl
    | str s =>
      obtain ⟨written, hwritten⟩ := exists_escapes s.toList
      exact ⟨_, '\x22', written, Or.inl rfl, hwritten, rfl⟩
  | position index =>
    simp only [isProper, Member.isWellFormed, Bool.and_eq_true, decide_eq_true_iff] at h
    obtain ⟨hnat, hlimit⟩ := h
    have hlt : index.toNat < Nat.pow 10 Grammar.maxPositionDigits := by omega
    refine ⟨Decimal.digits index.toNat, isDigits_digits _, ?_, ?_⟩
    · exact Decimal.length_digits_le (by decide) hlt
    · rw [Decimal.toNat_digits, Int.toNat_of_nonneg hnat]
  | name text => exact ⟨text.toList, h, String.ofList_toList⟩
  | keyword k => exact ⟨k.text.toList, String.ofList_toList⟩
  | symbol s => exact exists_isSpelled s
  | operator text =>
    rw [isProper, Bool.or_eq_true] at h
    exact ⟨text.toList, h, String.ofList_toList⟩
  | indicator text =>
    simp only [isProper, Bool.and_eq_true, decide_eq_true_iff] at h
    exact ⟨text.toList, kind_of_isIndicator h.1.1 h.1.2 h.2, String.ofList_toList⟩
  | separator => exact ⟨_, Or.inl rfl⟩
  | bodyArrow => exact ⟨_, Or.inl rfl⟩

/-- Every real of a program is the value of some digits with a point between them. -/
def Program.RealsSpelled (p : Program) : Prop :=
  ∀ x, .literal (.real x) ∈ p.pieces → ∃ cs, (Scalar.real x).Spelling cs

/-- A well-formed program whose reals can be spelled has a text that prints it. -/
theorem Program.exists_prints {p : Program} (hshape : p.WellFormed) (hwritten : p.Written)
    (hreals : p.RealsSpelled) : ∃ source, p.Prints source := by
  have hproper : Proper p.pieces :=
    proper_intercalate rfl (Stmt.proper_piecesAll p.statements hshape hwritten)
  have hspelled : ∀ pieces : List Piece, (∀ piece ∈ pieces, ∃ cs, piece.Spelling cs) →
      ∃ spellings, List.Forall₂ (fun piece cs => piece.Spelling cs) pieces spellings := by
    intro pieces hpieces
    induction pieces with
    | nil => exact ⟨[], .nil⟩
    | cons piece rest ih =>
      obtain ⟨⟨cs, hcs⟩, hrest⟩ := List.forall_mem_cons.mp hpieces
      obtain ⟨spellings, hspellings⟩ := ih hrest
      exact ⟨cs :: spellings, .cons hcs hspellings⟩
  obtain ⟨spellings, hspellings⟩ := hspelled p.pieces fun piece hpiece => by
    refine Piece.exists_spelling (List.all_eq_true.mp hproper piece hpiece) ?_
    rintro x rfl
    exact hreals x hpiece
  exact ⟨String.ofList ([' '].intercalate spellings), spellings, hspellings, String.toList_ofList⟩

end Dee
