import Dee.Proofs.Printing.Printable
import Dee.Proofs.Printing.Statements

/-!
# Parsing undoes printing

All expressions and statements of a well-formed program are readable, by induction on the program.
So parsing a text that prints the program gives the program back, up to positions.

Main statement: `parse_prints`.
-/

namespace Dee

open Grammar

variable (S : Setting)

/-! ## Readable programs -/

mutual

theorem Expr.readable : ∀ e : Expr, e.everywhere Expr.isWellFormed Stmt.isWellFormed = true →
    e.everywhere Expr.isWritten Stmt.isWritten = true → Readable S e
  | .literal _ _ _, h, _ => readable_literal (of_decide_eq_true h)
  | .reference _ _, _, _ => readable_reference
  | .binary _ _ left right, h, hw => by
    obtain ⟨hnode, hleft, hright⟩ := Expr.everywhere_binary.mp h
    obtain ⟨-, hwleft, hwright⟩ := Expr.everywhere_binary.mp hw
    exact readable_binary hnode (Expr.readable left hleft hwleft)
      (Expr.readable right hright hwright)
  | .unary _ _ operand, h, hw => by
    obtain ⟨hnode, hoperand⟩ := Expr.everywhere_unary.mp h
    obtain ⟨-, hwoperand⟩ := Expr.everywhere_unary.mp hw
    exact readable_unary hnode (Expr.readable operand hoperand hwoperand)
  | .call _ func args, h, hw => by
    obtain ⟨-, hfunc, hargs⟩ := Expr.everywhere_call.mp h
    obtain ⟨-, hwfunc, hwargs⟩ := Expr.everywhere_call.mp hw
    exact readable_call (Expr.readable func hfunc hwfunc) (Expr.readableAll args hargs hwargs)
  | .index _ value index, h, hw => by
    obtain ⟨-, hvalue, hindex⟩ := Expr.everywhere_index.mp h
    obtain ⟨-, hwvalue, hwindex⟩ := Expr.everywhere_index.mp hw
    exact readable_index (Expr.readable value hvalue hwvalue) (Expr.readable index hindex hwindex)
  | .array _ elements, h, hw => by
    obtain ⟨-, helements⟩ := Expr.everywhere_array.mp h
    obtain ⟨-, hwelements⟩ := Expr.everywhere_array.mp hw
    exact readable_array (Expr.readableAll elements helements hwelements)
  | .tuple _ entries, h, hw => by
    obtain ⟨-, hentries⟩ := Expr.everywhere_tuple.mp h
    obtain ⟨-, hwentries⟩ := Expr.everywhere_tuple.mp hw
    exact readable_tuple (TupleEntry.readableAll entries hentries hwentries)
  | .function _ _ statements none, h, hw => by
    obtain ⟨-, hstatements, -⟩ := Expr.everywhere_function.mp h
    obtain ⟨-, hwstatements, -⟩ := Expr.everywhere_function.mp hw
    exact readable_function_statements (Stmt.readableAll statements hstatements hwstatements)
  | .function _ _ statements (some e), h, hw => by
    obtain ⟨hnode, -, he⟩ := Expr.everywhere_function.mp h
    obtain ⟨-, -, hwe⟩ := Expr.everywhere_function.mp hw
    obtain rfl := Expr.statements_eq_nil hnode
    exact readable_function_expression (Expr.readable e he hwe)
  | .typeCheck _ value _, h, hw => by
    obtain ⟨-, hvalue⟩ := Expr.everywhere_typeCheck.mp h
    obtain ⟨-, hwvalue⟩ := Expr.everywhere_typeCheck.mp hw
    exact readable_typeCheck (Expr.readable value hvalue hwvalue)
  | .member _ value _, h, hw => by
    obtain ⟨-, hvalue⟩ := Expr.everywhere_member.mp h
    obtain ⟨-, hwvalue⟩ := Expr.everywhere_member.mp hw
    exact readable_member (Expr.readable value hvalue hwvalue)

theorem Expr.readableAll : ∀ es : List Expr,
    Expr.everywhereAll Expr.isWellFormed Stmt.isWellFormed es = true →
    Expr.everywhereAll Expr.isWritten Stmt.isWritten es = true → ∀ e ∈ es, Readable S e
  | [], _, _ => by simp
  | e :: rest, h, hw => by
    obtain ⟨he, hrest⟩ := Expr.everywhereAll_cons.mp h
    obtain ⟨hwe, hwrest⟩ := Expr.everywhereAll_cons.mp hw
    exact List.forall_mem_cons.mpr
      ⟨Expr.readable e he hwe, Expr.readableAll rest hrest hwrest⟩

theorem TupleEntry.readableAll : ∀ entries : List TupleEntry,
    TupleEntry.everywhereAll Expr.isWellFormed Stmt.isWellFormed entries = true →
    TupleEntry.everywhereAll Expr.isWritten Stmt.isWritten entries = true →
    ∀ entry ∈ entries, Readable S entry.value
  | [], _, _ => by simp
  | ⟨_, e⟩ :: rest, h, hw => by
    obtain ⟨he, hrest⟩ := TupleEntry.everywhereAll_cons.mp h
    obtain ⟨hwe, hwrest⟩ := TupleEntry.everywhereAll_cons.mp hw
    exact List.forall_mem_cons.mpr
      ⟨Expr.readable e he hwe, TupleEntry.readableAll rest hrest hwrest⟩

theorem Stmt.readable : ∀ s : Stmt, s.everywhere Expr.isWellFormed Stmt.isWellFormed = true →
    s.everywhere Expr.isWritten Stmt.isWritten = true → ReadableStmt S s
  | .declaration _ vars, h, hw => by
    obtain ⟨hnode, hvars⟩ := Stmt.everywhere_declaration.mp h
    obtain ⟨-, hwvars⟩ := Stmt.everywhere_declaration.mp hw
    have hne : vars ≠ [] := by
      simp only [Stmt.isWellFormed, Bool.and_eq_true, Bool.not_eq_true', List.isEmpty_eq_false_iff]
        at hnode
      exact hnode.1
    exact readable_declaration hne (VarDef.readableAll vars hvars hwvars)
  | .assign _ target value, h, hw => by
    obtain ⟨hnode, htarget, hvalue⟩ := Stmt.everywhere_assign.mp h
    obtain ⟨-, hwtarget, hwvalue⟩ := Stmt.everywhere_assign.mp hw
    exact readable_assign hnode (Expr.readable target htarget hwtarget)
      (Expr.readable value hvalue hwvalue)
  | .block ⟨_, _⟩, _, hw => by
    obtain ⟨hwnode, -⟩ := Stmt.everywhere_block.mp hw
    cases hwnode
  | .conditional _ condition ⟨_, body⟩ none, h, hw => by
    obtain ⟨-, hcondition, hbody⟩ := Stmt.everywhere_conditional_none.mp h
    obtain ⟨-, hwcondition, hwbody⟩ := Stmt.everywhere_conditional_none.mp hw
    exact readable_conditional_none (Expr.readable condition hcondition hwcondition)
      (Stmt.readableAll body hbody hwbody)
  | .conditional _ condition ⟨_, body⟩ (some ⟨_, other⟩), h, hw => by
    obtain ⟨-, hcondition, hbody, hother⟩ := Stmt.everywhere_conditional_some.mp h
    obtain ⟨-, hwcondition, hwbody, hwother⟩ := Stmt.everywhere_conditional_some.mp hw
    exact readable_conditional_some (Expr.readable condition hcondition hwcondition)
      (Stmt.readableAll body hbody hwbody) (Stmt.readableAll other hother hwother)
  | .whileLoop _ condition ⟨_, body⟩, h, hw => by
    obtain ⟨-, hcondition, hbody⟩ := Stmt.everywhere_whileLoop.mp h
    obtain ⟨-, hwcondition, hwbody⟩ := Stmt.everywhere_whileLoop.mp hw
    exact readable_whileLoop (Expr.readable condition hcondition hwcondition)
      (Stmt.readableAll body hbody hwbody)
  | .forLoop _ loopVar ⟨_, body⟩ none rangeEnd, h, hw => by
    obtain ⟨hshape, -, -, hbody⟩ := Stmt.everywhere_forLoop.mp h
    obtain ⟨-, -, -, hwbody⟩ := Stmt.everywhere_forLoop.mp hw
    -- Without anything to run over there is neither a variable nor a second bound.
    have hbare : loopVar = none ∧ rangeEnd = none := by
      simp only [Stmt.isWellFormed, Bool.and_eq_true, Option.isSome_none, Bool.false_or,
        Option.isNone_iff_eq_none] at hshape
      exact hshape.2
    obtain ⟨rfl, rfl⟩ := hbare
    exact readable_endlessLoop (Stmt.readableAll body hbody hwbody)
  | .forLoop _ _ ⟨_, body⟩ (some source) none, h, hw => by
    obtain ⟨-, hsource, -, hbody⟩ := Stmt.everywhere_forLoop.mp h
    obtain ⟨-, hwsource, -, hwbody⟩ := Stmt.everywhere_forLoop.mp hw
    exact readable_forLoop_elements (Expr.readable source hsource hwsource)
      (Stmt.readableAll body hbody hwbody)
  | .forLoop _ _ ⟨_, body⟩ (some source) (some rangeEnd), h, hw => by
    obtain ⟨-, hsource, hrangeEnd, hbody⟩ := Stmt.everywhere_forLoop.mp h
    obtain ⟨-, hwsource, hwrangeEnd, hwbody⟩ := Stmt.everywhere_forLoop.mp hw
    exact readable_forLoop_range (Expr.readable source hsource hwsource)
      (Expr.readable rangeEnd hrangeEnd hwrangeEnd) (Stmt.readableAll body hbody hwbody)
  | .returnStmt _ none, _, _ => readable_return_none
  | .returnStmt _ (some e), h, hw => by
    obtain ⟨-, he⟩ := Stmt.everywhere_returnStmt.mp h
    obtain ⟨-, hwe⟩ := Stmt.everywhere_returnStmt.mp hw
    exact readable_return_some (Expr.readable e he hwe)
  | .exitStmt _, _, _ => readable_exit
  | .continueStmt _, _, _ => readable_continue
  | .print _ values, h, hw => by
    obtain ⟨hnode, hvalues⟩ := Stmt.everywhere_print.mp h
    obtain ⟨-, hwvalues⟩ := Stmt.everywhere_print.mp hw
    have hne : values ≠ [] := by
      simp only [Stmt.isWellFormed, Bool.not_eq_true', List.isEmpty_eq_false_iff] at hnode
      exact hnode
    exact readable_print hne (Expr.readableAll values hvalues hwvalues)
  | .expr _ value, h, hw => by
    obtain ⟨-, hvalue⟩ := Stmt.everywhere_expr.mp h
    obtain ⟨-, hwvalue⟩ := Stmt.everywhere_expr.mp hw
    exact readable_expr (Expr.readable value hvalue hwvalue)

theorem Stmt.readableAll : ∀ ss : List Stmt,
    Stmt.everywhereAll Expr.isWellFormed Stmt.isWellFormed ss = true →
    Stmt.everywhereAll Expr.isWritten Stmt.isWritten ss = true → ∀ s ∈ ss, ReadableStmt S s
  | [], _, _ => by simp
  | s :: rest, h, hw => by
    obtain ⟨hs, hrest⟩ := Stmt.everywhereAll_cons.mp h
    obtain ⟨hws, hwrest⟩ := Stmt.everywhereAll_cons.mp hw
    exact List.forall_mem_cons.mpr
      ⟨Stmt.readable s hs hws, Stmt.readableAll rest hrest hwrest⟩

theorem VarDef.readableAll : ∀ vars : List VarDef,
    VarDef.everywhereAll Expr.isWellFormed Stmt.isWellFormed vars = true →
    VarDef.everywhereAll Expr.isWritten Stmt.isWritten vars = true → ∀ v ∈ vars, ReadableVar S v
  | [], _, _ => by simp
  | ⟨_, none⟩ :: rest, h, hw => by
    obtain ⟨-, hrest⟩ := VarDef.everywhereAll_cons.mp h
    obtain ⟨-, hwrest⟩ := VarDef.everywhereAll_cons.mp hw
    exact List.forall_mem_cons.mpr ⟨nofun, VarDef.readableAll rest hrest hwrest⟩
  | ⟨_, some e⟩ :: rest, h, hw => by
    obtain ⟨he, hrest⟩ := VarDef.everywhereAll_cons.mp h
    obtain ⟨hwe, hwrest⟩ := VarDef.everywhereAll_cons.mp hw
    refine List.forall_mem_cons.mpr ⟨?_, VarDef.readableAll rest hrest hwrest⟩
    rintro e' ⟨⟩
    exact Expr.readable e he hwe

end

/-! ## Whole texts -/

/-- Reading the tokens of a printed program gives the program back. -/
theorem parseFeed_pieces {p : Program} (hshape : p.WellFormed) (hwritten : p.Written)
    {nesting : Nat} (hnesting : p.nesting ≤ nesting) {ts : List Token} {eof : Token}
    (hts : AreTokens p.pieces ts) (heof : eof.lexeme = .eof) :
    ∃ q, parseFeed nesting ⟨ts, .ok eof⟩ = .ok q ∧ q.erase = p.erase := by
  let S : Setting := ⟨eof, ts.length + 1⟩
  have hclose : ∀ t, t = eof → Closing.file.stops t = true := by
    rintro t rfl
    exact decide_eq_true heof
  have hread := reads_statements (Stmt.readableAll S p.statements hshape hwritten) hnesting hclose
  obtain ⟨ss, hss, herase⟩ := hread ts [] hts rfl (Nat.lt_succ_self _)
  have hstream : Stream.ofFeed ⟨ts, .ok eof⟩ = .ok (S.stream ts) := by
    cases ts <;> rfl
  refine ⟨⟨ss, .start⟩, ?_, ?_⟩
  · rw [List.append_nil] at hss
    unfold parseFeed
    rw [hstream]
    simp only [bind, Except.bind]
    rw [show (statements (Rules.ofLevel (ts.length + 1) nesting) .file).run (S.stream ts) =
      _ from hss]
    rfl
  · rw [Program.erase, Program.erase, herase]

/-- Parsing undoes printing. A well-formed program within the nesting limit can be printed if its
reals can, and every text that prints it is parsed and gives the program back, up to positions. -/
theorem parse_prints (limits : Limits) (p : Program) (hshape : p.WellFormed) (hwritten : p.Written)
    (hnesting : p.nesting ≤ limits.nesting) :
    (p.RealsSpelled → ∃ source, p.Prints source) ∧
      ∀ source, p.Prints source → ∃ q, parse source limits = .ok q ∧ q.erase = p.erase := by
  refine ⟨Program.exists_prints hshape hwritten, fun source hprints => ?_⟩
  obtain ⟨ts, eof, htext, hts, heof⟩ := Feed.ofText_prints hprints
  obtain ⟨q, hq, herase⟩ := parseFeed_pieces hshape hwritten hnesting hts heof
  refine ⟨q, ?_, herase⟩
  rw [parse, htext, hq]

/-- A program that needs parentheses around a function, a logical operand and a right operand. -/
def tangled : Program :=
  let name (s : String) : Expr := .reference .start s
  let test : Expr := .function .start ["x"] [] (some (.typeCheck .start (name "x") "int"))
  let half : Expr := .ofScalar .start (.real (Real.ofDigits ['2'] ['5', '0']))
  let either : Expr := .binary .start "or" (name "a") (name "b")
  let less : Expr := .binary .start "-" (name "b") (.ofScalar .start (.int 1))
  ⟨[.print .start [.call .start test [half], .unary .start "not" (.typeCheck .start either "[]")],
    .expr .start (.binary .start "-" (.binary .start "-" (name "a") less)
      (.ofScalar .start (.str "it's")))], .start⟩

/-- The text of `tangled`, piece by piece. -/
def tangledPieces : List String :=
  ["print", "(", "func", "(", "x", ")", "->", "x", "is", "int", ")", "(", "2.50", ")",
    ",", "not", "(", "a", "or", "b", ")", "is", "[", "]", ";", "a", "-", "(", "b", "-", "1", ")",
    "-", "'it\\'s'"]

theorem prints_tangled : tangled.Prints (" ".intercalate tangledPieces) := by
  have hescapes : Escapes '\x27' "it's".toList "it\\'s".toList :=
    .plain (by decide) (by decide) (.plain (by decide) (by decide) (.escaped '\x27'
      (.plain (by decide) (by decide) .nil)))
  have hone : (1 : Int) = Decimal.toNat ['1'] := by
    rw [Decimal.toNat_eq_valueOf]
    rfl
  refine ⟨tangledPieces.map String.toList, ?_, by decide⟩
  have hpieces : tangled.pieces = [.keyword .printKw, .symbol .openParen, .keyword .funcKw,
    .symbol .openParen, .name "x", .symbol .closeParen, .bodyArrow, .name "x", .keyword .isKw,
    .indicator "int", .symbol .closeParen, .symbol .openParen,
    .literal (.real (Real.ofDigits ['2'] ['5', '0'])), .symbol .closeParen, .symbol .comma,
    .operator "not", .symbol .openParen, .name "a", .operator "or", .name "b", .symbol .closeParen,
    .keyword .isKw, .symbol .openBracket, .symbol .closeBracket, .separator, .name "a",
    .operator "-", .symbol .openParen, .name "b", .operator "-", .literal (.int 1),
    .symbol .closeParen, .operator "-", .literal (.str "it's")] := rfl
  have hchar : ∀ {a : Char} {s : Symbol}, Symbol.ofChar? a = some s →
      (Piece.symbol s).Spelling [a] := fun h => Or.inr ⟨_, h, rfl⟩
  rw [hpieces]
  refine .cons rfl <| .cons (hchar rfl) <| .cons rfl <| .cons (hchar rfl) <|
    .cons ⟨by decide, rfl⟩ <| .cons (hchar rfl) <| .cons (Or.inr rfl) <| .cons ⟨by decide, rfl⟩ <|
    .cons rfl <| .cons ⟨Or.inr ⟨.int, rfl⟩, rfl⟩ <| .cons (hchar rfl) <| .cons (hchar rfl) <|
    .cons ⟨['2'], ['5', '0'], rfl, rfl, rfl, rfl⟩ <| .cons (hchar rfl) <| .cons (hchar rfl) <|
    .cons ⟨by decide, rfl⟩ <| .cons (hchar rfl) <| .cons ⟨by decide, rfl⟩ <|
    .cons ⟨by decide, rfl⟩ <| .cons ⟨by decide, rfl⟩ <| .cons (hchar rfl) <| .cons rfl <|
    .cons (hchar rfl) <| .cons (hchar rfl) <| .cons (Or.inr rfl) <| .cons ⟨by decide, rfl⟩ <|
    .cons ⟨by decide, rfl⟩ <| .cons (hchar rfl) <| .cons ⟨by decide, rfl⟩ <|
    .cons ⟨by decide, rfl⟩ <| .cons ⟨rfl, hone⟩ <| .cons (hchar rfl) <|
    .cons ⟨by decide, rfl⟩ <| .cons ⟨'\x27', _, Or.inr rfl, hescapes, rfl⟩ .nil

theorem parse_prints_tangled :
    tangled.WellFormed ∧ tangled.Written ∧ tangled.nesting ≤ Limits.standard.nesting ∧
      ∃ q, parse (" ".intercalate tangledPieces) = .ok q ∧ q.erase = tangled.erase := by
  have hshape : tangled.WellFormed := by decide +kernel
  have hwritten : tangled.Written := by decide +kernel
  have hnesting : tangled.nesting ≤ Limits.standard.nesting := by decide +kernel
  refine ⟨hshape, hwritten, hnesting, ?_⟩
  exact (parse_prints .standard tangled hshape hwritten hnesting).2 _ prints_tangled

end Dee
