import Dee.Program.Depth
import Dee.Proofs.Eval.Outcome
import Dee.Proofs.Program.Characters
import Dee.Proofs.Simplify.Result

/-!
# Constant expressions

An expression of literals and operators is folded bottom-up, and evaluated from left to right. The
two come to the same: folding leaves one literal exactly if evaluation gives a value, and what is
left otherwise fails as the whole expression does, at the operator that fails first.

Main statement: `folding_is_exact`.
-/

namespace Dee

/-! ## Settled positions -/

/-- Whether a position is settled: one of its parts is positive. -/
def Pos.isSettled (pos : Pos) : Bool := 0 < pos.line || 0 < pos.column

/-- An error that has its position keeps it. -/
theorem Located.placeAt_of_isPlaced {ε : Type} {e : Located ε} (h : e.isPlaced = true) (pos : Pos) :
    e.placeAt pos = e := by
  unfold Located.placeAt
  rw [if_pos h]

/-- A failure that stays as it is on the way out: an error that has its position, or want of room,
which so many characters can bring about. -/
def Failure.IsSettled (characters : Nat) : Failure → Prop
  | .error err => err.isPlaced = true
  | .tooDeep => False
  | .abort a => Memory.capacity ≤ characters ∧ Memory.IsShort (.abort a)

theorem Failure.IsSettled.mono {f : Failure} {n k : Nat} (h : f.IsSettled n) (hle : n ≤ k) :
    f.IsSettled k := by
  cases f with
  | error err => exact h
  | tooDeep => exact h
  | abort a => exact ⟨Nat.le_trans h.1 hle, h.2⟩

theorem Eval.locating_apply_settled {α : Type} {x : Eval α} {pos : Pos} {m m' : Machine}
    {f : Failure} {n : Nat} (hf : f.IsSettled n) (h : x m = (.error f, m')) :
    locating pos x m = (.error f, m') := by
  cases f with
  | error err => rw [locating_apply_error h, Located.placeAt_of_isPlaced hf]
  | tooDeep => exact hf.elim
  | abort a => exact locating_apply_other (by simp) h

/-! ## Literals and operators -/

/-- Whether an expression is a literal. -/
def Expr.isLiteral : Expr → Bool
  | .literal _ _ _ => true
  | _ => false

/-- An expression of literals and operators, whatever the texts of the operators. Each literal has
the kind of its value, and each node has a settled position. -/
inductive Expr.Constant : Expr → Prop
  | literal {pos : Pos} (value : Scalar) (hpos : pos.isSettled = true) :
    Constant (.literal pos value value.kind)
  | unary {pos : Pos} (op : String) {operand : Expr} (hpos : pos.isSettled = true)
    (hoperand : Constant operand) : Constant (.unary pos op operand)
  | binary {pos : Pos} (op : String) {left right : Expr} (hpos : pos.isSettled = true)
    (hleft : Constant left) (hright : Constant right) : Constant (.binary pos op left right)

theorem foldBinary_stays {left right : Expr} (h : left.isLiteral = false ∨ right.isLiteral = false)
    (pos : Pos) (op : String) :
    (foldBinary pos op left right).result = .binary pos op left right := by
  unfold foldBinary
  split
  · rcases h with h | h <;> cases h
  · rfl

theorem foldUnary_stays {operand : Expr} (h : operand.isLiteral = false) (pos : Pos) (op : String) :
    (foldUnary pos op operand).result = .unary pos op operand := by
  unfold foldUnary
  split
  · cases h
  · rfl

theorem foldBinary_literals (pos : Pos) (op : String) (left right : Pos) (a b : Scalar)
    (ka kb : Kind) :
    (foldBinary pos op (.literal left a ka) (.literal right b kb)).result =
      match Scalar.binary op a b with
      | .ok c => .ofScalar pos c
      | .error _ => .binary pos op (.literal left a ka) (.literal right b kb) := by
  cases hx : Scalar.binary op a b <;> simp only [foldBinary, hx] <;> rfl

theorem foldUnary_literal (pos : Pos) (op : String) (operand : Pos) (a : Scalar) (ka : Kind) :
    (foldUnary pos op (.literal operand a ka)).result =
      match Scalar.unary op a with
      | .ok c => .ofScalar pos c
      | .error _ => .unary pos op (.literal operand a ka) := by
  cases hx : Scalar.unary op a <;> simp only [foldUnary, hx] <;> rfl

/-- Folding gives literals and operators back. -/
theorem Expr.Constant.simplify {e : Expr} (h : e.Constant) (used : List String) :
    (e.simplify used).result.Constant := by
  induction h with
  | literal value hpos => exact .literal value hpos
  | unary op hpos hoperand ih =>
    rw [simplify_unary]
    unfold foldUnary
    split
    · split
      · exact .literal _ hpos
      · exact .unary op hpos ih
    · exact .unary op hpos ih
  | binary op hpos hleft hright ihleft ihright =>
    rw [simplify_binary]
    unfold foldBinary
    split
    · split
      · exact .literal _ hpos
      · exact .binary op hpos ihleft ihright
    · exact .binary op hpos ihleft ihright

/-! ## Evaluation of operators -/

section Operators

variable {turns depth frame : Nat} {m : Machine} {f : Failure} {n : Nat} {a b : Scalar}
  {operand left right : Expr} (pos : Pos) (op : String)

theorem eval_unary_error (hsettled : f.IsSettled n)
    (h : (Runner.ofDepth turns depth).eval operand frame m = (.error f, m)) :
    (Runner.ofDepth turns (depth + 1)).eval (.unary pos op operand) frame m = (.error f, m) :=
  Eval.locating_apply_settled hsettled (Eval.bind_apply_error h)

/-- An operator that fails is where its error lies. -/
theorem eval_unary_scalar
    (h : (Runner.ofDepth turns depth).eval operand frame m = (.ok (.scalar a), m)) :
    (Runner.ofDepth turns (depth + 1)).eval (.unary pos op operand) frame m =
      match Scalar.unary op a with
      | .ok c => (.ok (.scalar c), m)
      | .error cause => (.error (.error ⟨cause, pos⟩), m) := by
  have hrule : (Runner.ofDepth turns depth).evalRule frame (.unary pos op operand) m =
      Eval.unary op (.scalar a) m := Eval.bind_apply_ok h
  cases hx : Scalar.unary op a with
  | ok c =>
    refine Eval.locating_apply_ok (hrule.trans ?_)
    exact Eval.bind_apply_ok (by rw [hx]; rfl)
  | error cause =>
    refine Eval.locating_apply_error (e := ⟨cause, .nowhere⟩) (hrule.trans ?_)
    exact Eval.bind_apply_error (by rw [hx]; rfl)

theorem eval_binary_error_left (hsettled : f.IsSettled n)
    (h : (Runner.ofDepth turns depth).eval left frame m = (.error f, m)) :
    (Runner.ofDepth turns (depth + 1)).eval (.binary pos op left right) frame m = (.error f, m) :=
  Eval.locating_apply_settled hsettled (Eval.bind_apply_error h)

theorem eval_binary_error_right (hsettled : f.IsSettled n)
    (hleft : (Runner.ofDepth turns depth).eval left frame m = (.ok (.scalar a), m))
    (hright : (Runner.ofDepth turns depth).eval right frame m = (.error f, m)) :
    (Runner.ofDepth turns (depth + 1)).eval (.binary pos op left right) frame m = (.error f, m) :=
  Eval.locating_apply_settled hsettled
    ((Eval.bind_apply_ok hleft).trans (Eval.bind_apply_error hright))

theorem eval_binary_scalars
    (hleft : (Runner.ofDepth turns depth).eval left frame m = (.ok (.scalar a), m))
    (hright : (Runner.ofDepth turns depth).eval right frame m = (.ok (.scalar b), m)) :
    (Runner.ofDepth turns (depth + 1)).eval (.binary pos op left right) frame m =
      match Scalar.binary op a b with
      | .ok c => (.ok (.scalar c), m)
      | .error cause => (.error (cause.placeAt pos), m) := by
  have hrule : (Runner.ofDepth turns depth).evalRule frame (.binary pos op left right) m =
      Eval.binary (Runner.ofDepth turns depth).depth op (.scalar a) (.scalar b) m :=
    (Eval.bind_apply_ok hleft).trans (Eval.bind_apply_ok hright)
  cases hx : Scalar.binary op a b with
  | ok c =>
    refine Eval.locating_apply_ok (hrule.trans ?_)
    exact Eval.bind_apply_ok (by rw [hx]; rfl)
  | error cause =>
    refine Eval.locating_eq_error.mpr ⟨cause, hrule.trans ?_, rfl⟩
    exact Eval.bind_apply_error (by rw [hx]; rfl)

/-- Where an operator on scalars fails, its failure gets its position there. -/
theorem isSettled_of_binary (hpos : pos.isSettled = true) (h : Scalar.binary op a b = .error f)
    (hsize : a.size + b.size ≤ n) : (f.placeAt pos).IsSettled n := by
  rcases Scalar.binary_eq_error.mp h with ⟨e, -, rfl⟩ | ⟨s, hs, hfull, rfl⟩
  · exact hpos
  · have : s.length ≤ a.size + b.size := Scalar.size_le_of_combine hs
    exact ⟨by omega, Memory.isShort_shortage _⟩

end Operators

/-! ## Folding against evaluation -/

/-- An expression and what it is folded to evaluate alike, without changing the machine: to the
value of the literal that is left, or to a failure, and then no literal is left. -/
structure FoldsTo (r : Runner) (frame : Nat) (m : Machine) (e folded : Expr) : Prop where
  alike : r.eval folded frame m = r.eval e frame m
  outcome :
    (∃ c, folded = .ofScalar e.pos c ∧ r.eval e frame m = (.ok (.scalar c), m) ∧
      c.size ≤ e.characters) ∨
      ∃ f : Failure, f.IsSettled e.characters ∧ folded.isLiteral = false ∧
        r.eval e frame m = (.error f, m)

section FoldsTo

variable {turns depth frame : Nat} {m : Machine} {pos : Pos}

/-- Two expressions that fail alike, none of which is a literal. -/
theorem FoldsTo.of_error {r : Runner} {e kept : Expr} {f : Failure}
    (hsettled : f.IsSettled e.characters) (hliteral : kept.isLiteral = false)
    (hkept : r.eval kept frame m = (.error f, m)) (hwhole : r.eval e frame m = (.error f, m)) :
    FoldsTo r frame m e kept :=
  ⟨hkept.trans hwhole.symm, Or.inr ⟨f, hsettled, hliteral, hwhole⟩⟩

theorem foldsTo_unary (op : String) {operand operand' : Expr} (hpos : pos.isSettled = true)
    (h : FoldsTo (.ofDepth turns depth) frame m operand operand') :
    FoldsTo (.ofDepth turns (depth + 1)) frame m (.unary pos op operand)
      (foldUnary pos op operand').result := by
  rcases h.outcome with ⟨a, hoperand', heval, -⟩ | ⟨f, hsettled, hliteral, heval⟩
  · have hwhole := eval_unary_scalar pos op heval
    have hkept := eval_unary_scalar pos op (h.alike.trans heval)
    rw [hoperand', Expr.ofScalar] at hkept ⊢
    rw [foldUnary_literal]
    cases hx : Scalar.unary op a with
    | ok c =>
      rw [hx] at hwhole
      refine ⟨hwhole.symm, Or.inl ⟨c, rfl, hwhole, ?_⟩⟩
      rw [Scalar.size_of_unary hx]
      exact Nat.zero_le _
    | error cause =>
      rw [hx] at hwhole hkept
      refine .of_error ?_ rfl hkept hwhole
      exact hpos
  · rw [foldUnary_stays hliteral]
    refine .of_error ?_ rfl (eval_unary_error pos op hsettled (h.alike.trans heval))
      (eval_unary_error pos op hsettled heval)
    rwa [Expr.characters_unary]

theorem foldsTo_binary (op : String) {left left' right right' : Expr} (hpos : pos.isSettled = true)
    (hleft : FoldsTo (.ofDepth turns depth) frame m left left')
    (hright : FoldsTo (.ofDepth turns depth) frame m right right') :
    FoldsTo (.ofDepth turns (depth + 1)) frame m (.binary pos op left right)
      (foldBinary pos op left' right').result := by
  have hcharacters := Expr.characters_binary pos op left right
  rcases hleft.outcome with ⟨a, hleft', hevalLeft, hsizeLeft⟩ | ⟨f, hsettled, hliteral, hevalLeft⟩
  · have hkeptLeft := hleft.alike.trans hevalLeft
    rcases hright.outcome with ⟨b, hright', hevalRight, hsizeRight⟩ |
      ⟨f, hsettled, hliteral, hevalRight⟩
    · have hsize : a.size + b.size ≤ (Expr.binary pos op left right).characters := by omega
      have hwhole := eval_binary_scalars pos op hevalLeft hevalRight
      have hkept := eval_binary_scalars pos op hkeptLeft (hright.alike.trans hevalRight)
      rw [hleft', hright', Expr.ofScalar, Expr.ofScalar] at hkept ⊢
      rw [foldBinary_literals]
      cases hx : Scalar.binary op a b with
      | ok c =>
        rw [hx] at hwhole
        refine ⟨hwhole.symm, Or.inl ⟨c, rfl, hwhole, ?_⟩⟩
        have := Scalar.size_le_of_combine (Scalar.binary_eq_ok.mp hx).1
        omega
      | error cause =>
        rw [hx] at hwhole hkept
        exact .of_error (isSettled_of_binary pos op hpos hx hsize) rfl hkept hwhole
    · -- The left operand has a value, so the error of the right one is the first.
      rw [foldBinary_stays (Or.inr hliteral)]
      exact .of_error (hsettled.mono (by omega)) rfl
        (eval_binary_error_right pos op hsettled hkeptLeft (hright.alike.trans hevalRight))
        (eval_binary_error_right pos op hsettled hevalLeft hevalRight)
  · rw [foldBinary_stays (Or.inl hliteral)]
    exact .of_error (hsettled.mono (by omega)) rfl
      (eval_binary_error_left pos op hsettled (hleft.alike.trans hevalLeft))
      (eval_binary_error_left pos op hsettled hevalLeft)

end FoldsTo

/-- Every expression of literals and operators folds to what it evaluates to, if it is not nested
too deeply to be evaluated. -/
theorem Expr.Constant.foldsTo {e : Expr} (h : e.Constant) (used : List String) (turns frame : Nat)
    (m : Machine) {depth : Nat} (hdepth : e.depth ≤ depth) :
    FoldsTo (.ofDepth turns depth) frame m e (e.simplify used).result := by
  induction h generalizing depth with
  | @literal pos value hpos =>
    obtain ⟨depth, rfl⟩ := Nat.exists_eq_succ_of_ne_zero (Nat.ne_zero_of_lt hdepth)
    exact ⟨rfl, Or.inl ⟨value, rfl, rfl, Nat.le_of_eq (Expr.characters_literal ..).symm⟩⟩
  | unary op hpos hoperand ih =>
    obtain ⟨depth, rfl⟩ := Nat.exists_eq_succ_of_ne_zero (Nat.ne_zero_of_lt hdepth)
    rw [Expr.depth] at hdepth
    rw [simplify_unary]
    exact foldsTo_unary op hpos (ih (by omega))
  | binary op hpos hleft hright ihleft ihright =>
    obtain ⟨depth, rfl⟩ := Nat.exists_eq_succ_of_ne_zero (Nat.ne_zero_of_lt hdepth)
    rw [Expr.depth] at hdepth
    rw [simplify_binary]
    exact foldsTo_binary op hpos (ihleft (by omega)) (ihright (by omega))

/-- Folding is exact. Take an expression of literals and operators, at settled positions, that is
not nested too deeply to be evaluated. It is folded to such an expression again, and to a literal if
and only if evaluating it succeeds. The literal then holds the value, the kind of the value and the
position of the expression. Otherwise evaluating what is left fails as well, with the same error at
the same position, or in the same way for want of room, if the strings in the expression together
are too long. -/
theorem folding_is_exact (e : Expr) (he : e.Constant) (used : List String) (turns depth frame : Nat)
    (m : Machine) (hdepth : e.depth ≤ depth) :
    let folded := (e.simplify used).result
    let evaluate := fun e' : Expr => (Runner.ofDepth turns depth).eval e' frame m
    folded.Constant ∧
      (folded.isLiteral = true ↔ ∃ v m', evaluate e = (.ok v, m')) ∧
      (∀ v m', evaluate e = (.ok v, m') →
        m' = m ∧ ∃ c, v = .scalar c ∧ folded = .literal e.pos c c.kind) ∧
      ∀ f m', evaluate e = (.error f, m') →
        m' = m ∧ evaluate folded = (.error f, m) ∧
          ((∃ err : Located EvalError, f = .error err ∧ err.isPlaced = true) ∨
            Memory.capacity ≤ e.characters ∧ Memory.IsShort f) := by
  intro folded evaluate
  have hfolds : FoldsTo (.ofDepth turns depth) frame m e folded :=
    he.foldsTo used turns frame m hdepth
  have halike : evaluate folded = evaluate e := hfolds.alike
  refine ⟨he.simplify used, ?_⟩
  rcases hfolds.outcome with ⟨c, hfolded, heval, -⟩ | ⟨f, hsettled, hliteral, heval⟩
  · have heval : evaluate e = (.ok (.scalar c), m) := heval
    rw [heval]
    refine ⟨⟨fun _ => ⟨_, _, rfl⟩, fun _ => by rw [hfolded]; rfl⟩, ?_, ?_⟩
    · rintro v m' ⟨⟩
      exact ⟨rfl, c, rfl, hfolded⟩
    · rintro f m' ⟨⟩
  · have heval : evaluate e = (.error f, m) := heval
    rw [halike, heval, hliteral]
    refine ⟨⟨nofun, ?_⟩, ?_, ?_⟩
    · rintro ⟨v, m', ⟨⟩⟩
    · rintro v m' ⟨⟩
    · rintro f m' ⟨⟩
      refine ⟨rfl, rfl, ?_⟩
      cases f with
      | error err => exact Or.inl ⟨err, rfl, hsettled⟩
      | tooDeep => exact hsettled.elim
      | abort a => exact Or.inr hsettled

/-- `(1 + 2) * (7 / (4 - 4))`: the parts around the division are folded, and the division still
fails where it stands. -/
theorem folding_is_exact_around_division :
    let literal := fun (column : Int) (n : Int) => Expr.literal ⟨1, column⟩ (.int n) .int
    let e : Expr := .binary ⟨1, 9⟩ "*" (.binary ⟨1, 4⟩ "+" (literal 2 1) (literal 6 2))
      (.binary ⟨1, 14⟩ "/" (literal 12 7) (.binary ⟨1, 19⟩ "-" (literal 17 4) (literal 21 4)))
    let folded : Expr :=
      .binary ⟨1, 9⟩ "*" (literal 4 3) (.binary ⟨1, 14⟩ "/" (literal 12 7) (literal 19 0))
    e.Constant ∧ e.depth ≤ 4 ∧ (e.simplify []).result = folded ∧
      (Runner.ofDepth 1 4).eval folded 0 .initial =
        (.error (.error ⟨.divisionByZero, ⟨1, 14⟩⟩), .initial) := by
  intro literal e folded
  have hliteral : ∀ column n, 0 < column → (literal column n).Constant := fun column n h =>
    .literal (.int n) (by simp [Pos.isSettled, h])
  have he : e.Constant := by
    refine .binary _ rfl (.binary _ rfl ?_ ?_) (.binary _ rfl ?_ (.binary _ rfl ?_ ?_))
    all_goals exact hliteral _ _ (by decide)
  have hdepth : e.depth ≤ 4 := by decide
  have hfolded : (e.simplify []).result = folded := rfl
  have heval : (Runner.ofDepth 1 4).eval e 0 .initial =
      (.error (.error ⟨.divisionByZero, ⟨1, 14⟩⟩), .initial) := rfl
  obtain ⟨-, -, -, herror⟩ := folding_is_exact e he [] 1 4 0 .initial hdepth
  obtain ⟨-, hsame, -⟩ := herror _ _ heval
  exact ⟨he, hdepth, hfolded, hsame⟩

end Dee
