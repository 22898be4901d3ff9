import Dee.Proofs.Refinement.Primitive

/-!
# Expressions that refine expressions

A runner tracks another if it evaluates refined code as the other evaluates the code. From this the
lemmas below conclude that one more level of evaluation is tracked: lists of expressions, calls, and
every form of expression. Code that was folded needs no level below, and the second runner has at
least as many levels left as the first.
-/

namespace Dee

open Eval

variable {kept : String → Prop} {W : World} {f g : Nat} {r q : Runner}

/-- Signals that look alike, or none on both sides. -/
abbrev signalsAlike (W : World) : Option Signal → Option Signal → Prop :=
  Option.Rel (Signal.Alike W)

/-- What one runner does with code the other does with the code that refines it. -/
structure Runner.Tracks (kept : String → Prop) (r q : Runner) : Prop where
  depth_le : r.depth ≤ q.depth
  turns_eq : r.turns = q.turns
  eval : ∀ {e e' : Expr}, Expr.Refines kept e e' → ∀ {W : World} {f g : Nat}, W.frames f g →
    Eval.Tracks kept W Value.Alike (r.eval e f) (q.eval e' g)
  exec : ∀ {s s' : Stmt}, Stmt.Refines kept s s' → ∀ {W : World} {f g : Nat}, W.frames f g →
    Eval.Tracks kept W signalsAlike (r.exec s f) (q.exec s' g)
  /-- A return leaves on both sides. -/
  leave : ∀ {pos : Pos} {value value' : Option Expr},
    Option.Rel (Expr.Refines kept) value value' → ∀ {W : World} {f g : Nat}, W.frames f g →
    Eval.Tracks kept W (fun W a b => ∃ v w, a = some (.leave v) ∧ b = some (.leave w) ∧
      Value.Alike W v w) (r.exec (.returnStmt pos value) f) (q.exec (.returnStmt pos value') g)
  /-- A declaration that loses all its variables does nothing. -/
  skip : ∀ (pos : Pos) {vars : List VarDef}, VarDef.RefinesAll kept vars [] →
    ∀ {W : World} {f g : Nat}, W.frames f g →
    Eval.Tracks kept W (fun _ a _ => a = none) (r.exec (.declaration pos vars) f) (pure ())
  /-- The initial value of a variable that is dropped does nothing. -/
  plain : ∀ {v : VarDef} {e : Expr}, v.isPlain = true → v.initializer = some e →
    ∀ {W : World} {f : Nat}, Eval.Tracks kept W anyResult (r.eval e f) (pure ())

namespace Runner.Tracks

/-! ## Sequences -/

theorem evalAll (h : r.Tracks kept q) {es es' : List Expr}
    (hes : List.Forall₂ (Expr.Refines kept) es es') (hfg : W.frames f g) :
    Eval.Tracks kept W Value.AllAlike (r.evalAll es f) (q.evalAll es' g) := by
  unfold Runner.evalAll
  induction hes generalizing W with
  | nil =>
    rw [List.mapM_nil, List.mapM_nil]
    exact tracks_pure .nil
  | cons he _ ih =>
    rw [List.mapM_cons, List.mapM_cons]
    refine (h.eval he hfg).bind fun W₁ v w hW₁ hvw => ?_
    refine (ih (hW₁.frames hfg)).bind fun W₂ vs ws hW₂ hvs => ?_
    exact tracks_pure (.cons (hvw.mono hW₂) hvs)

theorem evalEntries (h : r.Tracks kept q) {entries entries' : List TupleEntry}
    (hentries : List.Forall₂ (TupleEntry.Refines kept) entries entries') (hfg : W.frames f g)
    {slots slots' : Slots} (hslots : Slots.Alike W slots slots') :
    Eval.Tracks kept W Slots.Alike (r.evalEntries f entries slots)
      (q.evalEntries g entries' slots') := by
  induction hentries generalizing W slots slots' with
  | nil => exact tracks_pure hslots
  | cons hentry _ ih =>
    cases hentry with
    | @mk name e e' he =>
      refine (h.eval he hfg).bind fun W₁ v w hW₁ hvw => ?_
      have happend : Eval.Tracks kept W₁ Slots.Alike (ofExcept (slots.append name v))
          (ofExcept (slots'.append name w)) :=
        tracks_ofExcept ((hslots.mono hW₁).append name hvw)
      refine happend.bind fun W₂ s t hW₂ hst => ?_
      exact ih (hW₂.frames (hW₁.frames hfg)) hst

/-- Statements in sequence: a signal ends both sides. -/
theorem runAll (h : r.Tracks kept q) {ss ss' : List Stmt} (hss : Stmt.RefinesAll kept ss ss')
    (hfg : W.frames f g) :
    Eval.Tracks kept W signalsAlike (runAll (r.exec · f) ss) (runAll (q.exec · g) ss') := by
  induction ss generalizing W ss' with
  | nil =>
    cases hss
    exact tracks_pure .none
  | cons s rest ih =>
    cases hss with
    | cons hs hrest =>
      refine (h.exec hs hfg).bind fun W' a b hW hab => ?_
      cases hab with
      | none => exact ih hrest (hW.frames hfg)
      | some hsignal => exact tracks_pure (.some hsignal)
    | skip hvars hrest =>
      refine (h.skip _ hvars hfg).bind_left ?_
      rintro W' a hW rfl
      exact ih hrest (hW.frames hfg)
    | cut hvalue =>
      refine (h.leave hvalue hfg).bind ?_
      rintro W' a b hW ⟨v, w, rfl, rfl, hvw⟩
      exact tracks_pure (.some (.leave hvw))

end Runner.Tracks

/-! ## Calls -/

theorem tracks_bindParams {params : List String} {vs ws : List Value}
    (hvs : Value.AllAlike W vs ws) (hfg : W.frames f g) :
    Eval.Tracks kept W anyResult (Runner.bindParams f params vs)
      (Runner.bindParams g params ws) := by
  induction params generalizing W vs ws with
  | nil => exact tracks_pure trivial
  | cons p ps ih =>
    cases hvs with
    | nil => exact tracks_pure trivial
    | cons hv hvs =>
      refine (tracks_define hfg hv).bind fun W' _ _ hW _ => ?_
      exact ih (Value.AllAlike.mono hvs hW) (hW.frames hfg)

theorem tracks_resultOf {a b : Option Signal} (hab : signalsAlike W a b) :
    Eval.Tracks kept W Value.Alike (Runner.resultOf a) (Runner.resultOf b) := by
  cases hab with
  | none => exact tracks_pure (.scalar .none)
  | some h =>
    cases h with
    | exitLoop => exact tracks_fail _
    | nextTurn => exact tracks_fail _
    | leave hvw => exact tracks_pure hvw

namespace Runner.Tracks

theorem runBody (h : r.Tracks kept q) {c d : Closure} (hcd : Closure.Alike kept W c d)
    (hfg : W.frames f g) :
    Eval.Tracks kept W Value.Alike (r.runBody c f) (q.runBody d g) := by
  obtain ⟨pos, hcode⟩ := hcd.code
  obtain ⟨params, statements, expression, frame⟩ := c
  obtain ⟨params', statements', expression', frame'⟩ := d
  cases hcode with
  | function hbody => exact (h.runAll hbody hfg).bind fun W' a b _ hab => tracks_resultOf hab
  | lambda he => exact h.eval he hfg

theorem enter (h : r.Tracks kept q) {c d : Closure} (hcd : Closure.Alike kept W c d)
    {vs ws : List Value} (hvs : Value.AllAlike W vs ws) :
    Eval.Tracks kept W Value.Alike (r.enter c vs) (q.enter d ws) := by
  have hframe : Eval.Tracks kept W (fun W' i j => W'.frames i j)
      (make (·.newFrame c.frame)) (make (·.newFrame d.frame)) :=
    tracks_make fun s t hst => hst.newFrame (Or.inr hcd.frame)
  refine hframe.bind fun W₁ i j hW₁ hij => ?_
  rw [hcd.params_eq]
  refine (tracks_bindParams (Value.AllAlike.mono hvs hW₁) hij).bind fun W₂ _ _ hW₂ _ => ?_
  exact h.runBody (hcd.mono (World.le_trans hW₁ hW₂)) (hW₂.frames hij)

theorem invoke (h : r.Tracks kept q) {v w : Value} (hvw : Value.Alike W v w)
    {vs ws : List Value} (hvs : Value.AllAlike W vs ws) :
    Eval.Tracks kept W Value.Alike (r.invoke v vs) (q.invoke w ws) := by
  cases hvw with
  | @func i j hij =>
    refine tracks_store_bind fun s t hst => ?_
    have hcd := hst.closure hij
    show Eval.Tracks kept W Value.Alike
      (if vs.length = (s.closure i).params.length then r.enter (s.closure i) vs
        else fail (.argumentCount (s.closure i).params.length vs.length))
      (if ws.length = (t.closure j).params.length then q.enter (t.closure j) ws
        else fail (.argumentCount (t.closure j).params.length ws.length))
    rw [hcd.params_eq, hvs.length_eq]
    split
    · exact h.enter hcd hvs
    · exact tracks_fail _
  | scalar _ => exact tracks_fail _
  | array _ => exact tracks_fail _
  | tuple _ => exact tracks_fail _

end Runner.Tracks

/-! ## One more level -/

theorem tracks_foldBinary {x y : Eval Value} {a b v : Scalar} {op : String}
    (hx : Eval.Tracks kept W Value.Alike x (pure (.scalar a)))
    (hy : ∀ W', W ≤ W' → Eval.Tracks kept W' Value.Alike y (pure (.scalar b)))
    (hv : Scalar.binary op a b = .ok v) (depth : Nat) :
    Eval.Tracks kept W Value.Alike
      (do
        let a ← x
        let b ← y
        Eval.binary depth op a b)
      (pure (.scalar v)) := by
  refine hx.bind_left fun W₁ v₁ hW₁ h₁ => ?_
  refine (hy W₁ hW₁).bind_left fun W₂ v₂ hW₂ h₂ => ?_
  cases h₁
  cases h₂
  show Eval.Tracks kept W₂ Value.Alike (do return .scalar (← ofOutcome (Scalar.binary op a b))) _
  rw [hv]
  exact tracks_pure (.scalar v)

theorem tracks_foldUnary {x : Eval Value} {a v : Scalar} {op : String}
    (hx : Eval.Tracks kept W Value.Alike x (pure (.scalar a))) (hv : Scalar.unary op a = .ok v) :
    Eval.Tracks kept W Value.Alike
      (do
        let a ← x
        Eval.unary op a)
      (pure (.scalar v)) := by
  refine hx.bind_left fun W₁ v₁ hW₁ h₁ => ?_
  cases h₁
  show Eval.Tracks kept W₁ Value.Alike (do return .scalar (← ofExcept (Scalar.unary op a))) _
  rw [hv]
  exact tracks_pure (.scalar v)

/-- A function is made on both sides. -/
theorem tracks_makeClosure {c d : Closure} (hcd : Closure.Alike kept W c d) :
    Eval.Tracks kept W Value.Alike (make (·.newClosure c)) (make (·.newClosure d)) :=
  tracks_make fun _ _ hst => hst.newClosure hcd

/-- A literal needs one level and gives its value. -/
theorem ofDepth_eval_literal (turns depth : Nat) (pos : Pos) (value : Scalar) (kind : Kind)
    (g : Nat) : (Runner.ofDepth turns (depth + 1)).eval (.literal pos value kind) g =
      pure (.scalar value) := rfl

section Level

variable {turns depth depth' : Nat}

/-- The second runner evaluates refined parts as the first evaluates the parts, and it does so with
one level more as well. -/
theorem tracks_eval_succ
    (h : (Runner.ofDepth turns depth).Tracks kept (.ofDepth turns depth'))
    (hfold : (Runner.ofDepth turns depth).Tracks kept (.ofDepth turns (depth' + 1)))
    {e e' : Expr} (he : Expr.Refines kept e e') (hfg : W.frames f g) :
    Eval.Tracks kept W Value.Alike ((Runner.ofDepth turns (depth + 1)).eval e f)
      ((Runner.ofDepth turns (depth' + 1)).eval e' g) := by
  cases he with
  | literal => exact tracks_pure (.scalar _)
  | reference hname => exact (tracks_lookup h.depth_le hname hfg).locating _
  | binary hleft hright =>
    refine Tracks.locating ?_ _
    refine (h.eval hleft hfg).bind fun W₁ v w hW₁ hvw => ?_
    refine (h.eval hright (hW₁.frames hfg)).bind fun W₂ v' w' hW₂ hvw' => ?_
    exact tracks_binary h.depth_le _ (hvw.mono hW₂) hvw'
  | foldBinary hleft hright hv =>
    rw [ofDepth_eval_literal]
    refine Tracks.locating_left ?_ _ fun _ _ _ hpure => by cases hpure
    refine tracks_foldBinary (hfold.eval hleft hfg) (fun W' hW => ?_) hv _
    exact hfold.eval hright (hW.frames hfg)
  | unary hoperand =>
    refine Tracks.locating ?_ _
    exact (h.eval hoperand hfg).bind fun W₁ v w hW₁ hvw => tracks_unary _ hvw
  | foldUnary hoperand hv =>
    rw [ofDepth_eval_literal]
    refine Tracks.locating_left ?_ _ fun _ _ _ hpure => by cases hpure
    exact tracks_foldUnary (hfold.eval hoperand hfg) hv
  | call hfunc hargs =>
    refine Tracks.locating ?_ _
    refine (h.eval hfunc hfg).bind fun W₁ v w hW₁ hvw => ?_
    refine (h.evalAll hargs (hW₁.frames hfg)).bind fun W₂ vs ws hW₂ hvs => ?_
    exact h.invoke (hvw.mono hW₂) hvs
  | index hvalue hindex =>
    refine Tracks.locating ?_ _
    refine (h.eval hvalue hfg).bind fun W₁ v w hW₁ hvw => ?_
    refine (h.eval hindex (hW₁.frames hfg)).bind fun W₂ i j hW₂ hij => ?_
    refine (tracks_requireInt .index hij).bind ?_
    rintro W₃ k _ hW₃ rfl
    exact tracks_elementAt (hvw.mono (World.le_trans hW₂ hW₃)) k
  | array helements =>
    refine Tracks.locating ?_ _
    refine (h.evalAll helements hfg).bind fun W₁ vs ws hW₁ hvs => ?_
    exact tracks_make fun s t hst => hst.newArray hvs
  | tuple hentries =>
    refine Tracks.locating ?_ _
    refine (h.evalEntries hentries hfg .empty).bind fun W₁ c d hW₁ hcd => ?_
    exact tracks_make fun s t hst => hst.newTuple hcd
  | @function pos params body body' hbody =>
    have hcode : Closure.Alike kept W ⟨params, body, none, f⟩ ⟨params, body', none, g⟩ :=
      ⟨⟨pos, .function hbody⟩, hfg⟩
    exact (tracks_makeClosure hcode).locating pos
  | @lambda pos params body body' e e' he =>
    have hcode : Closure.Alike kept W ⟨params, body, some e, f⟩ ⟨params, body', some e', g⟩ :=
      ⟨⟨pos, .lambda he⟩, hfg⟩
    exact (tracks_makeClosure hcode).locating pos
  | typeCheck hvalue =>
    refine Tracks.locating ?_ _
    refine (h.eval hvalue hfg).bind fun W₁ v w hW₁ hvw => ?_
    rw [hvw.kind_eq]
    split
    · exact tracks_pure (.scalar _)
    · exact tracks_fail _
  | member hvalue =>
    refine Tracks.locating ?_ _
    exact (h.eval hvalue hfg).bind fun W₁ v w hW₁ hvw => tracks_memberOf hvw _

/-- The initial value of a variable that is dropped does nothing. -/
theorem tracks_plain_succ {v : VarDef} {e : Expr} (hplain : v.isPlain = true)
    (he : v.initializer = some e) :
    Eval.Tracks kept W anyResult ((Runner.ofDepth turns (depth + 1)).eval e f) (pure ()) := by
  have hcases : (∃ pos value kind, e = .literal pos value kind) ∨
      (∃ pos name, e = .reference pos name) ∨
      ∃ pos params body expression, e = .function pos params body expression := by
    unfold VarDef.isPlain at hplain
    rw [he] at hplain
    cases e <;> simp at hplain ⊢
  refine Tracks.locating_left ?_ _ fun _ _ _ hpure => by cases hpure
  rcases hcases with ⟨pos, value, kind, rfl⟩ | ⟨pos, name, rfl⟩ | ⟨pos, params, body, ex, rfl⟩
  · exact tracks_pure trivial
  · exact tracks_lookup_left _ f name
  · exact tracks_make_left (fun s t hst => hst.newClosure_left _) fun _ => trivial

end Level

end Dee
