import Dee.Proofs.Refinement.Expressions

/-!
# Statements that refine statements

Every form of statement is tracked by the forms that may stand in its place: declarations that lose
variables, conditionals that are replaced by a branch, loops with refined bodies. With the forms of
expressions this closes the induction over the levels of evaluation.

Main statement: `Runner.tracks_ofDepth`. A runner with at least as many levels tracks one with
fewer.
-/

namespace Dee

open Eval

variable {kept : String → Prop} {W : World} {f g : Nat} {r q : Runner}

/-! ## Declarations -/

theorem tracks_declareAll {vars vars' : List VarDef} (hvars : VarDef.RefinesAll kept vars vars')
    (hfg : W.frames f g) :
    Eval.Tracks kept W anyResult (Runner.declareAll f vars) (Runner.declareAll g vars') := by
  induction vars generalizing W vars' with
  | nil =>
    cases hvars
    exact tracks_pure trivial
  | cons v rest ih =>
    cases hvars with
    | keep _ _ hrest =>
      refine (tracks_define hfg (.scalar .none)).bind fun W' _ _ hW _ => ?_
      exact ih hrest (hW.frames hfg)
    | drop hname _ hrest =>
      refine (tracks_define_left hfg hname _).bind_left fun W' _ hW _ => ?_
      exact ih hrest (hW.frames hfg)

/-- The initial value of a dropped variable is evaluated and stored for nobody. -/
theorem Runner.Tracks.storeInitial_drop (h : r.Tracks kept q) {v : VarDef}
    (hname : ¬ kept v.name) (hplain : v.isPlain = true) {rest : List VarDef} {z : Eval Unit}
    (hrest : ∀ W', W ≤ W' → Eval.Tracks kept W' anyResult (r.storeInitial f rest) z) :
    Eval.Tracks kept W anyResult (r.storeInitial f (v :: rest)) z := by
  obtain ⟨name, initializer⟩ := v
  cases initializer with
  | none => exact hrest W W.le_refl
  | some e =>
    refine (h.plain hplain rfl).bind_left fun W₁ a hW₁ _ => ?_
    refine (tracks_assign_left hname r.depth f a).bind_left fun W₂ _ hW₂ _ => ?_
    exact hrest W₂ (World.le_trans hW₁ hW₂)

theorem Runner.Tracks.storeInitial (h : r.Tracks kept q) {vars vars' : List VarDef}
    (hvars : VarDef.RefinesAll kept vars vars') (hfg : W.frames f g) :
    Eval.Tracks kept W anyResult (r.storeInitial f vars) (q.storeInitial g vars') := by
  induction vars generalizing W vars' with
  | nil =>
    cases hvars
    exact tracks_pure trivial
  | cons v rest ih =>
    cases hvars with
    | keep hname hinitializer hrest =>
      cases hinitializer with
      | none =>
        have hnext := ih hrest hfg
        exact hnext
      | some he =>
        refine (h.eval he hfg).bind fun W₁ a b hW₁ hab => ?_
        refine (tracks_assign h.depth_le hname (hW₁.frames hfg) hab).bind fun W₂ _ _ hW₂ _ => ?_
        exact ih hrest (hW₂.frames (hW₁.frames hfg))
    | drop hname hplain hrest =>
      exact h.storeInitial_drop hname hplain fun W' hW => ih hrest (hW.frames hfg)

theorem Runner.Tracks.declaration (h : r.Tracks kept q) {pos : Pos} {vars vars' : List VarDef}
    (hvars : VarDef.RefinesAll kept vars vars') (hfg : W.frames f g) :
    Eval.Tracks kept W (fun _ a b => a = none ∧ b = none)
      (r.execRule f (.declaration pos vars)) (q.execRule g (.declaration pos vars')) := by
  refine (tracks_declareAll hvars hfg).bind fun W₁ _ _ hW₁ _ => ?_
  refine (h.storeInitial hvars (hW₁.frames hfg)).bind fun W₂ _ _ hW₂ _ => ?_
  exact tracks_pure ⟨rfl, rfl⟩

/-! ## Assignments -/

theorem Runner.Tracks.assignTo (h : r.Tracks kept q) {target target' : Expr}
    (htarget : Expr.Refines kept target target') (hfg : W.frames f g) {v w : Value}
    (hvw : Value.Alike W v w) :
    Eval.Tracks kept W anyResult (r.assignTo f v target) (q.assignTo g w target') := by
  cases htarget with
  | reference hname => exact tracks_assign h.depth_le hname hfg hvw
  | index hvalue hindex =>
    refine (h.eval hvalue hfg).bind fun W₁ c d hW₁ hcd => ?_
    refine (h.eval hindex (hW₁.frames hfg)).bind fun W₂ i j hW₂ hij => ?_
    refine (tracks_requireInt .index hij).bind ?_
    rintro W₃ k _ hW₃ rfl
    have hW := World.le_trans hW₂ hW₃
    exact tracks_setElementAt (hcd.mono hW) k (hvw.mono (World.le_trans hW₁ hW))
  | member hvalue =>
    refine (h.eval hvalue hfg).bind fun W₁ c d hW₁ hcd => ?_
    exact tracks_setMemberOf hcd _ (hvw.mono hW₁)
  | _ => exact tracks_fail _

/-! ## Blocks and conditions -/

theorem Runner.Tracks.block (h : r.Tracks kept q) {body body' : Block}
    (hbody : Block.Refines kept body body') (hfg : W.frames f g) :
    Eval.Tracks kept W signalsAlike (r.execRule f (.block body)) (q.execRule g (.block body')) := by
  cases hbody with
  | mk hbody =>
    have hframe : Eval.Tracks kept W (fun W' i j => W'.frames i j)
        (make (·.newFrame f)) (make (·.newFrame g)) :=
      tracks_make fun s t hst => hst.newFrame (Or.inr hfg)
    exact hframe.bind fun W' i j _ hij => h.runAll hbody hij

/-- The truth of a value is the same on both sides. -/
theorem tracks_truth {x y : Eval Value} (h : Eval.Tracks kept W Value.Alike x y) :
    Eval.Tracks kept W (fun _ a b => a = b) (do let v ← x; return (← Eval.store).truthy v)
      (do let v ← y; return (← Eval.store).truthy v) := by
  refine h.bind fun W' v w _ hvw => ?_
  exact tracks_store_bind fun s t hst => tracks_pure (hst.truthy_eq hvw)

theorem Runner.Tracks.holds (h : r.Tracks kept q) {condition condition' : Expr}
    (hcondition : Expr.Refines kept condition condition') (hfg : W.frames f g) :
    Eval.Tracks kept W (fun _ a b => a = b) (r.holds condition f) (q.holds condition' g) :=
  tracks_truth (h.eval hcondition hfg)

/-- A condition that was folded to a literal has the truth of the literal. -/
theorem Runner.Tracks.holds_literal {turns depth : Nat}
    (h : r.Tracks kept (.ofDepth turns (depth + 1))) {condition : Expr} {pos : Pos}
    {value : Scalar} {kind : Kind}
    (hcondition : Expr.Refines kept condition (.literal pos value kind))
    (hfg : W.frames f g) :
    Eval.Tracks kept W (fun _ a b => a = b) (r.holds condition f) (pure value.truthy) :=
  tracks_truth (h.eval hcondition hfg)

/-! ## Loops -/

/-- Turns that look alike. -/
inductive Turn.Alike (W : World) : Turn → Turn → Prop
  | again : Turn.Alike W .again .again
  | stop {a b : Option Signal} (h : signalsAlike W a b) : Turn.Alike W (.stop a) (.stop b)

theorem Turn.alike_ofSignal {a b : Option Signal} (hab : signalsAlike W a b) :
    Turn.Alike W (.ofSignal a) (.ofSignal b) := by
  cases hab with
  | none => exact .again
  | some h =>
    cases h with
    | exitLoop => exact .stop .none
    | nextTurn => exact .again
    | leave hvw => exact .stop (.some (.leave hvw))

theorem tracks_takeTurns {turn turn' : Eval Turn}
    (hturn : ∀ W', W ≤ W' → Eval.Tracks kept W' Turn.Alike turn turn') (turns : Nat) :
    Eval.Tracks kept W signalsAlike (takeTurns turn turns) (takeTurns turn' turns) := by
  induction turns generalizing W with
  | zero => exact tracks_throw _
  | succ turns ih =>
    refine (hturn W W.le_refl).bind fun W' a b hW hab => ?_
    cases hab with
    | again => exact ih fun W'' hW' => hturn W'' (World.le_trans hW hW')
    | stop h => exact tracks_pure h

/-- Items that look alike: as many, and each like its partner. -/
structure Items.Alike (W : World) (a b : Items) : Prop where
  count : a.count = b.count
  item : ∀ k, Value.Alike W (a.item k) (b.item k)

theorem tracks_forEach {a b : Items} (hab : Items.Alike W a b) {turn turn' : Value → Eval Turn}
    (hturn : ∀ W' v w, W ≤ W' → Value.Alike W' v w →
      Eval.Tracks kept W' Turn.Alike (turn v) (turn' w)) :
    Eval.Tracks kept W signalsAlike (a.forEach turn) (b.forEach turn') := by
  have key : ∀ (remaining next : Nat) (W' : World), W ≤ W' →
      Eval.Tracks kept W' signalsAlike (a.takeFrom turn remaining next)
        (b.takeFrom turn' remaining next) := by
    intro remaining
    induction remaining with
    | zero =>
      intro next W' _
      exact tracks_pure .none
    | succ remaining ih =>
      intro next W' hW
      refine (hturn W' _ _ hW ((hab.item next).mono hW)).bind fun W'' x y hW' hxy => ?_
      cases hxy with
      | again => exact ih (next + 1) W'' (World.le_trans hW hW')
      | stop h => exact tracks_pure h
  unfold Items.forEach
  rw [hab.count]
  exact key b.count 0 W W.le_refl

theorem Items.alike_ofRange (first last : Int) :
    Items.Alike W (.ofRange first last) (.ofRange first last) where
  count := rfl
  item := by
    intro k
    unfold Items.ofRange
    simp only
    split
    · exact .scalar _
    · exact .scalar _

theorem Items.alike_ofArray {vs ws : Array Value} (h : Value.AllAlike W vs.toList ws.toList) :
    Items.Alike W (.ofArray vs) (.ofArray ws) where
  count := List.Forall₂.length_eq h
  item := by
    intro k
    have hget := Value.AllAlike.getD h k
    simp only [List.getD_eq_getElem?_getD, Array.getElem?_toList] at hget
    simp only [Items.ofArray, Array.getD_eq_getD_getElem?]
    exact hget

namespace Runner.Tracks

theorem itemsOf (h : r.Tracks kept q) {iterable iterable' : Expr} {last last' : Option Expr}
    (hiterable : Expr.Refines kept iterable iterable')
    (hlast : Option.Rel (Expr.Refines kept) last last') (hfg : W.frames f g) :
    Eval.Tracks kept W Items.Alike (r.itemsOf f iterable last) (q.itemsOf g iterable' last') := by
  cases hlast with
  | none =>
    refine (h.eval hiterable hfg).bind fun W₁ v w hW₁ hvw => ?_
    refine tracks_store_bind fun s t hst => ?_
    cases hvw with
    | array hij => exact tracks_pure (Items.alike_ofArray (hst.cells hij))
    | tuple hij => exact tracks_pure (Items.alike_ofArray (by simpa using (hst.slots hij).values))
    | scalar _ => exact tracks_fail _
    | func _ => exact tracks_fail _
  | some hlast =>
    refine (h.eval hiterable hfg).bind fun W₁ v w hW₁ hvw => ?_
    refine (tracks_requireInt .rangeStart hvw).bind ?_
    rintro W₂ first _ hW₂ rfl
    refine (h.eval hlast (hW₂.frames (hW₁.frames hfg))).bind fun W₃ v' w' hW₃ hvw' => ?_
    refine (tracks_requireInt .rangeEnd hvw').bind ?_
    rintro W₄ last _ hW₄ rfl
    exact tracks_pure (Items.alike_ofRange first last)

/-- The body of a loop, as a turn of the loop. -/
theorem bodyTurn (h : r.Tracks kept q) {body body' : Block}
    (hbody : Block.Refines kept body body') (hfg : W.frames f g) :
    Eval.Tracks kept W Turn.Alike (do return .ofSignal (← r.exec (.block body) f))
      (do return .ofSignal (← q.exec (.block body') g)) := by
  refine (h.exec (.block hbody) hfg).bind fun W' a b _ hab => ?_
  exact tracks_pure (Turn.alike_ofSignal hab)

theorem itemTurn (h : r.Tracks kept q) {body body' : Block}
    (hbody : Block.Refines kept body body') (hfg : W.frames f g) (loopVar : Option String)
    {v w : Value} (hvw : Value.Alike W v w) :
    Eval.Tracks kept W Turn.Alike (r.itemTurn f loopVar body v) (q.itemTurn g loopVar body' w) := by
  cases loopVar with
  | none => exact h.bodyTurn hbody hfg
  | some name =>
    have hframe : Eval.Tracks kept W (fun W' i j => W'.frames i j)
        (make (·.newFrame f)) (make (·.newFrame g)) :=
      tracks_make fun s t hst => hst.newFrame (Or.inr hfg)
    refine hframe.bind fun W₁ i j hW₁ hij => ?_
    refine (tracks_define hij (hvw.mono hW₁)).bind fun W₂ _ _ hW₂ _ => ?_
    exact h.bodyTurn hbody (hW₂.frames hij)

theorem whileTurn (h : r.Tracks kept q) {condition condition' : Expr} {body body' : Block}
    (hcondition : Expr.Refines kept condition condition')
    (hbody : Block.Refines kept body body') (hfg : W.frames f g) :
    Eval.Tracks kept W Turn.Alike
      (do
        if ← r.holds condition f then return .ofSignal (← r.exec (.block body) f)
        else return .stop none)
      (do
        if ← q.holds condition' g then return .ofSignal (← q.exec (.block body') g)
        else return .stop none) := by
  refine (h.holds hcondition hfg).bind ?_
  rintro W' b _ hW rfl
  cases b with
  | true => exact h.bodyTurn hbody (hW.frames hfg)
  | false => exact tracks_pure (.stop .none)

theorem forLoop (h : r.Tracks kept q) {pos : Pos} {loopVar : Option String} {body body' : Block}
    {iterable iterable' last last' : Option Expr} (hbody : Block.Refines kept body body')
    (hiterable : Option.Rel (Expr.Refines kept) iterable iterable')
    (hlast : Option.Rel (Expr.Refines kept) last last') (hfg : W.frames f g) :
    Eval.Tracks kept W signalsAlike (r.execRule f (.forLoop pos loopVar body iterable last))
      (q.execRule g (.forLoop pos loopVar body' iterable' last')) := by
  cases hiterable with
  | none =>
    show Eval.Tracks kept W signalsAlike (takeTurns _ r.turns) (takeTurns _ q.turns)
    rw [h.turns_eq]
    exact tracks_takeTurns (fun W' hW => h.bodyTurn hbody (hW.frames hfg)) q.turns
  | some hiterable =>
    refine (h.itemsOf hiterable hlast hfg).bind fun W₁ a b hW₁ hab => ?_
    refine tracks_forEach hab fun W₂ v w hW₂ hvw => ?_
    exact h.itemTurn hbody (hW₂.frames (hW₁.frames hfg)) loopVar hvw

theorem whileLoop (h : r.Tracks kept q) {pos : Pos} {condition condition' : Expr}
    {body body' : Block} (hcondition : Expr.Refines kept condition condition')
    (hbody : Block.Refines kept body body') (hfg : W.frames f g) :
    Eval.Tracks kept W signalsAlike (r.execRule f (.whileLoop pos condition body))
      (q.execRule g (.whileLoop pos condition' body')) := by
  show Eval.Tracks kept W signalsAlike (takeTurns _ r.turns) (takeTurns _ q.turns)
  rw [h.turns_eq]
  exact tracks_takeTurns (fun W' hW => h.whileTurn hcondition hbody (hW.frames hfg)) q.turns

/-- A return leaves with what it returns. -/
theorem returnStmt (h : r.Tracks kept q) {pos : Pos} {value value' : Option Expr}
    (hvalue : Option.Rel (Expr.Refines kept) value value') (hfg : W.frames f g) :
    Eval.Tracks kept W (fun W a b => ∃ v w, a = some (.leave v) ∧ b = some (.leave w) ∧
      Value.Alike W v w) (r.execRule f (.returnStmt pos value))
      (q.execRule g (.returnStmt pos value')) := by
  cases hvalue with
  | none => exact tracks_pure ⟨_, _, rfl, rfl, .scalar .none⟩
  | some he =>
    refine (h.eval he hfg).bind fun W' v w _ hvw => ?_
    exact tracks_pure ⟨v, w, rfl, rfl, hvw⟩

end Runner.Tracks

/-! ## One more level -/

theorem Located.isPlaced_placeAt {ε : Type} (e : Located ε) {pos : Pos}
    (hpos : pos.isPlace = true) :
    (e.placeAt pos).isPlaced = true := by
  unfold Located.placeAt
  split
  next h => exact h
  next =>
    unfold Pos.isPlace at hpos
    simp only [Bool.and_eq_true, decide_eq_true_eq] at hpos
    have hline : 0 < pos.line := by omega
    simp [Located.isPlaced, Located.moveTo, hline]

section Level

variable {turns depth depth' : Nat}

/-- A statement at a place leaves no error without a position. -/
theorem isPlaced_of_exec {s : Stmt} (hplace : s.pos.isPlace = true) {n n' : Machine}
    {e : Located EvalError}
    (h : (Runner.ofDepth turns (depth + 1)).exec s g n = (.error (.error e), n')) :
    e.isPlaced = true := by
  change Eval.locating s.pos ((Runner.ofDepth turns depth).execRule g s) n = _ at h
  unfold Eval.locating at h
  split at h
  next e' m' _ =>
    cases h
    exact Located.isPlaced_placeAt e' hplace
  next hother => exact absurd h (hother e n')

/-- A branch takes the place of its conditional if the condition was folded. -/
theorem tracks_branch
    (hfold : (Runner.ofDepth turns depth).Tracks kept (.ofDepth turns (depth' + 1)))
    {pos pos₁ : Pos} {condition : Expr} {value : Scalar} {kind : Kind} {taken taken' body : Block}
    {other : Option Block} (hcondition : Expr.Refines kept condition (.literal pos₁ value kind))
    (htaken : (if value.truthy then some body else other) = some taken)
    (hplace : taken.pos.isPlace = true) (hrefines : Block.Refines kept taken taken')
    (hfg : W.frames f g) :
    Eval.Tracks kept W signalsAlike
      ((Runner.ofDepth turns (depth + 1)).exec (.conditional pos condition body other) f)
      ((Runner.ofDepth turns (depth' + 1)).exec (.block taken') g) := by
  refine Tracks.locating_left ?_ _ ?_
  · refine (hfold.holds_literal hcondition hfg).bind_left ?_
    rintro W' b hW rfl
    have hbranch := hfold.exec (.block hrefines) (hW.frames hfg)
    cases hb : value.truthy with
    | true =>
      rw [hb] at htaken
      cases htaken
      exact hbranch
    | false =>
      rw [hb] at htaken
      cases htaken
      exact hbranch
  · intro n e n' herror
    refine isPlaced_of_exec (s := .block taken') ?_ herror
    cases hrefines with
    | mk _ => exact hplace

/-- Without a branch to take, an empty block takes the place of the conditional. -/
theorem tracks_noBranch
    (hfold : (Runner.ofDepth turns depth).Tracks kept (.ofDepth turns (depth' + 1)))
    {pos pos₁ pos₂ : Pos} {condition : Expr} {value : Scalar} {kind : Kind} {body : Block}
    (hcondition : Expr.Refines kept condition (.literal pos₁ value kind))
    (hvalue : value.truthy = false) (hfg : W.frames f g) :
    Eval.Tracks kept W signalsAlike
      ((Runner.ofDepth turns (depth + 1)).exec (.conditional pos condition body none) f)
      ((Runner.ofDepth turns (depth' + 1)).exec (.block ⟨pos₂, []⟩) g) := by
  refine Tracks.locating_left ?_ _ fun _ _ _ herror => by cases herror
  refine (hfold.holds_literal hcondition hfg).bind_left ?_
  rintro W' b hW rfl m n hmn
  rw [hvalue]
  -- The block opens a frame on the second side alone, and nobody ever looks into it.
  exact leads_pure.mpr
    ⟨W', none, _, W'.le_refl, rfl, ⟨hmn.store.newFrame_right g, hmn.output⟩, .none⟩

theorem tracks_skip_succ (h : (Runner.ofDepth turns depth).Tracks kept (.ofDepth turns depth'))
    {pos : Pos} {vars : List VarDef} (hvars : VarDef.RefinesAll kept vars [])
    (hfg : W.frames f g) :
    Eval.Tracks kept W (fun _ a _ => a = none)
      ((Runner.ofDepth turns (depth + 1)).exec (.declaration pos vars) f) (pure ()) := by
  refine Tracks.locating_left ?_ _ fun _ _ _ hpure => by cases hpure
  refine Tracks.bind_left (tracks_declareAll hvars hfg) fun W₁ _ hW₁ _ => ?_
  refine Tracks.bind_left (h.storeInitial hvars (hW₁.frames hfg)) fun W₂ _ hW₂ _ => ?_
  exact tracks_pure rfl

theorem tracks_exec_succ
    (h : (Runner.ofDepth turns depth).Tracks kept (.ofDepth turns depth'))
    (hfold : (Runner.ofDepth turns depth).Tracks kept (.ofDepth turns (depth' + 1)))
    {s s' : Stmt} (hs : Stmt.Refines kept s s') (hfg : W.frames f g) :
    Eval.Tracks kept W signalsAlike ((Runner.ofDepth turns (depth + 1)).exec s f)
      ((Runner.ofDepth turns (depth' + 1)).exec s' g) := by
  cases hs with
  | declaration hvars =>
    refine Tracks.locating ((h.declaration hvars hfg).mono ?_) _
    rintro W' _ _ - ⟨rfl, rfl⟩
    exact .none
  | assign htarget hvalue =>
    refine Tracks.locating ?_ _
    refine (h.eval hvalue hfg).bind fun W₁ v w hW₁ hvw => ?_
    refine (h.assignTo htarget (hW₁.frames hfg) hvw).bind fun W₂ _ _ hW₂ _ => ?_
    exact tracks_pure .none
  | @block body body' hbody =>
    cases hbody with
    | mk hbody => exact (h.block (.mk hbody) hfg).locating _
  | conditional hcondition hbody hother =>
    refine Tracks.locating ?_ _
    refine (h.holds hcondition hfg).bind ?_
    rintro W' b _ hW rfl
    cases b with
    | true => exact h.exec (.block hbody) (hW.frames hfg)
    | false =>
      cases hother with
      | none => exact tracks_pure .none
      | some hother => exact h.exec (.block hother) (hW.frames hfg)
  | thenBranch hcondition hvalue hplace hbody =>
    exact tracks_branch hfold hcondition (by rw [if_pos hvalue]) hplace hbody hfg
  | elseBranch hcondition hvalue hplace hother =>
    exact tracks_branch hfold hcondition (by rw [hvalue]; rfl) hplace hother hfg
  | noBranch hcondition hvalue => exact tracks_noBranch hfold hcondition hvalue hfg
  | whileLoop hcondition hbody => exact (h.whileLoop hcondition hbody hfg).locating _
  | forLoop hbody hiterable hrangeEnd =>
    exact (h.forLoop hbody hiterable hrangeEnd hfg).locating _
  | returnStmt hvalue =>
    refine Tracks.locating ((h.returnStmt hvalue hfg).mono ?_) _
    rintro W' _ _ - ⟨v, w, rfl, rfl, hvw⟩
    exact .some (.leave hvw)
  | exitStmt => exact tracks_pure (.some .exitLoop)
  | continueStmt => exact tracks_pure (.some .nextTurn)
  | print hvalues =>
    refine Tracks.locating ?_ _
    refine (h.evalAll hvalues hfg).bind fun W₁ vs ws hW₁ hvs => ?_
    refine (tracks_print h.depth_le hvs).bind fun W₂ _ _ hW₂ _ => ?_
    exact tracks_pure .none
  | expr hvalue =>
    refine Tracks.locating ?_ _
    exact (h.eval hvalue hfg).bind fun W₁ _ _ _ _ => tracks_pure .none

end Level

/-! ## All levels -/

/-- A runner with at least as many levels tracks one with fewer. -/
theorem Runner.tracks_ofDepth (kept : String → Prop) (turns : Nat) {depth depth' : Nat}
    (hdepth : depth ≤ depth') :
    (Runner.ofDepth turns depth).Tracks kept (.ofDepth turns depth') := by
  induction depth generalizing depth' with
  | zero =>
    refine ⟨Nat.zero_le _, by cases depth' <;> rfl, ?_, ?_, ?_, ?_, ?_⟩
    · intro e e' _ W f g _
      exact tracks_exempt (f := .tooDeep) rfl
    · intro s s' _ W f g _
      exact tracks_exempt (f := .tooDeep) rfl
    · intro pos value value' _ W f g _
      exact tracks_exempt (f := .tooDeep) rfl
    · intro pos vars _ W f g _
      exact tracks_exempt (f := .tooDeep) rfl
    · intro v e _ _ W f
      exact tracks_exempt (f := .tooDeep) rfl
  | succ depth ih =>
    obtain ⟨depth', rfl⟩ : ∃ k, depth' = k + 1 := ⟨depth' - 1, by omega⟩
    have h := ih (Nat.le_of_succ_le_succ hdepth)
    -- Folded code has one level more on the second side than the code it stands for.
    have hfold := ih (Nat.le_of_succ_le hdepth)
    refine ⟨hdepth, rfl, ?_, ?_, ?_, ?_, ?_⟩
    · exact fun he _ _ _ hfg => tracks_eval_succ h hfold he hfg
    · exact fun hs _ _ _ hfg => tracks_exec_succ h hfold hs hfg
    · exact fun hvalue _ _ _ hfg => (h.returnStmt hvalue hfg).locating _
    · exact fun _ _ hvars _ _ _ hfg => tracks_skip_succ h hvars hfg
    · exact fun hplain he _ _ => tracks_plain_succ hplain he

end Dee
