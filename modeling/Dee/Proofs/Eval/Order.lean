import Dee.Proofs.Eval.Covers

/-!
# The order of parts

The parts of a task run one after the other: of two parts that are not the same, the one is finished
on the machine from which the other starts, or on an earlier one.

Main statement: `Runner.Evolving.apart`.
-/

namespace Dee

open Eval

variable {test : NodeTest} {m m₁ : Machine}

/-! ## Walks -/

/-- Of two items that a walk comes to, the walk is past the one when it comes to the other, if they
are not the same. A step of the walk is known by the machine `after i s` that it leaves. -/
theorem Comes.apart {ι σ : Type} {goes : ι → σ → σ → Prop} {items : List ι} {i j : ι} {s s₁ s₂ : σ}
    (h₁ : Comes goes items s i s₁) (h₂ : Comes goes items s j s₂) (on : σ → Machine)
    (after : ι → σ → Machine) (hfun : ∀ {i s s₁ s₂}, goes i s s₁ → goes i s s₂ → s₁ = s₂)
    (hafter : ∀ {i s s'}, goes i s s' → on s' = after i s)
    (hevolves : ∀ i ∈ items, ∀ s, Machine.Evolves test (on s) (after i s)) :
    (i = j ∧ s₁ = s₂) ∨ Machine.Evolves test (after i s₁) (on s₂) ∨
      Machine.Evolves test (after j s₂) (on s₁) := by
  -- Behind an item, the walk only takes steps for items that are left.
  have hbeyond : ∀ {i k : ι} {rest : List ι} {s s' s'' : σ}, (∀ x ∈ rest, x ∈ items) → goes i s s' →
      Comes goes rest s' k s'' → Machine.Evolves test (after i s) (on s'') := by
    intro i k rest s s' s'' hrest hstep h
    rw [← hafter hstep]
    refine h.keeps (P := fun s'' => Machine.Evolves test (on s') (on s'')) ?_ (.refl _)
    intro x hx t t' hgoes ht
    rw [hafter hgoes]
    exact ht.trans (hevolves x (hrest x hx) t)
  induction h₁ with
  | @head i rest s =>
    rcases comes_cons.mp h₂ with ⟨rfl, rfl⟩ | ⟨s', hstep, h₂⟩
    · exact Or.inl ⟨rfl, rfl⟩
    · exact Or.inr (Or.inl (hbeyond (fun x hx => List.mem_cons_of_mem i hx) hstep h₂))
  | @tail i _ rest s s' s₁ hstep h₁ ih =>
    rcases comes_cons.mp h₂ with ⟨rfl, rfl⟩ | ⟨s'', hstep', h₂⟩
    · exact Or.inr (Or.inr (hbeyond (fun x hx => List.mem_cons_of_mem _ hx) hstep h₁))
    · cases hfun hstep hstep'
      refine ih h₂ (fun x hx => hevolves x (List.mem_cons_of_mem i hx)) ?_
      exact fun hrest => hbeyond fun x hx => List.mem_cons_of_mem i (hrest x hx)

/-- The same task on the same machine, or one of the two is finished before the other starts. -/
def Task.Apart (test : NodeTest) (r : Runner) (t₁ : Task) (m₁ : Machine) (t₂ : Task)
    (m₂ : Machine) :
    Prop :=
  (t₁ = t₂ ∧ m₁ = m₂) ∨ Machine.Evolves test (t₁.leaves r m₁) m₂ ∨
    Machine.Evolves test (t₂.leaves r m₂) m₁

theorem Task.Apart.symm {r : Runner} {t₁ t₂ : Task} {m₁ m₂ : Machine}
    (h : Task.Apart test r t₁ m₁ t₂ m₂) : Task.Apart test r t₂ m₂ t₁ m₁ := by
  rcases h with ⟨rfl, rfl⟩ | h | h
  · exact Or.inl ⟨rfl, rfl⟩
  · exact Or.inr (Or.inr h)
  · exact Or.inr (Or.inl h)

namespace Runner.Evolving

variable {r : Runner} {frame : Nat} {m₂ : Machine}

theorem apart_passes (hr : r.Evolving test) {es : List Expr} (hes : ∀ e ∈ es, e.Passes test)
    {e₁ e₂ : Expr} (h₁ : Comes (r.Passes frame) es m e₁ m₁)
    (h₂ : Comes (r.Passes frame) es m e₂ m₂) :
    Task.Apart test r (.eval e₁ frame) m₁ (.eval e₂ frame) m₂ := by
  have hafter : ∀ {e m m'}, r.Passes frame e m m' → m' = (r.eval e frame m).2 := by
    rintro e m m' ⟨v, hv⟩
    rw [hv]
  rcases h₁.apart h₂ id (fun e m => (r.eval e frame m).2)
    (fun h h' => (hafter h).trans (hafter h').symm)
    hafter (fun e he m => hr.eval (hes e he) frame m) with ⟨rfl, rfl⟩ | h
  · exact Or.inl ⟨rfl, rfl⟩
  · exact Or.inr h

theorem apart_ends (hr : r.Evolving test) {ss : List Stmt} (hss : ∀ s ∈ ss, s.Passes test)
    {s₁ s₂ : Stmt}
    (h₁ : Comes (Ends (r.exec · frame)) ss m s₁ m₁)
    (h₂ : Comes (Ends (r.exec · frame)) ss m s₂ m₂) :
    Task.Apart test r (.exec s₁ frame) m₁ (.exec s₂ frame) m₂ := by
  have hafter : ∀ {s m m'}, Ends (r.exec · frame) s m m' → m' = (r.exec s frame m).2 :=
    fun h => (congrArg Prod.snd h).symm
  rcases h₁.apart h₂ id (fun s m => (r.exec s frame m).2)
    (fun h h' => (hafter h).trans (hafter h').symm)
    hafter (fun s hs m => hr.exec (hss s hs) frame m) with ⟨rfl, rfl⟩ | h
  · exact Or.inl ⟨rfl, rfl⟩
  · exact Or.inr h

theorem apart_adds (hr : r.Evolving test) {entries : List TupleEntry} {slots : Slots}
    (hentries : ∀ entry ∈ entries, entry.value.Passes test) {entry₁ entry₂ : TupleEntry}
    {s₁ s₂ : Slots × Machine} (h₁ : Comes (r.Adds frame) entries (slots, m) entry₁ s₁)
    (h₂ : Comes (r.Adds frame) entries (slots, m) entry₂ s₂) :
    Task.Apart test r (.eval entry₁.value frame) s₁.2 (.eval entry₂.value frame) s₂.2 := by
  have hfun : ∀ {entry s s₁ s₂}, r.Adds frame entry s s₁ → r.Adds frame entry s s₂ → s₁ = s₂ := by
    rintro entry s s₁ s₂ ⟨v, hv, hs⟩ ⟨v', hv', hs'⟩
    obtain ⟨hvalue, hmachine⟩ := Prod.mk.inj (hv.symm.trans hv')
    cases hvalue
    exact Prod.ext (Except.ok.inj (hs.symm.trans hs')) hmachine
  have hafter : ∀ {entry s s'}, r.Adds frame entry s s' →
      s'.2 = (r.eval entry.value frame s.2).2 := by
    rintro entry s s' ⟨v, hv, -⟩
    rw [hv]
  rcases h₁.apart h₂ Prod.snd (fun entry s => (r.eval entry.value frame s.2).2) hfun hafter
    (fun entry hentry s => hr.eval (hentries entry hentry) frame s.2) with ⟨rfl, rfl⟩ | h
  · exact Or.inl ⟨rfl, rfl⟩
  · exact Or.inr h

theorem apart_stores (hr : r.Evolving test) {pos : Pos} {vars : List VarDef}
    (hvars : (Stmt.declaration pos vars).Passes test) {name₁ name₂ : String} {e₁ e₂ : Expr}
    (h₁ : Comes (r.Stores frame) vars m ⟨name₁, some e₁⟩ m₁)
    (h₂ : Comes (r.Stores frame) vars m ⟨name₂, some e₂⟩ m₂) :
    Task.Apart test r (.eval e₁ frame) m₁ (.eval e₂ frame) m₂ := by
  -- A step of this walk evaluates and assigns, so the evaluation alone does not tell where it ends.
  have hafter : ∀ {var m m'}, r.Stores frame var m m' → m' = (r.storeInitial frame [var] m).2 := by
    rintro ⟨name, initializer⟩ m m' h
    cases initializer with
    | none => exact h
    | some e =>
      obtain ⟨v, m₂, hv, hassign⟩ := h
      rw [Runner.storeInitial, bind_apply_ok hv, bind_apply_ok hassign]
      rfl
  have hone : ∀ var ∈ vars, ∀ var' ∈ [var], var' ∈ vars := by
    intro var hvar var' hvar'
    rw [List.mem_singleton.mp hvar']
    exact hvar
  have hbehind : ∀ {name e m}, (⟨name, some e⟩ : VarDef) ∈ vars →
      Machine.Evolves test (r.eval e frame m).2 (r.storeInitial frame [⟨name, some e⟩] m).2 :=
    fun hvar => (hr.covers_storeInitial hvars (hone _ hvar) .head).behind
  rcases h₁.apart h₂ id (fun var m => (r.storeInitial frame [var] m).2)
    (fun h h' => (hafter h).trans (hafter h').symm) hafter
    (fun var hvar m => hr.storeInitial hvars frame (hone var hvar) m) with ⟨⟨⟩, rfl⟩ | h | h
  · exact Or.inl ⟨rfl, rfl⟩
  · exact Or.inr (Or.inl ((hbehind h₁.mem).trans h))
  · exact Or.inr (Or.inr ((hbehind h₂.mem).trans h))

/-- Parts of turns of a loop. -/
theorem apart_turns {ι : Type} {turn : ι → Eval Turn} (hturn : ∀ i, Eval.Evolving test (turn i))
    {items : List ι} {i j : ι} {t₁ t₂ : Task} {m₃ m₄ : Machine}
    (h₁ : Comes (fun i => GoesOn (turn i)) items m i m₁)
    (h₂ : Comes (fun i => GoesOn (turn i)) items m j m₂)
    (hcovers₁ : Covers test (turn i) m₁ m₃ (t₁.leaves r m₃))
    (hcovers₂ : Covers test (turn j) m₂ m₄ (t₂.leaves r m₄))
    (hsame : i = j → m₁ = m₂ → Task.Apart test r t₁ m₃ t₂ m₄) : Task.Apart test r t₁ m₃ t₂ m₄ := by
  have hafter : ∀ {i m m'}, GoesOn (turn i) m m' → m' = (turn i m).2 :=
    fun h => (congrArg Prod.snd h).symm
  rcases h₁.apart h₂ id (fun i m => (turn i m).2)
    (fun h h' => (hafter h).trans (hafter h').symm) hafter
    (fun i _ m => hturn i m) with ⟨hi, hm⟩ | h | h
  · exact hsame hi hm
  · exact Or.inr (Or.inl ((hcovers₁.behind.trans h).trans hcovers₂.before))
  · exact Or.inr (Or.inr ((hcovers₂.behind.trans h).trans hcovers₁.before))

/-- A call enters one function, on one machine. -/
theorem calls_unique {func : Expr} {args : List Expr} {c c' : Closure} {inner inner' : Nat}
    (h : r.Calls func args frame m c inner m₁) (h' : r.Calls func args frame m c' inner' m₂) :
    c = c' ∧ inner = inner' ∧ m₁ = m₂ := by
  obtain ⟨ref, vs, m₃, m₄, hfunc, hargs, rfl, -, hopen⟩ := h
  obtain ⟨ref', vs', m₃', m₄', hfunc', hargs', rfl, -, hopen'⟩ := h'
  cases hfunc.symm.trans hfunc'
  cases hargs.symm.trans hargs'
  cases hopen.symm.trans hopen'
  exact ⟨rfl, rfl, rfl⟩

/-- The operands of a call are evaluated before its body runs. -/
theorem operand_before_body (hr : r.Evolving test) {pos : Pos} {func e : Expr} {args : List Expr}
    {c : Closure} {inner : Nat} (he : (Expr.call pos func args).Passes test)
    (h : Comes (r.Passes frame) (func :: args) m e m₁)
    (hcalls : r.Calls func args frame m c inner m₂) :
    Machine.Evolves test (r.eval e frame m₁).2 m₂ := by
  obtain ⟨ref, vs, m₃, m₄, hfunc, hargs, rfl, -, hopen⟩ := hcalls
  have hpassed : ∀ e ∈ args, e.Passes test :=
    fun e he' => he.operand (List.mem_cons_of_mem func he')
  have hopened : Machine.Evolves test m₄ m₂ := (evolving_openFrame _ vs).ok hopen
  rcases comes_cons.mp h with ⟨rfl, rfl⟩ | ⟨m₅, ⟨v, hv⟩, h⟩
  · rw [hfunc]
    exact ((hr.evalAll hpassed frame).ok hargs).trans hopened
  · cases hfunc.symm.trans hv
    exact ((hr.covers_evalAll hpassed h).ok hargs).trans hopened

theorem holds_ok {condition : Expr} {b : Bool} (h : r.holds condition frame m = (.ok b, m₁)) :
    m₁ = (r.eval condition frame m).2 := by
  rcases hv : r.eval condition frame m with ⟨result, m₂⟩
  cases result with
  | ok v =>
    rw [Runner.holds, bind_apply_ok hv] at h
    cases h
    rfl
  | error f =>
    rw [Runner.holds, bind_apply_error hv] at h
    cases h

theorem condition_before_branch {condition : Expr} {b : Bool}
    (h : r.holds condition frame m = (.ok b, m₁)) :
    Machine.Evolves test (r.eval condition frame m).2 m₁ := by
  rw [holds_ok h]
  exact .refl _

/-- The condition in one turn of a loop and the body in any turn. -/
theorem apart_while (hr : r.Evolving test) {condition : Expr} {body : Block} {turns : Nat}
    {m₃ : Machine}
    (hcondition : condition.Passes test) (hbody : (Stmt.block body).Passes test)
    (h₁ : Comes (fun _ => GoesOn (r.whileTurn condition body frame))
      (List.replicate turns ()) m () m₁)
    (h₂ : Comes (fun _ => GoesOn (r.whileTurn condition body frame))
      (List.replicate turns ()) m () m₂)
    (hholds : r.holds condition frame m₂ = (.ok true, m₃)) :
    Task.Apart test r (.eval condition frame) m₁ (.exec (.block body) frame) m₃ := by
  refine apart_turns (fun _ => hr.whileTurn hcondition hbody frame) h₁ h₂
    (hr.covers_whileCondition hbody) (hr.covers_whileBody hcondition hholds) ?_
  rintro - rfl
  exact Or.inr (Or.inl (condition_before_branch hholds))

/-- The items of a loop are known before the body runs for one of them. -/
theorem items_before_body (hr : r.Evolving test) {loopVar : Option String} {body : Block}
    {items : Items}
    {k inner : Nat} {m₃ : Machine} (hbody : (Stmt.block body).Passes test)
    (h : Comes (fun k => GoesOn (r.itemTurn frame loopVar body (items.item k)))
      (List.range' 0 items.count) m₁ k m₂)
    (hopen : turnFrame frame loopVar (items.item k) m₂ = (.ok inner, m₃)) :
    Machine.Evolves test m₁ m₃ :=
  (covers_takeFrom (fun v => hr.itemTurn hbody frame loopVar v) h).before.trans
    ((evolving_turnFrame _ _ _).ok hopen)

theorem rangeEnd_before_body (hr : r.Evolving test) {pos : Pos} {loopVar : Option String}
    {body : Block}
    {iterable last : Expr} {first : Int} {items : Items} {k inner : Nat} {m₃ m₄ : Machine}
    (hs : (Stmt.forLoop pos loopVar body (some iterable) (some last)).Passes test)
    (hfirst : r.eval iterable frame m = (.ok (.int first), m₁))
    (hitems : r.itemsOf frame iterable (some last) m = (.ok items, m₂))
    (h : Comes (fun k => GoesOn (r.itemTurn frame loopVar body (items.item k)))
      (List.range' 0 items.count) m₂ k m₃)
    (hopen : turnFrame frame loopVar (items.item k) m₃ = (.ok inner, m₄)) :
    Machine.Evolves test (r.eval last frame m₁).2 m₄ := by
  obtain ⟨hiterable, -, hbody⟩ := hs.forLoop
  have hknown := (hr.covers_rangeEnd (hiterable _ rfl) hfirst).ok hitems
  exact hknown.trans (hr.items_before_body hbody h hopen)

/-- An operand of an expression and any part of it. -/
theorem apart_operand (hr : r.Evolving test) {e e' : Expr} {t : Task} (he : e.Passes test)
    (hm : m.Passes test) (h : Comes (r.Passes frame) e.operands m e' m₁)
    (h' : r.Part (.eval e frame) m t m₂) : Task.Apart test r (.eval e' frame) m₁ t m₂ := by
  cases h' with
  | operand h' => exact hr.apart_passes (fun e he' => he.operand he') h h'
  | entry h' => cases h
  | bodyExpression h' => exact Or.inr (Or.inl (hr.operand_before_body he h h'))
  | bodyStatement h' _ hs =>
    have hc := (hr.covers_call he hm h').1
    have hreached := (covers_runAll (fun s hs => hr.exec (hc.statements s hs) _) hs).before
    exact Or.inr (Or.inl ((hr.operand_before_body he h h').trans hreached))

theorem apart_evalRule (hr : r.Evolving test) {e : Expr} {t₁ t₂ : Task} (he : e.Passes test)
    (hm : m.Passes test) (h₁ : r.Part (.eval e frame) m t₁ m₁)
    (h₂ : r.Part (.eval e frame) m t₂ m₂) :
    Task.Apart test r t₁ m₁ t₂ m₂ := by
  cases h₁ with
  | operand h₁ => exact hr.apart_operand he hm h₁ h₂
  | entry h₁ =>
    cases h₂ with
    | operand h₂ => cases h₂
    | entry h₂ => exact hr.apart_adds he.entries h₁ h₂
  | bodyExpression h₁ he₁ =>
    cases h₂ with
    | operand h₂ => exact (hr.apart_operand he hm h₂ (.bodyExpression h₁ he₁)).symm
    | bodyExpression h₂ he₂ =>
      obtain ⟨rfl, rfl, rfl⟩ := calls_unique h₁ h₂
      cases he₁.symm.trans he₂
      exact Or.inl ⟨rfl, rfl⟩
    | bodyStatement h₂ hnone =>
      obtain ⟨rfl, -, -⟩ := calls_unique h₁ h₂
      cases he₁.symm.trans hnone
  | bodyStatement h₁ hnone hs₁ =>
    cases h₂ with
    | operand h₂ => exact (hr.apart_operand he hm h₂ (.bodyStatement h₁ hnone hs₁)).symm
    | bodyExpression h₂ he₂ =>
      obtain ⟨rfl, -, -⟩ := calls_unique h₁ h₂
      cases he₂.symm.trans hnone
    | bodyStatement h₂ _ hs₂ =>
      have hc := (hr.covers_call he hm h₁).1
      obtain ⟨rfl, rfl, rfl⟩ := calls_unique h₁ h₂
      exact hr.apart_ends hc.statements hs₁ hs₂

/-- An operand of a statement and any part of it. -/
theorem apart_value (hr : r.Evolving test) {s : Stmt} {e : Expr} {t : Task} (hs : s.Passes test)
    (h : Comes (r.Passes frame) s.operands m e m₁) (h' : r.Part (.exec s frame) m t m₂) :
    Task.Apart test r (.eval e frame) m₁ t m₂ := by
  cases h' with
  | value h' => exact hr.apart_passes (fun e he => hs.operand he) h h'
  | thenBlock h' | elseBlock h' =>
    obtain ⟨rfl, rfl⟩ := comes_one.mp h
    exact Or.inr (Or.inl (condition_before_branch h'))
  | rangeEnd h' =>
    obtain ⟨rfl, rfl⟩ := comes_one.mp h
    refine Or.inr (Or.inl ?_)
    rw [Task.leaves, h']
    exact .refl _
  | itemBody hitems h' hopen =>
    obtain ⟨rfl, rfl⟩ := comes_one.mp h
    obtain ⟨-, hend, hbody⟩ := hs.forLoop
    have hknown := (hr.covers_itemsOf hend).ok hitems
    exact Or.inr (Or.inl (hknown.trans (hr.items_before_body hbody h' hopen)))
  | initial | statement | whileCondition | whileBody | endlessBody => cases h

theorem apart_execRule (hr : r.Evolving test) {s : Stmt} {t₁ t₂ : Task} (hs : s.Passes test)
    (h₁ : r.Part (.exec s frame) m t₁ m₁) (h₂ : r.Part (.exec s frame) m t₂ m₂) :
    Task.Apart test r t₁ m₁ t₂ m₂ := by
  cases h₁ with
  | value h₁ => exact hr.apart_value hs h₁ h₂
  | initial hdeclare₁ h₁ =>
    cases h₂ with
    | value h₂ => cases h₂
    | initial hdeclare₂ h₂ =>
      cases hdeclare₁.symm.trans hdeclare₂
      exact hr.apart_stores hs h₁ h₂
  | statement hopen₁ h₁ =>
    cases h₂ with
    | value h₂ => cases h₂
    | statement hopen₂ h₂ =>
      cases hopen₁.symm.trans hopen₂
      exact hr.apart_ends (Stmt.passes_block.mp hs) h₁ h₂
  | thenBlock h₁ =>
    cases h₂ with
    | value h₂ => exact (hr.apart_value hs h₂ (.thenBlock h₁)).symm
    | thenBlock h₂ =>
      cases h₁.symm.trans h₂
      exact Or.inl ⟨rfl, rfl⟩
    | elseBlock h₂ => cases h₁.symm.trans h₂
  | elseBlock h₁ =>
    cases h₂ with
    | value h₂ => exact (hr.apart_value hs h₂ (.elseBlock h₁)).symm
    | thenBlock h₂ => cases h₁.symm.trans h₂
    | elseBlock h₂ =>
      cases h₁.symm.trans h₂
      exact Or.inl ⟨rfl, rfl⟩
  | whileCondition h₁ =>
    obtain ⟨hcondition, hbody⟩ := hs.whileLoop
    cases h₂ with
    | value h₂ => cases h₂
    | whileCondition h₂ =>
      refine apart_turns (fun _ => hr.whileTurn hcondition hbody _) h₁ h₂
        (hr.covers_whileCondition hbody) (hr.covers_whileCondition hbody) ?_
      rintro - rfl
      exact Or.inl ⟨rfl, rfl⟩
    | whileBody h₂ hholds => exact hr.apart_while hcondition hbody h₁ h₂ hholds
  | whileBody h₁ hholds₁ =>
    obtain ⟨hcondition, hbody⟩ := hs.whileLoop
    cases h₂ with
    | value h₂ => cases h₂
    | whileCondition h₂ => exact (hr.apart_while hcondition hbody h₂ h₁ hholds₁).symm
    | whileBody h₂ hholds₂ =>
      refine apart_turns (fun _ => hr.whileTurn hcondition hbody _) h₁ h₂
        (hr.covers_whileBody hcondition hholds₁) (hr.covers_whileBody hcondition hholds₂) ?_
      rintro - rfl
      cases hholds₁.symm.trans hholds₂
      exact Or.inl ⟨rfl, rfl⟩
  | endlessBody h₁ =>
    obtain ⟨-, -, hbody⟩ := hs.forLoop
    cases h₂ with
    | value h₂ => cases h₂
    | endlessBody h₂ =>
      refine apart_turns (fun _ => hr.plainTurn hbody _) h₁ h₂ covers_plainTurn covers_plainTurn ?_
      rintro - rfl
      exact Or.inl ⟨rfl, rfl⟩
  | rangeEnd h₁ =>
    cases h₂ with
    | value h₂ => exact (hr.apart_value hs h₂ (.rangeEnd h₁)).symm
    | rangeEnd h₂ =>
      cases h₁.symm.trans h₂
      exact Or.inl ⟨rfl, rfl⟩
    | itemBody hitems h₂ hopen =>
      exact Or.inr (Or.inl (hr.rangeEnd_before_body hs h₁ hitems h₂ hopen))
  | itemBody hitems₁ h₁ hopen₁ =>
    cases h₂ with
    | value h₂ => exact (hr.apart_value hs h₂ (.itemBody hitems₁ h₁ hopen₁)).symm
    | rangeEnd h₂ => exact Or.inr (Or.inr (hr.rangeEnd_before_body hs h₂ hitems₁ h₁ hopen₁))
    | itemBody hitems₂ h₂ hopen₂ =>
      obtain ⟨-, -, hbody⟩ := hs.forLoop
      cases hitems₁.symm.trans hitems₂
      refine apart_turns (fun k => hr.itemTurn hbody _ _ _) h₁ h₂ (covers_itemTurn hopen₁)
        (covers_itemTurn hopen₂) ?_
      rintro rfl rfl
      cases hopen₁.symm.trans hopen₂
      exact Or.inl ⟨rfl, rfl⟩

/-- Of two parts of a task, the one is finished before the other starts, if they are not the
same. -/
theorem apart (hr : r.Evolving test) {t t₁ t₂ : Task} (ht : t.Passes test) (hm : m.Passes test)
    (h₁ : r.Part t m t₁ m₁) (h₂ : r.Part t m t₂ m₂) : Task.Apart test r t₁ m₁ t₂ m₂ := by
  cases t with
  | eval e frame => exact hr.apart_evalRule ht hm h₁ h₂
  | exec s frame => exact hr.apart_execRule ht h₁ h₂

end Runner.Evolving

end Dee
