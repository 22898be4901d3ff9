import Dee.Proofs.Store.Chains

/-!
# Names over a history

A history of names is a list of acts: frames are made, names are bound, written and read, each by
the step that evaluation takes for it. An act that fails is passed over. `NameAct.Effect` lists all
that an act does to a machine, and each of its cases keeps the frames a forest.

Behind every history the frames obey the laws of `Machine.NamingLaws`: which reads and writes
succeed, what a write changes and for which readers, and what binding a name changes.

Main statement: `frames_obey_store_laws`.
-/

namespace Dee

open Eval

/-! ## Acts -/

/-- Adds a frame without a parent. -/
def Store.newOutermost (st : Store) : Nat × Store :=
  (st.frames.frames.size, st.modifyFrames fun fs => ⟨fs.frames.push ⟨none, []⟩⟩)

/-- What can be done with frames and names. -/
inductive NameAct where
  | outermost
  | child (parent : Nat)
  | define (frame : Nat) (name : String) (v : Value)
  | set (frame : Nat) (name : String) (v : Value)
  | get (frame : Nat) (name : String)

namespace NameAct

/-- Performs an act, with searches over at most `reach` frames. A frame is made under a frame that
is there. -/
def step (reach : Nat) : NameAct → Eval Unit
  | .outermost => do
    let _ ← make Store.newOutermost
  | .child parent => do
    if parent < (← store).frames.frames.size then
      let _ ← make (·.newFrame parent)
  | .define frame name v => Eval.define frame name v
  | .set frame name v => Eval.assign reach frame name v
  | .get frame name => do
    let _ ← lookup reach frame name

/-- What an act can make of a machine. -/
inductive Effect (m : Machine) : Machine → Prop
  | nothing : Effect m m
  | outermost :
      Effect m { m with store := m.store.modifyFrames fun fs => ⟨fs.frames.push ⟨none, []⟩⟩ }
  | child {parent : Nat} (hparent : parent < m.store.frames.frames.size) :
      Effect m { m with store := m.store.modifyFrames (·.push parent) }
  | bound {frame : Nat} {name : String} (v : Value) {fr : Frame Value}
      (hfr : m.store.frames.frames[frame]? = some fr) (hnew : name ∉ fr.names) :
      Effect m { m with store := m.store.modifyFrames (·.bindAt frame name v) }
  | changed (owner : Nat) (name : String) (v : Value) :
      Effect m { m with store := m.store.modifyFrames (·.rebindAt owner name v) }

/-- An act has one of the effects, or it fails and changes nothing. -/
theorem leads_step (reach : Nat) (act : NameAct) (m : Machine) :
    Leads (act.step reach) m (fun _ m' => Effect m m') (fun _ m' => m' = m) := by
  cases act with
  | outermost => exact leads_bind.mpr (leads_make.mpr Effect.outermost)
  | child parent =>
    refine leads_bind.mpr (leads_store.mpr ?_)
    split
    next hparent => exact leads_bind.mpr (leads_make.mpr (Effect.child hparent))
    next => exact Effect.nothing
  | define frame name v =>
    refine (leads_define frame name v).mono ?_ fun f m' h => h.1
    rintro _ _ ⟨⟨fr, hfr, hnew⟩, rfl⟩
    exact Effect.bound v hfr (Frame.binds_eq_false_iff.mp hnew)
  | set frame name v =>
    refine (leads_assign reach frame name v).mono ?_ fun f m' h => h.1
    rintro _ _ ⟨owner, -, rfl⟩
    exact Effect.changed owner name v
  | get frame name =>
    refine leads_bind.mpr ((leads_lookup reach frame name).mono ?_ fun f m' h => h.1)
    rintro _ _ ⟨rfl, -⟩
    exact Effect.nothing

theorem Effect.forest {m m' : Machine} (h : Effect m m') (hm : m.store.frames.Forest) :
    m'.store.frames.Forest := by
  cases h with
  | nothing => exact hm
  | outermost =>
    refine hm.push ?_
    rintro p ⟨⟩
  | child hparent =>
    refine hm.push ?_
    rintro p ⟨⟩
    exact hparent
  | bound v hfr hnew => exact hm.bindAt hfr hnew v
  | changed owner name v => exact hm.rebindAt owner name v

end NameAct

/-- The machine behind a history of acts. -/
def Machine.afterActs (m : Machine) (reach : Nat) (acts : List NameAct) : Machine :=
  acts.foldl (fun m act => (act.step reach m).2) m

/-- No act takes the frames out of the forest, whether it succeeds or fails. -/
theorem NameAct.forest_step {reach : Nat} {act : NameAct} {m : Machine}
    (hm : m.store.frames.Forest) :
    (act.step reach m).2.store.frames.Forest := by
  have hleads := leads_step reach act m
  rcases hstep : act.step reach m with ⟨_ | _, m'⟩
  · rw [leads_error_iff hstep] at hleads
    exact hleads ▸ hm
  · rw [leads_ok_iff hstep] at hleads
    exact hleads.forest hm

theorem Machine.forest_afterActs {m : Machine} (hm : m.store.frames.Forest) (reach : Nat)
    (acts : List NameAct) : (m.afterActs reach acts).store.frames.Forest := by
  induction acts generalizing m with
  | nil => exact hm
  | cons act acts ih => exact ih (NameAct.forest_step hm)

/-! ## The laws -/

namespace Machine

/-- The machine with other bindings in one frame. -/
def withBindings (m : Machine) (f : Nat) (bindings : List (String × Value)) : Machine :=
  { m with store :=
    m.store.modifyFrames fun fs => ⟨fs.frames.modify f fun fr => { fr with bindings }⟩ }

/-- What writing `v` to a name from the frame `f` makes of a machine. -/
structure Writes (m : Machine) (reach f : Nat) (name : String) (v : Value) (m' : Machine) :
    Prop where
  /-- One value is changed, that of the nearest binding, and nothing else. -/
  change : ∃ owner fr before w after, m.store.frames.Nearest name f owner ∧
    m.store.frames.frames[owner]? = some fr ∧ fr.bindings = before ++ (name, w) :: after ∧
    m' = m.withBindings owner (before ++ (name, v) :: after)
  /-- Every frame binds the names that it bound. -/
  names : ∀ g : Nat,
    (m'.store.frames.frames[g]?).map Frame.names = (m.store.frames.frames[g]?).map Frame.names
  /-- What was written is read from all frames whose nearest binding of the name is the one that was
  changed. -/
  get : ∀ owner, m.store.frames.Nearest name f owner →
    ∀ g < m.store.frames.frames.size, m.store.frames.Nearest name g owner →
      lookup reach g name m' = (.ok v, m')
  /-- From all other frames the name reads as before, and so does every other name from any
  frame. -/
  get_other : ∀ owner, m.store.frames.Nearest name f owner →
    ∀ g < m.store.frames.frames.size, ∀ other,
      ¬ (other = name ∧ m.store.frames.Nearest name g owner) →
      (lookup reach g other m').1 = (lookup reach g other m).1

/-- How names behave in a machine when searches go over at most `reach` frames. -/
structure NamingLaws (m : Machine) (reach : Nat) : Prop where
  /-- From every frame the parents come to an end. -/
  finite : ∀ f < m.store.frames.frames.size, ∃ chain, m.store.frames.Chain f chain
  /-- A name can be read exactly if it is bound on the chain. -/
  get_iff : ∀ f < m.store.frames.frames.size, ∀ name,
    (∃ v, lookup reach f name m = (.ok v, m)) ↔ m.store.frames.Bound name f
  /-- A name can be written exactly if it is bound on the chain. -/
  set_iff : ∀ f < m.store.frames.frames.size, ∀ name v,
    (∃ m', assign reach f name v m = (.ok (), m')) ↔ m.store.frames.Bound name f
  /-- Reading gives the value of the nearest binding. -/
  get : ∀ f < m.store.frames.frames.size, ∀ name owner, m.store.frames.Nearest name f owner →
    ∃ fr v, m.store.frames.frames[owner]? = some fr ∧ (name, v) ∈ fr.bindings ∧
      lookup reach f name m = (.ok v, m)
  /-- Writing changes the nearest binding alone. -/
  set : ∀ f < m.store.frames.frames.size, ∀ name v m', assign reach f name v m = (.ok (), m') →
    m.Writes reach f name v m'
  /-- What is bound nowhere on the chain is reported, and nothing is changed. -/
  unbound : ∀ f < m.store.frames.frames.size, ∀ name, ¬ m.store.frames.Bound name f →
    lookup reach f name m = (.error (.ofError (.undefined name)), m) ∧
      ∀ v, assign reach f name v m = (.error (.ofError (.undeclared name)), m)
  /-- Binding a name is refused if the frame itself binds it, whatever the frames above bind, and
  changes nothing then. -/
  define_taken : ∀ f fr name v, m.store.frames.frames[f]? = some fr → name ∈ fr.names →
    define f name v m = (.error (.ofError (.alreadyDeclared name)), m)
  /-- Otherwise it adds one binding to its own frame, and nothing else is changed. -/
  define_new : ∀ f fr name v, m.store.frames.frames[f]? = some fr → name ∉ fr.names →
    define f name v m = (.ok (), m.withBindings f (fr.bindings ++ [(name, v)]))

/-! ## The laws in a forest -/

variable {m : Machine} {reach f owner : Nat} {name : String} {chain : List Nat}

theorem lookup_apply (reach f : Nat) (name : String) (m : Machine) :
    lookup reach f name m = (m.store.frames.get reach f name, m) := by
  show ofOutcome (m.store.frames.get reach f name) m = _
  cases m.store.frames.get reach f name with
  | ok v => rfl
  | error e => rfl

theorem assign_apply_found (h : m.store.frames.search name reach f = .found owner) (v : Value) :
    assign reach f name v m =
      (.ok (), { m with store := m.store.modifyFrames (·.rebindAt owner name v) }) := by
  have howner : m.store.frames.owner reach f name = .ok owner := by simp [Frames.owner, h]
  show (ofOutcome (m.store.frames.owner reach f name) >>= _) m = _
  rw [howner]
  rfl

/-- A write that succeeded found a binding and changed it. -/
theorem found_of_assign {v : Value} {m' : Machine} (h : assign reach f name v m = (.ok (), m')) :
    ∃ owner, m.store.frames.search name reach f = .found owner ∧
      m' = { m with store := m.store.modifyFrames (·.rebindAt owner name v) } :=
  (leads_ok_iff h).mp (leads_assign reach f name v)

theorem modifyFrames_eq_withBindings (change : Frame Value → Frame Value)
    {bindings : List (String × Value)} {fr : Frame Value}
    (hfr : m.store.frames.frames[f]? = some fr) (hchange : change fr = { fr with bindings }) :
    { m with store := m.store.modifyFrames fun fs => ⟨fs.frames.modify f change⟩ } =
      m.withBindings f bindings := by
  have hsame : m.store.frames.frames.modify f change =
      m.store.frames.frames.modify f fun fr => { fr with bindings } := by
    refine Array.ext_getElem? fun i => ?_
    rw [Array.getElem?_modify, Array.getElem?_modify]
    split
    next hi =>
      subst hi
      rw [hfr, Option.map_some, Option.map_some, hchange]
    next => rfl
  unfold withBindings Store.modifyFrames
  simp only [hsame]

/-- Behind a write every frame binds the names it bound. -/
theorem names_rebindAt (m : Machine) (owner : Nat) (name : String) (v : Value) (g : Nat) :
    ((m.store.frames.rebindAt owner name v).frames[g]?).map Frame.names =
      (m.store.frames.frames[g]?).map Frame.names := by
  rw [Frames.getElem?_rebindAt]
  split
  · cases m.store.frames.frames[g]? with
    | none => rfl
    | some fr => exact congrArg some (Frame.names_rebind fr name v)
  · rfl

theorem define_taken {fr : Frame Value} (hfr : m.store.frames.frames[f]? = some fr)
    (hname : name ∈ fr.names) (v : Value) :
    define f name v m = (.error (.ofError (.alreadyDeclared name)), m) := by
  have haccepts : m.store.frames.accepts f name = .error (.alreadyDeclared name) := by
    simp [Frames.accepts, hfr, Frame.binds_iff.mpr hname]
  show (ofExcept (m.store.frames.accepts f name) >>= _) m = _
  rw [haccepts]
  rfl

theorem define_new {fr : Frame Value} (hfr : m.store.frames.frames[f]? = some fr)
    (hname : name ∉ fr.names) (v : Value) :
    define f name v m = (.ok (), m.withBindings f (fr.bindings ++ [(name, v)])) := by
  have haccepts : m.store.frames.accepts f name = .ok () := by
    simp [Frames.accepts, hfr, Frame.binds_eq_false_iff.mpr hname]
  show (ofExcept (m.store.frames.accepts f name) >>= _) m = _
  rw [haccepts, ← modifyFrames_eq_withBindings (·.bind name v) hfr rfl]
  rfl

/-- In a forest every chain ends within as many frames as there are. -/
theorem exists_chain_within (hm : m.store.frames.Forest)
    (hreach : m.store.frames.frames.size ≤ reach)
    (hf : f < m.store.frames.frames.size) :
    ∃ chain, m.store.frames.Chain f chain ∧ chain.length ≤ reach := by
  obtain ⟨chain, hchain, hlength⟩ := hm.exists_chain hf
  exact ⟨chain, hchain, by omega⟩

section Forest

variable (hm : m.store.frames.Forest) (hreach : m.store.frames.frames.size ≤ reach)
include hm hreach

theorem search_eq_found_iff (hf : f < m.store.frames.frames.size) :
    m.store.frames.search name reach f = .found owner ↔ m.store.frames.Nearest name f owner := by
  obtain ⟨chain, hchain, hlength⟩ := exists_chain_within hm hreach hf
  exact hchain.search_eq_found_iff hlength

theorem lookup_nearest (hf : f < m.store.frames.frames.size)
    (hnearest : m.store.frames.Nearest name f owner) :
    ∃ fr v, m.store.frames.frames[owner]? = some fr ∧ (name, v) ∈ fr.bindings ∧
      lookup reach f name m = (.ok v, m) := by
  have hsearch := (search_eq_found_iff hm hreach hf).mpr hnearest
  obtain ⟨fr, hfr, hbinds⟩ := Frames.binds_of_search hsearch
  obtain ⟨v, hv⟩ := Frame.exists_value?_of_binds hbinds
  refine ⟨fr, v, hfr, Frame.mem_bindings_of_value? hv, ?_⟩
  rw [lookup_apply]
  simp [Frames.get, hsearch, hfr, hv]

theorem unbound (hf : f < m.store.frames.frames.size) (hbound : ¬ m.store.frames.Bound name f) :
    lookup reach f name m = (.error (.ofError (.undefined name)), m) ∧
      ∀ v, assign reach f name v m = (.error (.ofError (.undeclared name)), m) := by
  obtain ⟨chain, hchain, hlength⟩ := exists_chain_within hm hreach hf
  have hsearch := hchain.search_eq_absent hlength hbound
  refine ⟨?_, fun v => ?_⟩
  · rw [lookup_apply]
    simp [Frames.get, hsearch]
  · have howner : m.store.frames.owner reach f name = .error (.ofError (.undeclared name)) := by
      simp [Frames.owner, hsearch]
    show (ofOutcome (m.store.frames.owner reach f name) >>= _) m = _
    rw [howner]
    rfl

theorem writes_of_assign (hf : f < m.store.frames.frames.size) {v : Value} {m' : Machine}
    (h : assign reach f name v m = (.ok (), m')) : m.Writes reach f name v m' := by
  obtain ⟨owner, hsearch, rfl⟩ := found_of_assign h
  obtain ⟨fr, hfr, hbinds⟩ := Frames.binds_of_search hsearch
  have hnearest := (search_eq_found_iff hm hreach hf).mp hsearch
  have howner : ∀ owner', m.store.frames.Nearest name f owner' → owner' = owner := by
    intro owner' hnearest'
    have hsearch' := (search_eq_found_iff hm hreach hf).mpr hnearest'
    exact (Search.found.inj (hsearch.symm.trans hsearch')).symm
  refine ⟨?_, names_rebindAt m owner name v, ?_, ?_⟩
  · obtain ⟨before, w, after, hsplit⟩ := Frame.exists_split (Frame.binds_iff.mp hbinds)
    have hrebind := Frame.rebind_split (v := v) (hm.distinct owner fr hfr) hsplit
    exact ⟨owner, fr, before, w, after, hnearest, hfr, hsplit,
      modifyFrames_eq_withBindings _ hfr hrebind⟩
  · intro owner' hnearest' g hg hnearestg
    obtain rfl := howner owner' hnearest'
    have hsearchg := (search_eq_found_iff hm hreach hg).mpr hnearestg
    rw [lookup_apply]
    show ((m.store.frames.rebindAt _ name v).get reach g name, _) = _
    rw [Frames.get_rebindAt hfr hbinds, if_pos ⟨rfl, hsearchg⟩]
  · intro owner' hnearest' g hg other hother
    obtain rfl := howner owner' hnearest'
    rw [lookup_apply, lookup_apply]
    show (m.store.frames.rebindAt _ name v).get reach g other = m.store.frames.get reach g other
    rw [Frames.get_rebindAt hfr hbinds, if_neg]
    rintro ⟨rfl, hsearchg⟩
    exact hother ⟨rfl, (search_eq_found_iff hm hreach hg).mp hsearchg⟩

/-- Frames that form a forest obey the laws if searches may go over as many frames as there are. -/
theorem namingLaws_of_forest : m.NamingLaws reach where
  finite f hf := by
    obtain ⟨chain, hchain, -⟩ := hm.exists_chain hf
    exact ⟨chain, hchain⟩
  get_iff f hf name := by
    constructor
    · rintro ⟨v, hv⟩
      refine Classical.byContradiction fun hbound => ?_
      rw [(unbound hm hreach hf hbound).1] at hv
      cases hv
    · intro hbound
      obtain ⟨owner, -, hnearest, -, -⟩ := hbound.exists_nearest
      obtain ⟨-, v, -, -, hlookup⟩ := lookup_nearest hm hreach hf hnearest
      exact ⟨v, hlookup⟩
  set_iff f hf name v := by
    constructor
    · rintro ⟨m', hm'⟩
      obtain ⟨owner, hsearch, -⟩ := found_of_assign hm'
      exact ((search_eq_found_iff hm hreach hf).mp hsearch).bound
    · intro hbound
      obtain ⟨owner, -, hnearest, -, -⟩ := hbound.exists_nearest
      exact ⟨_, assign_apply_found ((search_eq_found_iff hm hreach hf).mpr hnearest) v⟩
  get f hf name owner hnearest := lookup_nearest hm hreach hf hnearest
  set f hf name v m' h := writes_of_assign hm hreach hf h
  unbound f hf name hbound := unbound hm hreach hf hbound
  define_taken f fr name v hfr hname := define_taken hfr hname v
  define_new f fr name v hfr hname := define_new hfr hname v

end Forest

end Machine

/-- Behind every history of acts the frames obey the laws of naming, once searches may go over as
many frames as there are, and an act that fails changes nothing. -/
theorem frames_obey_store_laws {reach reach' : Nat} {acts : List NameAct}
    (hreach : (Machine.initial.afterActs reach acts).store.frames.frames.size ≤ reach') :
    (Machine.initial.afterActs reach acts).NamingLaws reach' ∧
    ∀ limit act f m', NameAct.step limit act (Machine.initial.afterActs reach acts) =
      (.error f, m') →
      m' = Machine.initial.afterActs reach acts := by
  refine ⟨?_, fun limit act f m' hstep => ?_⟩
  · exact Machine.namingLaws_of_forest
      (Machine.forest_afterActs Frames.forest_single reach acts) hreach
  · exact (leads_error_iff hstep).mp (NameAct.leads_step limit act _)

/-- `x` is bound in the outermost frame and once more in a frame below it. A write from under the
lower frame is read there, and not from a frame beside it. -/
theorem shadowed_names_obey_store_laws :
    let m := Machine.initial.afterActs 4
      [.define 0 "x" (.int 1), .child 0, .child 1, .define 1 "x" (.int 2), .child 0]
    let m' := (assign 4 2 "x" (.int 5) m).2
    m.store.frames.frames.size = 4 ∧ m.NamingLaws 4 ∧ m.Writes 4 2 "x" (.int 5) m' ∧
      (lookup 4 1 "x" m').1 = .ok (.int 5) ∧ (lookup 4 3 "x" m').1 = .ok (.int 1) ∧
      (NameAct.set 3 "y" (.int 0)).step 4 m = (.error (.ofError (.undeclared "y")), m) := by
  have hlaws := @frames_obey_store_laws 4 4
    [.define 0 "x" (.int 1), .child 0, .child 1, .define 1 "x" (.int 2), .child 0] (by decide)
  exact ⟨rfl, hlaws.1, hlaws.1.set 2 (by decide) "x" (.int 5) _ rfl, rfl, rfl, rfl⟩

end Dee
