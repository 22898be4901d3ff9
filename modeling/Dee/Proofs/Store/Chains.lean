import Dee.Proofs.Eval.Primitive
import Mathlib.Data.List.Nodup

/-!
# Chains of frames

From every frame a chain of parents leads up to a frame that has none. A name means the binding of
the nearest frame on the chain that binds it: reading gives the value there, writing changes the
value there and nothing else, and binding a name concerns one frame alone. These are the laws of a
store whose cells are shared by all chains that run through a frame.

Main statements: `Frames.Chain.search`, `Frames.Forest.exists_chain` and `Frames.get_rebindAt`.
-/

namespace Dee

/-! ## Chains -/

namespace Frames

variable {α : Type} {fs : Frames α} {f owner reach : Nat} {chain : List Nat} {name : String}

/-- The frames from `f` on, each followed by its parent, up to one that has none. -/
inductive Chain (fs : Frames α) : (f : Nat) → (chain : List Nat) → Prop
  | outermost {f : Nat} {fr : Frame α} (hf : fs.frames[f]? = some fr) (hparent : fr.parent = none) :
      Chain fs f [f]
  | child {f parent : Nat} {fr : Frame α} {chain : List Nat} (hf : fs.frames[f]? = some fr)
      (hparent : fr.parent = some parent) (more : Chain fs parent chain) : Chain fs f (f :: chain)

/-- Whether the frame with this number binds a name. -/
def bindsAt (fs : Frames α) (name : String) (f : Nat) : Bool :=
  (fs.frames[f]?).any (·.binds name)

/-- Of the frames on the chain from `f` the first one that binds the name is `owner`. -/
def Nearest (fs : Frames α) (name : String) (f owner : Nat) : Prop :=
  ∃ chain, fs.Chain f chain ∧ chain.find? (fs.bindsAt name) = some owner

/-- Some frame on the chain from `f` binds the name. -/
def Bound (fs : Frames α) (name : String) (f : Nat) : Prop :=
  ∃ chain, fs.Chain f chain ∧ ∃ g ∈ chain, fs.bindsAt name g = true

theorem bindsAt_iff : fs.bindsAt name f = true ↔ ∃ fr, fs.frames[f]? = some fr ∧
    name ∈ fr.names := by
  simp [bindsAt, Option.any_eq_true, Frame.binds_iff]

theorem Chain.unique {chain' : List Nat} (h : fs.Chain f chain) (h' : fs.Chain f chain') :
    chain' = chain := by
  induction h generalizing chain' with
  | outermost hf hparent =>
    cases h' with
    | outermost => rfl
    | child hf' hparent' =>
      cases hf.symm.trans hf'
      cases hparent.symm.trans hparent'
  | child hf hparent _ ih =>
    cases h' with
    | outermost hf' hparent' =>
      cases hf.symm.trans hf'
      cases hparent.symm.trans hparent'
    | child hf' hparent' more' =>
      cases hf.symm.trans hf'
      cases hparent.symm.trans hparent'
      rw [ih more']

theorem Chain.nearest_iff (h : fs.Chain f chain) :
    fs.Nearest name f owner ↔ chain.find? (fs.bindsAt name) = some owner := by
  constructor
  · rintro ⟨chain', h', hfind⟩
    rwa [h.unique h'] at hfind
  · exact fun hfind => ⟨chain, h, hfind⟩

theorem Chain.bound_iff (h : fs.Chain f chain) :
    fs.Bound name f ↔ (chain.find? (fs.bindsAt name)).isSome = true := by
  rw [List.find?_isSome]
  constructor
  · rintro ⟨chain', h', hg⟩
    rwa [h.unique h'] at hg
  · exact fun hg => ⟨chain, h, hg⟩

/-- A search that may go as far as the chain ends at the nearest frame that binds the name. -/
theorem Chain.search (h : fs.Chain f chain) (hreach : chain.length ≤ reach) :
    fs.search name reach f = ((chain.find? (fs.bindsAt name)).map Search.found).getD .absent := by
  induction h generalizing reach with
  | @outermost f fr hf hparent =>
    obtain ⟨reach, rfl⟩ := Nat.exists_eq_add_of_le' hreach
    have hbinds : fs.bindsAt name f = fr.binds name := by simp [bindsAt, hf]
    rw [List.length_singleton, Frames.search, hf]
    cases hb : fr.binds name <;> simp [hbinds, hb, hparent]
  | @child f parent fr chain hf hparent _ ih =>
    rw [List.length_cons] at hreach
    obtain ⟨reach, rfl⟩ := Nat.exists_eq_succ_of_ne_zero (Nat.ne_of_gt (Nat.zero_lt_of_lt hreach))
    have hbinds : fs.bindsAt name f = fr.binds name := by simp [bindsAt, hf]
    rw [Frames.search, hf]
    cases hb : fr.binds name with
    | true => simp [hbinds, hb]
    | false => simp [hbinds, hb, hparent, ih (Nat.le_of_succ_le_succ hreach)]

/-! ## Forests -/

/-- Frames that were made one after the other: a parent is older than its children, and no frame
binds a name twice. -/
structure Forest (fs : Frames α) : Prop where
  older : ∀ (f : Nat) (fr : Frame α) (parent : Nat), fs.frames[f]? = some fr →
    fr.parent = some parent → parent < f
  distinct : ∀ (f : Nat) (fr : Frame α), fs.frames[f]? = some fr → fr.names.Nodup

/-- A chain goes through older and older frames, so it comes to an end. -/
theorem Forest.exists_chain (h : fs.Forest) {f : Nat} (hf : f < fs.frames.size) :
    ∃ chain, fs.Chain f chain ∧ chain.length ≤ f + 1 := by
  induction f using Nat.strongRecOn with
  | ind f ih =>
    have hfr := Array.getElem?_eq_getElem hf
    cases hparent : fs.frames[f].parent with
    | none => exact ⟨[f], .outermost hfr hparent, by simp⟩
    | some parent =>
      have hlt := h.older f _ parent hfr hparent
      obtain ⟨chain, hchain, hlength⟩ := ih parent hlt (by omega)
      exact ⟨f :: chain, .child hfr hparent hchain, by rw [List.length_cons]; omega⟩

theorem forest_single : (single : Frames α).Forest := by
  have honly : ∀ {f : Nat} {fr : Frame α}, (single : Frames α).frames[f]? = some fr →
      fr = ⟨none, []⟩ := by
    intro f fr hf
    cases f with
    | zero =>
      cases hf
      rfl
    | succ f => simp [single] at hf
  refine ⟨?_, ?_⟩
  · intro f fr parent hf hparent
    cases honly hf
    cases hparent
  · intro f fr hf
    cases honly hf
    exact List.nodup_nil

/-- A new frame joins the forest if its parent is one of the frames, or if it has none. -/
theorem Forest.push (h : fs.Forest) {parent : Option Nat} (hparent : ∀ p, parent = some p →
      p < fs.frames.size) :
    Forest (⟨fs.frames.push ⟨parent, []⟩⟩ : Frames α) := by
  have hcases : ∀ {f : Nat} {fr : Frame α}, (fs.frames.push ⟨parent, []⟩)[f]? = some fr →
      (f = fs.frames.size ∧ fr = ⟨parent, []⟩) ∨ fs.frames[f]? = some fr := by
    intro f fr hf
    rw [Array.getElem?_push] at hf
    split at hf
    next hsize =>
      cases hf
      exact Or.inl ⟨hsize, rfl⟩
    next => exact Or.inr hf
  refine ⟨?_, ?_⟩
  · intro f fr p hf hp
    rcases hcases hf with ⟨rfl, rfl⟩ | hf
    · exact hparent p hp
    · exact h.older f fr p hf hp
  · intro f fr hf
    rcases hcases hf with ⟨rfl, rfl⟩ | hf
    · exact List.nodup_nil
    · exact h.distinct f fr hf

/-- A frame may be changed as long as it keeps its parent and binds no name twice. -/
theorem Forest.modify (h : fs.Forest) {g : Nat} {change : Frame α → Frame α}
    (hparent : ∀ fr : Frame α, (change fr).parent = fr.parent)
    (hnames : ∀ fr : Frame α, fs.frames[g]? = some fr → (change fr).names.Nodup) :
    Forest (⟨fs.frames.modify g change⟩ : Frames α) := by
  refine ⟨?_, ?_⟩
  · intro f fr p hf hp
    simp only [Array.getElem?_modify] at hf
    split at hf
    · obtain ⟨fr', hf', rfl⟩ := Option.map_eq_some_iff.mp hf
      exact h.older f fr' p hf' ((hparent fr').symm.trans hp)
    · exact h.older f fr p hf hp
  · intro f fr hf
    simp only [Array.getElem?_modify] at hf
    split at hf
    next hsame =>
      obtain ⟨fr', hf', rfl⟩ := Option.map_eq_some_iff.mp hf
      exact hnames fr' (hsame ▸ hf')
    next => exact h.distinct f fr hf

end Frames

/-! ## Bindings of one frame -/

namespace Frame

variable {α : Type} {fr : Frame α} {name : String} {v : α}

/-- The one binding of a name stands between others. -/
theorem exists_split (h : name ∈ fr.names) :
    ∃ before w after, fr.bindings = before ++ (name, w) :: after := by
  obtain ⟨⟨_, w⟩, hb, rfl⟩ := List.mem_map.mp h
  obtain ⟨before, after, hsplit⟩ := List.append_of_mem hb
  exact ⟨before, w, after, hsplit⟩

/-- If no name is bound twice, then only the one binding of the name is changed. -/
theorem rebind_split {before after : List (String × α)} {w : α} (hdistinct : fr.names.Nodup)
    (h : fr.bindings = before ++ (name, w) :: after) :
    fr.rebind name v = { fr with bindings := before ++ (name, v) :: after } := by
  unfold names at hdistinct
  rw [h, List.map_append, List.map_cons, List.nodup_middle, List.nodup_cons,
    List.mem_append, not_or]
    at hdistinct
  obtain ⟨⟨hbefore, hafter⟩, -⟩ := hdistinct
  have hother : ∀ {bs : List (String × α)}, name ∉ bs.map Prod.fst →
      bs.map (fun b => if b.1 = name then (name, v) else b) = bs := by
    intro bs hbs
    refine (List.map_congr_left fun b hb => ?_).trans (List.map_id bs)
    have hne : b.1 ≠ name := fun heq => hbs (List.mem_map.mpr ⟨b, hb, heq⟩)
    exact if_neg hne
  unfold rebind
  rw [h, List.map_append, List.map_cons, hother hbefore, hother hafter, if_pos rfl]

end Frame

/-! ## Binding and changing -/

namespace Frames

variable {α : Type} {fs : Frames α} {f owner reach : Nat} {chain : List Nat} {name : String}

theorem Forest.bindAt (h : fs.Forest) {fr : Frame α} (hf : fs.frames[f]? = some fr)
    (hnew : name ∉ fr.names) (v : α) : (fs.bindAt f name v).Forest := by
  refine h.modify (fun fr => Frame.parent_bind fr name v) ?_
  intro fr' hf'
  cases hf.symm.trans hf'
  rw [Frame.names_bind]
  exact List.nodup_append_comm.mp (List.nodup_cons.mpr ⟨hnew, h.distinct f fr hf⟩)

theorem Forest.rebindAt (h : fs.Forest) (owner : Nat) (name : String) (v : α) :
    (fs.rebindAt owner name v).Forest := by
  refine h.modify (fun fr => Frame.parent_rebind fr name v) ?_
  intro fr hf
  rw [Frame.names_rebind]
  exact h.distinct owner fr hf

/-- A changed value leaves every search as it was: no frame's names change and no parent. -/
theorem search_rebindAt (owner : Nat) (name : String) (v : α) (other : String) :
    (fs.rebindAt owner name v).search other reach f = fs.search other reach f := by
  induction reach generalizing f with
  | zero => rfl
  | succ reach ih =>
    have hbinds : ∀ fr : Frame α, (fr.rebind name v).binds other = fr.binds other := by
      intro fr
      rw [Bool.eq_iff_iff, Frame.binds_iff, Frame.binds_iff, Frame.names_rebind]
    rw [search, search, getElem?_rebindAt]
    cases hf : fs.frames[f]? with
    | none => simp
    | some fr =>
      by_cases hf : owner = f
      · simp only [if_pos hf, Option.map_some, hbinds, Frame.parent_rebind, ih]
      · simp only [if_neg hf, ih]

/-- Behind a changed value a name reads as the new one where a search for it ends at the changed
binding, and as before everywhere else. -/
theorem get_rebindAt {fr : Frame α} (howner : fs.frames[owner]? = some fr)
    (hbinds : fr.binds name = true)
    (v : α) (g : Nat) (other : String) :
    (fs.rebindAt owner name v).get reach g other =
      if other = name ∧
        fs.search other reach g = .found owner then .ok v else fs.get reach g other := by
  unfold get
  rw [search_rebindAt]
  cases hs : fs.search other reach g with
  | absent => simp
  | tooFar => simp
  | found owner' =>
    simp only [getElem?_rebindAt, Search.found.injEq]
    by_cases howner' : owner = owner'
    · subst howner'
      obtain ⟨w, hw⟩ := Frame.exists_value?_of_binds hbinds
      by_cases hname : name = other
      · simp [howner, Frame.value?_rebind, hname, hname ▸ hw]
      · simp [howner, Frame.value?_rebind, hname, Ne.symm hname]
    · simp [howner', Ne.symm howner']

/-- With a reach as long as the chain, a search ends where the nearest binding is. -/
theorem Chain.search_eq_found_iff (h : fs.Chain f chain) (hreach : chain.length ≤ reach) :
    fs.search name reach f = .found owner ↔ fs.Nearest name f owner := by
  rw [h.search hreach, h.nearest_iff]
  cases chain.find? (fs.bindsAt name) with
  | none => simp
  | some owner' => simp

/-- With a reach as long as the chain, a search ends nowhere if no frame of the chain binds the
name. -/
theorem Chain.search_eq_absent (h : fs.Chain f chain) (hreach : chain.length ≤ reach)
    (hbound : ¬ fs.Bound name f) : fs.search name reach f = .absent := by
  rw [h.bound_iff, Bool.not_eq_true, Option.isSome_eq_false_iff,
    Option.isNone_iff_eq_none] at hbound
  rw [h.search hreach, hbound]
  rfl

/-- A name that is bound on the chain has a nearest binding. -/
theorem Bound.exists_nearest (h : fs.Bound name f) :
    ∃ owner fr, fs.Nearest name f owner ∧ fs.frames[owner]? = some fr ∧ name ∈ fr.names := by
  obtain ⟨chain, hchain, g, hg, hbinds⟩ := h
  obtain ⟨owner, hfind⟩ := Option.isSome_iff_exists.mp (List.find?_isSome.mpr ⟨g, hg, hbinds⟩)
  obtain ⟨fr, hfr, hname⟩ := bindsAt_iff.mp (List.find?_some hfind)
  exact ⟨owner, fr, ⟨chain, hchain, hfind⟩, hfr, hname⟩

theorem Nearest.bound (h : fs.Nearest name f owner) : fs.Bound name f := by
  obtain ⟨chain, hchain, hfind⟩ := h
  exact ⟨chain, hchain, owner, List.mem_of_find?_eq_some hfind, List.find?_some hfind⟩

end Frames

end Dee
