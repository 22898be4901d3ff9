import Dee.Eval.Monad
import Dee.Proofs.Store.Frames
import Dee.Scope

/-!
# Static scopes and run-time frames

A point of a program sees a list of scopes; the code there runs in a frame with a chain of parents.
`Frames.Provides` says that the chain binds what the scopes declare, frame by frame, and that none
of the frames is older than the run. Then a name that the scopes declare is found on the chain.

Frames only gain names. `Frames.Gains` says which: the frame that a statement runs in gains the
names that the statement declares, and every other frame keeps the names it has.
-/

namespace Dee

namespace Frames

variable {α : Type} {fs fs' fs'' : Frames α} {first f : Nat} {scopes : List (List String)}

/-! ## Chains that provide scopes -/

/-- The chain of frames from `f` on binds the names of the scopes, innermost first, in frames
numbered from `first` on. -/
def Provides (fs : Frames α) (first : Nat) : Nat → List (List String) → Prop
  | _, [] => True
  | f, scope :: rest =>
    first ≤ f ∧ ∃ fr parent, fs.frames[f]? = some fr ∧ (∀ name ∈ scope, name ∈ fr.names) ∧
      fr.parent = some parent ∧ fs.Provides first parent rest

/-- A search along a chain finds every name that the scopes declare, unless it goes too far. -/
theorem Provides.search {name : String} (h : fs.Provides first f scopes)
    (hname : scopes.any (·.contains name) = true) (reach : Nat) :
    (∃ owner, fs.search name reach f = .found owner ∧ first ≤ owner) ∨
      fs.search name reach f = .tooFar := by
  induction scopes generalizing f reach with
  | nil => simp at hname
  | cons scope rest ih =>
    obtain ⟨hle, fr, parent, hfr, hscope, hparent, hrest⟩ := h
    cases reach with
    | zero => exact Or.inr rfl
    | succ reach =>
      unfold Frames.search
      rw [hfr]
      by_cases hb : fr.binds name = true
      · simp only [hb, if_true]
        exact Or.inl ⟨f, rfl, hle⟩
      · simp only [hb, hparent]
        rw [List.any_cons, Bool.or_eq_true] at hname
        rcases hname with hhere | hbeyond
        · rw [List.contains_iff_mem] at hhere
          exact absurd (Frame.binds_iff.mpr (hscope name hhere)) hb
        · exact ih hrest hbeyond reach

/-! ## Frames that gain names -/

/-- Every frame is still there under its parent; the frame `f` has gained the names, the others
have the same names as before. -/
def Gains (f : Nat) (names : List String) (fs fs' : Frames α) : Prop :=
  ∀ g fr, fs.frames[g]? = some fr → ∃ fr', fs'.frames[g]? = some fr' ∧ fr'.parent = fr.parent ∧
    ∀ name, name ∈ fr'.names ↔ name ∈ fr.names ∨ (g = f ∧ name ∈ names)

/-- Every frame is still there, with the names it had. -/
abbrev Keeps (fs fs' : Frames α) : Prop := Gains 0 [] fs fs'

theorem gains_nil_iff {g : Nat} : Gains f [] fs fs' ↔ Gains g [] fs fs' := by
  simp [Gains]

theorem Keeps.refl (fs : Frames α) : Keeps fs fs := by
  intro g fr hg
  exact ⟨fr, hg, rfl, by simp⟩

theorem Gains.trans {names names' : List String} (h : Gains f names fs fs')
    (h' : Gains f names' fs' fs'') : Gains f (names ++ names') fs fs'' := by
  intro g fr hg
  obtain ⟨fr', hg', hp', hn'⟩ := h g fr hg
  obtain ⟨fr'', hg'', hp'', hn''⟩ := h' g fr' hg'
  refine ⟨fr'', hg'', hp''.trans hp', fun name => ?_⟩
  rw [hn'', hn', List.mem_append]
  grind

/-- What happens to frames that did not exist yet does not matter. -/
theorem Gains.keeps_of_size {names : List String} (h : Gains f names fs fs')
    (hf : fs.frames.size ≤ f) : Keeps fs fs' := by
  intro g fr hg
  obtain ⟨fr', hg', hp', hn'⟩ := h g fr hg
  refine ⟨fr', hg', hp', fun name => ?_⟩
  have hlt : g < fs.frames.size := (Array.getElem?_eq_some_iff.mp hg).1
  have hne : g ≠ f := by omega
  rw [hn']
  simp [hne]

theorem Provides.mono {names : List String} {g : Nat} (h : fs.Provides first f scopes)
    (hg : Gains g names fs fs') : fs'.Provides first f scopes := by
  induction scopes generalizing f with
  | nil => trivial
  | cons scope rest ih =>
    obtain ⟨hle, fr, parent, hfr, hscope, hparent, hrest⟩ := h
    obtain ⟨fr', hfr', hp', hn'⟩ := hg f fr hfr
    refine ⟨hle, fr', parent, hfr', fun name hname => ?_, hp'.trans hparent, ih hrest⟩
    exact (hn' name).mpr (Or.inl (hscope name hname))

/-! ## The steps that change frames -/

theorem keeps_push (parent : Nat) : Keeps fs (fs.push parent) := by
  intro g fr hg
  have hlt : g < fs.frames.size := (Array.getElem?_eq_some_iff.mp hg).1
  exact ⟨fr, by rw [getElem?_push_lt parent hlt, hg], rfl, by simp⟩

theorem keeps_rebindAt (owner : Nat) (name : String) (v : α) :
    Keeps fs (fs.rebindAt owner name v) := by
  intro g fr hg
  rw [getElem?_rebindAt, hg]
  split
  · exact ⟨fr.rebind name v, rfl, rfl, by simp⟩
  · exact ⟨fr, rfl, rfl, by simp⟩

theorem gains_bindAt (frame : Nat) (name : String) (v : α) :
    Gains frame [name] fs (fs.bindAt frame name v) := by
  intro g fr hg
  rw [getElem?_bindAt, hg]
  split
  next h =>
    subst h
    exact ⟨fr.bind name v, rfl, rfl, by simp⟩
  next h => exact ⟨fr, rfl, rfl, by simp [Ne.symm h]⟩

end Frames

/-! ## Declaring in the innermost scope -/

namespace Scope

variable {s : Scope} {name : String} {scope : List String} {rest : List (List String)}

theorem frames_declareAll (h : s.frames = scope :: rest) (names : List String) :
    (s.declareAll names).frames = (names.reverse ++ scope) :: rest := by
  unfold declareAll
  induction names generalizing s scope with
  | nil => exact h
  | cons name names ih =>
    have hs : (s.declare name).frames = (name :: scope) :: rest := by
      unfold declare
      rw [h]
    rw [List.foldl_cons, ih hs, List.reverse_cons, List.append_assoc, List.singleton_append]

theorem bindsHere_iff (h : s.frames = scope :: rest) : s.bindsHere name = true ↔ name ∈ scope := by
  unfold bindsHere
  rw [h]
  exact List.contains_iff_mem

/-- Names that are declared without a clash: the first is new, the others are new behind it. -/
theorem repeated_cons_eq_nil {names : List String} :
    s.repeated (name :: names) = [] ↔
      s.bindsHere name = false ∧ (s.declare name).repeated names = [] := by
  rw [repeated]
  by_cases h : s.bindsHere name = true
  · simp [h]
  · simp [h]

end Scope

namespace Frames

variable {α : Type} {fs fs' : Frames α} {first f : Nat} {s : Scope}

/-- The frame `f` hosts code at a point with the scope `s`: its chain binds what the scope declares,
and the frame itself binds nothing else than the innermost names. -/
structure Hosts (fs : Frames α) (first f : Nat) (s : Scope) : Prop where
  provides : fs.Provides first f s.frames
  nonempty : s.frames ≠ []
  fits : ∃ fr, fs.frames[f]? = some fr ∧ ∀ name ∈ fr.names, s.bindsHere name = true

/-- When the frame gains names, it hosts code behind their declaration. -/
theorem Hosts.gain {names : List String} (h : fs.Hosts first f s) (hg : Gains f names fs fs') :
    fs'.Hosts first f (s.declareAll names) := by
  obtain ⟨scope, rest, hs⟩ := List.exists_cons_of_ne_nil h.nonempty
  have hs' := Scope.frames_declareAll hs names
  have hp := h.provides
  rw [hs] at hp
  obtain ⟨hle, fr, parent, hfr, hscope, hparent, hrest⟩ := hp
  obtain ⟨fr', hfr', hp', hn'⟩ := hg f fr hfr
  refine ⟨?_, by simp [hs'], fr', hfr', ?_⟩
  · rw [hs']
    refine ⟨hle, fr', parent, hfr', fun name hname => ?_, hp'.trans hparent, hrest.mono hg⟩
    rw [List.mem_append, List.mem_reverse] at hname
    exact (hn' name).mpr (hname.elim (fun h => Or.inr ⟨rfl, h⟩) fun h => Or.inl (hscope name h))
  · intro name hname
    rw [Scope.bindsHere_iff hs', List.mem_append, List.mem_reverse]
    obtain ⟨fr₀, hfr₀, hhere⟩ := h.fits
    cases hfr₀.symm.trans hfr
    rcases (hn' name).mp hname with hold | ⟨-, hnew⟩
    · exact Or.inr ((Scope.bindsHere_iff hs).mp (hhere name hold))
    · exact Or.inl hnew

theorem Hosts.mono (h : fs.Hosts first f s) (hk : Keeps fs fs') : fs'.Hosts first f s :=
  h.gain (gains_nil_iff.mp hk)

/-- A new frame under a chain that provides the scope hosts code in a new innermost scope. -/
theorem hosts_push {parent : Nat} (h : fs.Provides first parent s.frames)
    (hfirst : first ≤ fs.frames.size) :
    (fs.push parent).Hosts first fs.frames.size s.enter := by
  refine ⟨⟨hfirst, ⟨some parent, []⟩, parent, getElem?_push_size parent, by simp, rfl, ?_⟩,
    by simp [Scope.enter], ⟨some parent, []⟩, getElem?_push_size parent, ?_⟩
  · exact h.mono (keeps_push parent)
  · intro name hname
    cases hname

/-- A frame that hosts a scope accepts every name that the innermost scope does not declare. -/
theorem Hosts.not_binds {name : String} (h : fs.Hosts first f s)
    (hname : s.bindsHere name = false) :
    ∃ fr, fs.frames[f]? = some fr ∧ fr.binds name = false := by
  obtain ⟨fr, hfr, hhere⟩ := h.fits
  refine ⟨fr, hfr, Frame.binds_eq_false_iff.mpr fun hmem => ?_⟩
  rw [hhere name hmem] at hname
  cases hname

end Frames

end Dee
