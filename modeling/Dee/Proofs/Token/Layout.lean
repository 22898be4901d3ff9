import Dee.Proofs.Token.Gap

/-!
# Texts that are laid out

Characters that are scanned as a token whatever blank stands behind them can be laid out: one after
the other, each with a gap behind it that begins with a blank. A scan of such a text finds the
tokens one by one, whatever the gaps are made of.

Main statement: `Feed.ofText_laidOut`.
-/

namespace Dee

/-! ## Standing apart -/

theorem Cursor.isBlank_iff {c : Char} : isBlank c = true ↔ c = ' ' ∨ c = '\t' ∨ c = '\r' := by
  simp [isBlank, or_assoc]

/-- What stands behind a spelling: the end of the text or a blank. -/
def Apart (rest : List Char) : Prop :=
  rest = [] ∨ ∃ c more, Cursor.isBlank c = true ∧ rest = c :: more

/-- Characters that stand apart are scanned as one token with the given meaning. -/
def Scans (cs : List Char) (lexeme : Lexeme) : Prop :=
  ∀ (offset : Nat) (pos : Pos) (rest : List Char), Apart rest →
    (⟨offset, pos, cs ++ rest⟩ : Cursor).next =
      Cursor.emit ⟨offset, pos, cs ++ rest⟩ lexeme cs rest

/-- Only the end of the text is scanned from nothing. -/
theorem Scans.ne_nil {cs : List Char} {lexeme : Lexeme} (h : Scans cs lexeme)
    (hne : lexeme ≠ .eof) : cs ≠ [] := by
  rintro rfl
  have hend := h 0 .start [] (Or.inl rfl)
  injection hend with htoken _
  injection htoken with htoken
  injection htoken with hlexeme _ _
  exact hne hlexeme.symm

/-- A gap that keeps what stands before it apart from what follows: it begins with a blank, and may
only be missing at the end of the text. -/
structure Gap.Parts (gap ahead : List Char) : Prop where
  isGap : Gap gap ahead
  blank : ∀ c ∈ gap.head?, Cursor.isBlank c = true
  missing : gap = [] → ahead = []

theorem Gap.Parts.apart {gap ahead : List Char} (h : Gap.Parts gap ahead) :
    Apart (gap ++ ahead) := by
  cases gap with
  | nil => exact Or.inl (h.missing rfl)
  | cons c gap => exact Or.inr ⟨c, gap ++ ahead, h.blank c rfl, rfl⟩

theorem Gap.Parts.of_blank {c : Char} {gap ahead : List Char} (hc : Cursor.isBlank c = true)
    (h : Gap gap ahead) : Gap.Parts (c :: gap) ahead :=
  ⟨.blank hc h, by simpa using hc, by simp⟩

/-- Spellings that are laid out as a text, each with a gap behind it. -/
inductive LaidOut : (spellings : List (List Char)) → (text : List Char) → Prop
  | nil : LaidOut [] []
  | cons {cs gap rest : List Char} {spellings : List (List Char)} (parts : Gap.Parts gap rest)
    (more : LaidOut spellings rest) : LaidOut (cs :: spellings) (cs ++ (gap ++ rest))

/-! ## Scanning -/

namespace Feed

/-- A scan passes a gap and takes the token behind it. -/
theorem scan_token {gap cs rest : List Char} {lexeme : Lexeme} (hgap : Gap gap (cs ++ rest))
    (h : Scans cs lexeme) (hne : lexeme ≠ .eof) (hrest : Apart rest) {c : Cursor}
    (hc : c.rest = gap ++ (cs ++ rest)) (steps : Nat) (seen : List Token) :
    ∃ pos c', c'.rest = rest ∧
      scan (steps + 1) c seen = scan steps c' (⟨lexeme, String.ofList cs, pos⟩ :: seen) := by
  obtain ⟨offset, pos, text⟩ := c
  have heof : ∀ p, (⟨lexeme, String.ofList cs, p⟩ : Token).isEof = false :=
    fun p => decide_eq_false hne
  subst hc
  refine ⟨pos.advance gap,
    Cursor.take ⟨offset + gap.length, pos.advance gap, cs ++ rest⟩ cs rest, rfl, ?_⟩
  rw [scan, Cursor.next_gap hgap, h _ _ rest hrest]
  simp only [Cursor.emit, heof, Bool.false_eq_true, if_false]

/-- A scan passes a last gap and ends. -/
theorem scan_end {c : Cursor} (hc : Gap c.rest []) (steps : Nat) (seen : List Token) :
    ∃ pos, scan (steps + 1) c seen = ⟨seen.reverse, .ok ⟨.eof, "", pos⟩⟩ := by
  obtain ⟨offset, pos, text⟩ := c
  have hnext := Cursor.next_gap hc offset pos
  rw [List.append_nil] at hnext
  refine ⟨pos.advance text, ?_⟩
  rw [scan, hnext]
  rfl

variable {α : Type} {P : α → Token → Prop} {xs : List α} {spellings : List (List Char)}
  {gap text : List Char}

/-- A scan of a text that is laid out finds a token for each spelling and then the end. -/
theorem scan_laidOut
    (h : List.Forall₂ (fun x cs => ∃ lexeme, Scans cs lexeme ∧ lexeme ≠ .eof ∧
      ∀ pos, P x ⟨lexeme, String.ofList cs, pos⟩) xs spellings)
    (htext : LaidOut spellings text) (hgap : Gap gap text) {c : Cursor} (hc : c.rest = gap ++ text)
    {steps : Nat} (hsteps : text.length < steps) (seen : List Token) :
    ∃ ts pos, scan steps c seen = ⟨seen.reverse ++ ts, .ok ⟨.eof, "", pos⟩⟩ ∧
      List.Forall₂ P xs ts := by
  induction h generalizing gap text c steps seen with
  | nil =>
    cases htext
    obtain ⟨steps, rfl⟩ := Nat.exists_eq_succ_of_ne_zero (Nat.ne_of_gt hsteps)
    rw [List.append_nil] at hc
    rw [← hc] at hgap
    obtain ⟨pos, hend⟩ := scan_end hgap steps seen
    exact ⟨[], pos, by rw [hend, List.append_nil], .nil⟩
  | @cons x cs xs spellings hx _ ih =>
    obtain ⟨lexeme, hscans, hne, hP⟩ := hx
    cases htext with
    | @cons _ between rest _ hparts hmore =>
      obtain ⟨steps, rfl⟩ := Nat.exists_eq_succ_of_ne_zero (Nat.ne_of_gt (Nat.zero_lt_of_lt hsteps))
      obtain ⟨start, c', hc', hscan⟩ := scan_token hgap hscans hne hparts.apart hc steps seen
      -- The token takes a character, so the steps that are left still suffice.
      have hrest : rest.length < steps := by
        have hcs := List.length_pos_iff.mpr (hscans.ne_nil hne)
        simp only [List.length_append] at hsteps
        omega
      obtain ⟨ts, pos, hts, hall⟩ := ih hmore hparts.isGap hc' hrest (_ :: seen)
      refine ⟨_ :: ts, pos, ?_, .cons (hP start) hall⟩
      rw [hscan, hts, List.reverse_cons, List.append_assoc, List.singleton_append]

/-- The tokens of a text that is laid out are those that its spellings are scanned as. -/
theorem ofText_laidOut
    (h : List.Forall₂ (fun x cs => ∃ lexeme, Scans cs lexeme ∧ lexeme ≠ .eof ∧
      ∀ pos, P x ⟨lexeme, String.ofList cs, pos⟩) xs spellings)
    (htext : LaidOut spellings text) (hgap : Gap gap text) {source : String}
    (hsource : source.toList = gap ++ text) :
    ∃ ts pos, ofText source = ⟨ts, .ok ⟨.eof, "", pos⟩⟩ ∧ List.Forall₂ P xs ts := by
  refine scan_laidOut h htext hgap (c := .ofText source.toList) hsource ?_ []
  rw [hsource, List.length_append]
  omega

end Feed

end Dee
