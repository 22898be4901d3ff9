import Dee.Proofs.Eval.Placed
import Dee.Proofs.Grammar.Blames
import Dee.Proofs.Scope.Placed
import Dee.Proofs.Simplify.Placed
import Dee.Proofs.Token.Inside
import Dee.Run

/-!
# Diagnostics point into the source

Whatever a run reports lies inside its text: a failure of scanning or parsing at a character or at
the end, and all that the later stages report at the start of a token. Faults, notes and run-time
errors take their positions from the program, simplification invents none, and the parser takes them
from tokens.

Main statement: `diagnostics_point_into_source`.
-/

namespace Dee

/-! ## The stages behind parsing -/

section Stages

variable {okPos : Pos → Bool} {limits : Limits} {options : RunOptions} {p : Program} {r : Report}
  {events : List Event}

theorem okPos_of_evaluateStage (hp : Stmt.AllPlaced okPos p.statements) {notes : List Diagnostic}
    (hnotes : ∀ d ∈ notes, okPos d.pos = true)
    (h : evaluateStage limits p notes events = .ok r) :
    ∀ d ∈ r.diagnostics, okPos d.pos = true := by
  have hrun := (Machine.run_inOrder (Stmt.allPlaced_iff.mp hp) limits
    (Machine.inOrder_initial okPos)).2
  unfold evaluateStage at h
  split at h
  · cases h
  next failures m hm =>
    have hfailures : ∀ d ∈ notes ++ failures, okPos d.pos = true := by
      intro d hd
      rcases List.mem_append.mp hd with hd | hd
      · exact hnotes d hd
      · exact hrun failures (by rw [hm]) d hd
    dsimp only at h
    split at h
    · cases h
      exact hfailures
    · cases h
      exact hfailures

/-- Notes keep their positions when they become diagnostics, and when these become errors. -/
theorem okPos_of_notes {α : Type} {x : Noted α} (h : AllAt okPos x.notes) (strict : Bool) :
    ∀ d ∈ (if strict then x.diagnostics.map Diagnostic.escalate else x.diagnostics),
      okPos d.pos = true := by
  have hnotes : ∀ d ∈ x.diagnostics, okPos d.pos = true := by
    intro d hd
    obtain ⟨note, hnote, rfl⟩ := List.mem_map.mp hd
    exact h note hnote
  cases strict with
  | false => exact hnotes
  | true =>
    intro d hd
    obtain ⟨d', hd', rfl⟩ := List.mem_map.mp hd
    exact hnotes d' hd'

theorem okPos_of_simplifyStage (hp : Stmt.AllPlaced okPos p.statements)
    (h : simplifyStage limits options p events = .ok r) :
    ∀ d ∈ r.diagnostics, d ≠ nestingDiagnostic → okPos d.pos = true := by
  have hplaces := Program.places_simplify hp
  have hnotes := okPos_of_notes hplaces.notes options.strict
  unfold simplifyStage at h
  split at h
  · split at h
    · cases h
      intro d hd hne
      exact absurd (List.mem_singleton.mp hd) hne
    · dsimp only at h
      generalize (if options.strict then _ else p.simplify.diagnostics) = notes at h hnotes
      split at h
      · -- Notes that count as errors stop the run.
        cases h
        exact fun d hd _ => hnotes d hd
      · exact fun d hd _ => okPos_of_evaluateStage hplaces.result hnotes h d hd
  · exact fun d hd _ => okPos_of_evaluateStage hp (by simp) h d hd

/-- All that is reported about a program at good positions lies at a good position, but for one
diagnostic that has none. -/
theorem okPos_of_analyzeStage (hp : Stmt.AllPlaced okPos p.statements)
    (h : analyzeStage limits options p events = .ok r) :
    ∀ d ∈ r.diagnostics, d ≠ nestingDiagnostic → okPos d.pos = true := by
  unfold analyzeStage at h
  dsimp only at h
  split at h
  · cases h
    intro d hd hne
    exact absurd (List.mem_singleton.mp hd) hne
  · split at h
    · cases h
      intro d hd _
      obtain ⟨fault, hfault, rfl⟩ := List.mem_map.mp hd
      exact Program.allAt_faults hp fault hfault
    · exact okPos_of_simplifyStage hp h

end Stages

/-! ## Parsing -/

/-- The positions at which a token starts, the end of the text apart. -/
def startsToken (source : String) (pos : Pos) : Bool :=
  (Feed.ofText source).tokens.any (·.pos = pos)

/-- What parsing blames lies inside the text, and a text that is parsed has tokens. -/
theorem parse_inside (limits : Limits) (source : String) :
    (∀ g, parse source limits = .error g →
      g.Blames (fun t => t.pos.Inside source.toList) fun e => e.pos.Inside source.toList) ∧
    ∀ p, parse source limits = .ok p → ∃ eof, (Feed.ofText source).ending = .ok eof := by
  have hinside := Feed.inside_ofText source
  constructor
  · exact (Grammar.blames_parseFeed (fun t ht => (hinside.tokens t ht).2)
      (fun t ht => (hinside.ending t ht).2) hinside.failure _).1
  · -- Only the ending of the feed can stand for the end of the text.
    intro p hp
    have hends := (Grammar.blames_parseFeed
      (T := fun t => t.isEof = true → ∃ eof, (Feed.ofText source).ending = .ok eof)
      (E := fun _ => True) ?_ ?_ ?_ _).2 p hp
    · obtain ⟨t, ht, heof⟩ := hends
      exact ht heof
    · intro t ht heof
      rw [(hinside.tokens t ht).1] at heof
      cases heof
    · intro t ht _
      exact ⟨t, ht⟩
    · intro e _
      trivial

/-- A parsed program stands at the starts of tokens. -/
theorem allPlaced_of_parse {limits : Limits} {source : String} {p : Program}
    (h : parse source limits = .ok p) :
    Stmt.AllPlaced (startsToken source) p.statements := by
  have hsource := source_of_parse (startsToken source) h ?_ ?_
  · refine Stmt.everywhereAll_mono ?_ ?_ p.statements hsource
    · intro e he
      exact (Expr.isSource_iff.mp he).2.2
    · intro s hs
      exact (Stmt.isSource_iff.mp hs).2.2
  · intro t ht
    exact List.any_eq_true.mpr ⟨t, ht, decide_eq_true rfl⟩
  · intro t ht heof
    rw [((Feed.inside_ofText source).ending t ht).1] at heof
    cases heof

/-- A start of a token is inside the text, and the start of one of its tokens before the end. -/
theorem exists_token_of_startsToken {source : String} {pos : Pos}
    (h : startsToken source pos = true)
    {eof : Token} (hend : (Feed.ofText source).ending = .ok eof) :
    pos.Inside source.toList ∧
      ∃ tokens, tokenize source = .ok tokens ∧ ∃ t ∈ tokens, t.isEof = false ∧ t.pos = pos := by
  obtain ⟨t, ht, hpos⟩ := List.any_eq_true.mp h
  obtain rfl : t.pos = pos := of_decide_eq_true hpos
  obtain ⟨heof, hinside⟩ := (Feed.inside_ofText source).tokens t ht
  refine ⟨hinside, (Feed.ofText source).tokens ++ [eof], ?_, t, ?_, heof, rfl⟩
  · rw [tokenize, Feed.toTokens, hend]
    rfl
  · exact List.mem_append_left _ ht

/-! ## Whole runs -/

/-- Every diagnostic points into the source. Whatever a run reports, apart from nesting beyond the
limit, lies at a line and a column that are counted from one, at a character of the text or at its
end. What is reported behind the stage of parsing lies at the start of a token of the text, which is
not its end. -/
theorem diagnostics_point_into_source (limits : Limits) (options : RunOptions) (source : String)
    (r : Report) (h : runSource limits options source = .ok r) (d : Diagnostic)
    (hd : d ∈ r.diagnostics) (hne : d ≠ nestingDiagnostic) :
    1 ≤ d.pos.line ∧ 1 ≤ d.pos.column ∧
      (∃ before after, source.toList = before ++ after ∧ d.pos = .behind before) ∧
      (r.stage ≠ .parse →
        ∃ tokens, tokenize source = .ok tokens ∧ ∃ t ∈ tokens, t.isEof = false ∧
          t.pos = d.pos) := by
  obtain ⟨hblames, hends⟩ := parse_inside limits source
  suffices hplace : d.pos.Inside source.toList ∧ (r.stage ≠ .parse →
      ∃ tokens, tokenize source = .ok tokens ∧ ∃ t ∈ tokens, t.isEof = false ∧ t.pos = d.pos) from
    ⟨hplace.1.one_le.1, hplace.1.one_le.2, hplace.1, hplace.2⟩
  unfold runSource at h
  dsimp only at h
  split at h
  next e he =>
    cases h
    obtain rfl := List.mem_singleton.mp hd
    exact ⟨hblames _ he, fun hstage => absurd rfl hstage⟩
  next e he =>
    cases h
    obtain rfl := List.mem_singleton.mp hd
    obtain ⟨t, ht, hpos⟩ := hblames _ he
    refine ⟨?_, fun hstage => absurd rfl hstage⟩
    show e.pos.Inside source.toList
    rw [hpos]
    exact ht
  · cases h
    exact absurd (List.mem_singleton.mp hd) hne
  · cases h
  next p hp =>
    -- The text was scanned to its end, so its tokens are those that the parser met.
    obtain ⟨eof, heof⟩ := hends p hp
    have hstart := okPos_of_analyzeStage (allPlaced_of_parse hp) h d hd hne
    obtain ⟨hinside, htoken⟩ := exists_token_of_startsToken hstart heof
    exact ⟨hinside, fun _ => htoken⟩

/-- Notes, and errors of run-time steps in code that was simplified: in a block that took the place
of its conditional, at the second of two members that were scanned as one number, and in a call,
beside a folded operator. -/
theorem diagnostics_point_into_source_simplified :
    let source :=
      "var t := \x7b\x7b4\x7d\x7d, u\nif 1 < 2 then print t.1.2 end\n(func() => 3 * 2 / 0)()"
    ∃ r, runSource (.bounded 30 30) .standard source = .ok r ∧ r.stage = .interpret ∧
      r.diagnostics.map Diagnostic.pos =
        [⟨1, 1⟩, ⟨2, 6⟩, ⟨2, 1⟩, ⟨3, 14⟩, ⟨2, 23⟩, ⟨3, 18⟩] ∧
      ∀ d ∈ r.diagnostics, d ≠ nestingDiagnostic ∧ 1 ≤ d.pos.line ∧ 1 ≤ d.pos.column ∧
        (∃ before after, source.toList = before ++ after ∧ d.pos = .behind before) ∧
        ∃ tokens, tokenize source = .ok tokens ∧ ∃ t ∈ tokens, t.isEof = false ∧ t.pos = d.pos := by
  intro source
  have heval : ((runSource (.bounded 30 30) .standard source).toOption.elim false fun r =>
      decide (r.stage = .interpret) && decide (r.diagnostics.map Diagnostic.pos =
        [⟨1, 1⟩, ⟨2, 6⟩, ⟨2, 1⟩, ⟨3, 14⟩, ⟨2, 23⟩, ⟨3, 18⟩])) = true := by
    decide +kernel
  cases hrun : runSource (.bounded 30 30) .standard source with
  | error e =>
    rw [hrun] at heval
    cases heval
  | ok r =>
    rw [hrun] at heval
    change (_ && _) = true at heval
    rw [Bool.and_eq_true, decide_eq_true_iff, decide_eq_true_iff] at heval
    obtain ⟨hstage, hpos⟩ := heval
    refine ⟨r, rfl, hstage, hpos, ?_⟩
    intro d hd
    have hne : d ≠ nestingDiagnostic := by
      rintro rfl
      have hmem := List.mem_map_of_mem (f := Diagnostic.pos) hd
      rw [hpos] at hmem
      revert hmem
      decide
    obtain ⟨hline, hcolumn, hinside, htoken⟩ :=
      diagnostics_point_into_source (.bounded 30 30) .standard source r hrun d hd hne
    refine ⟨hne, hline, hcolumn, hinside, htoken ?_⟩
    rw [hstage]
    decide

end Dee
