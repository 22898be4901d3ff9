import Dee.Eval.Program
import Dee.Grammar.Program
import Dee.Program.Declarations
import Dee.Program.Depth
import Dee.Scope
import Dee.Simplify

/-!
# From source text to output

A run has four stages: parsing, scope analysis, simplification and evaluation. A stage is entered
only if no stage before it reported an error. The report says where the run stopped, what is to be
told to the user, what was printed, and which events happened on the way.
-/

namespace Dee

/-! ## Options and stages -/

structure RunOptions where
  /-- Whether the program is simplified before it runs. -/
  simplify : Bool
  /-- Whether notes of the simplification count as errors. -/
  strict : Bool
deriving Repr, DecidableEq

def RunOptions.standard : RunOptions := ⟨true, false⟩

/-- Where a run stopped. -/
inductive Stage where
  | parse
  | analyze
  | optimize
  | interpret
  | done
deriving Repr, DecidableEq

def Stage.name : Stage → String
  | .parse => "parse"
  | .analyze => "analyze"
  | .optimize => "optimize"
  | .interpret => "interpret"
  | .done => "done"

/-- What a text that is nested too deeply is reported as. -/
def nestingDiagnostic : Diagnostic := .error "Maximum nesting depth exceeded" .nowhere

/-! ## Events -/

/-- Something that happens in a run. -/
inductive Event where
  | parsing (characters : Nat)
  | analyzing (statements : Nat)
  | checked (declarations diagnostics : Nat)
  | noted (note : Located Note)
  | simplified (notes : Nat)
  | interpreting
  | failed (diagnostic : Diagnostic)
  | stopped (stage : Stage) (diagnostics : Nat)
  | finished (diagnostics : Nat)

/-- The part of the program that logs an event. -/
def Event.source : Event → String
  | .checked _ _ => "deelang.checker"
  | .noted _ => "deelang.optimizer"
  | .simplified _ => "deelang.optimizer"
  | .failed _ => "deelang.interp"
  | _ => "deelang.driver"

def Event.message : Event → String
  | .parsing n => "parsing " ++ Decimal.ofNat n ++ " characters"
  | .analyzing n => "analyzing " ++ Decimal.ofNat n ++ " top-level statements"
  | .checked n k =>
    "checked " ++ Decimal.ofNat n ++ " declarations, " ++ Decimal.ofNat k ++ " diagnostics"
  | .noted note =>
    Decimal.ofInt note.pos.line ++ ":" ++ Decimal.ofInt note.pos.column ++ ": " ++ note.message
  | .simplified n => "optimizer applied " ++ Decimal.ofNat n ++ " rewrites"
  | .interpreting => "interpreting"
  | .failed d => "runtime failure: " ++ d.text
  | .stopped stage n => "stopped at " ++ stage.name ++ " with " ++ Decimal.ofNat n ++ " diagnostics"
  | .finished n => "finished with " ++ Decimal.ofNat n ++ " diagnostics"

/-- The line that the log shows for an event. -/
def Event.logLine (e : Event) : String :=
  "DEBUG:" ++ e.source ++ ":" ++ e.message ++ "\n"

/-! ## Reports -/

/-- What came of a run. -/
structure Report where
  stage : Stage
  diagnostics : List Diagnostic
  output : String
  events : List Event

namespace Report

def ok (r : Report) : Bool := !hasErrors r.diagnostics

def exitCode (r : Report) : Nat := if r.ok then 0 else 1

def errors (r : Report) : List Diagnostic := r.diagnostics.filter Diagnostic.isError

/-- A run that stopped at a stage before anything was printed. -/
def stopAt (stage : Stage) (diagnostics : List Diagnostic) (events : List Event) : Report :=
  ⟨stage, diagnostics, "", events ++ [.stopped stage diagnostics.length]⟩

end Report

/-- What ends a run without a report. -/
inductive Halt where
  /-- The position of a member has too many digits. -/
  | longPosition (digits : Nat)
  | abort (a : Abort)
deriving Repr, DecidableEq

/-! ## The stages -/

/-- Evaluates a program on a new machine, given the notes and events of the stages before. -/
def evaluateStage (limits : Limits) (p : Program) (notes : List Diagnostic)
    (events : List Event) : Except Halt Report :=
  match Machine.initial.run limits p with
  | (.error a, _) => .error (.abort a)
  | (.ok failures, m) =>
    let diagnostics := notes ++ failures
    let events := events ++ .interpreting :: failures.map .failed
    if hasErrors diagnostics then
      .ok ⟨.interpret, diagnostics, m.output,
        events ++ [.stopped .interpret diagnostics.length]⟩
    else .ok ⟨.done, diagnostics, m.output, events ++ [.finished diagnostics.length]⟩

/-- Simplifies a program, if that is asked for, and evaluates it. -/
def simplifyStage (limits : Limits) (options : RunOptions) (p : Program) (events : List Event) :
    Except Halt Report :=
  if options.simplify then
    if limits.simplified < p.depth then .ok (.stopAt .optimize [nestingDiagnostic] events)
    else
      let simplified := p.simplify
      let events := events ++ simplified.notes.map .noted ++ [.simplified simplified.notes.length]
      let notes := simplified.diagnostics
      let notes := if options.strict then notes.map Diagnostic.escalate else notes
      if hasErrors notes then .ok (.stopAt .optimize notes events)
      else evaluateStage limits simplified.result notes events
  else evaluateStage limits p [] events

/-- Analyzes the scopes of a program and goes on if there is no fault. -/
def analyzeStage (limits : Limits) (options : RunOptions) (p : Program) (events : List Event) :
    Except Halt Report :=
  let events := events ++ [.analyzing p.statements.length]
  if limits.analyzed < p.depth then .ok (.stopAt .analyze [nestingDiagnostic] events)
  else
    let diagnostics := p.analyze
    let events := events ++ [.checked p.declarations diagnostics.length]
    if hasErrors diagnostics then .ok (.stopAt .analyze diagnostics events)
    else simplifyStage limits options p events

def runSource (limits : Limits) (options : RunOptions) (source : String) : Except Halt Report :=
  let events := [Event.parsing source.length]
  match parse source limits with
  | .error (.scan e) => .ok (.stopAt .parse [e.toDiagnostic] events)
  | .error (.parse e) => .ok (.stopAt .parse [e.toDiagnostic] events)
  | .error .tooDeep => .ok (.stopAt .parse [nestingDiagnostic] events)
  | .error (.longPosition digits) => .error (.longPosition digits)
  | .ok p => analyzeStage limits options p events

end Dee
