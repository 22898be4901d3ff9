import Dee.Run
import Dee.Text.Escape

/-!
# The command line

One optional path and five flags, in any order. A long flag may be shortened while only one flag
starts so, short flags may be joined, and two dashes end the flags. Words that look like negative
numbers or hold a blank are no flags.

The commands are worked out here as functions of the arguments and of what can be read; reading and
writing are left to the caller.
-/

namespace Dee.CommandLine

/-! ## Arguments -/

/-- What the arguments ask for. -/
structure Settings where
  path : Option String
  noOptimize : Bool
  strict : Bool
  showInfo : Bool
  verbose : Bool
deriving Repr, DecidableEq

def Settings.plain : Settings := ⟨none, false, false, false, false⟩

inductive Flag where
  | help
  | noOptimize
  | strict
  | showInfo
  | verbose
deriving Repr, DecidableEq

def spellings : List (String × Flag) :=
  [("-h", .help), ("--help", .help), ("--no-optimize", .noOptimize), ("--strict", .strict),
   ("--show-info", .showInfo), ("-v", .verbose), ("--verbose", .verbose)]

def Flag.ofSpelling? (s : List Char) : Option Flag :=
  spellings.lookup (String.ofList s)

/-- What an argument is. -/
inductive Word where
  | path (s : String)
  /-- A flag, or several short ones joined. -/
  | flags (flags : List Flag)
  /-- A flag with something joined to it that it does not take. -/
  | misused
  | unknown
  | ambiguous
deriving Repr, DecidableEq

/-- What a short flag with `joined` behind it is: every further character must be a short flag
itself. An equals sign may stand before the first of them, but not alone. -/
def joinedFlags (first : Flag) (joined : List Char) : Word :=
  let letters := match joined with
    | '=' :: rest => rest
    | rest => rest
  match letters.mapM fun c => Flag.ofSpelling? ['-', c] with
  | some more => if more.isEmpty then .misused else .flags (first :: more)
  | none => .misused

/-- Whether a text is digits, with a point before the last of them or without. -/
def isUnsignedNumber (s : List Char) : Bool :=
  let (whole, tail) := s.span Text.isDecimalDigit
  match tail with
  | [] => !whole.isEmpty
  | '.' :: fraction => !fraction.isEmpty && fraction.all Text.isDecimalDigit
  | _ => false

/-- A text without the line end that closes it. -/
def dropLineEnd (s : List Char) : List Char :=
  if s.getLast? = some '\n' then s.dropLast else s

/-- Whether a text is a number with a minus sign, in the digits of any script; a line end may close
it. -/
def looksNegative : List Char → Bool
  | '-' :: rest => isUnsignedNumber (dropLineEnd rest)
  | _ => false

/-- What a text that starts with a dash is if it is no spelling and no shortened flag. -/
def leftover (s : List Char) : Word :=
  if looksNegative s || s.contains ' ' then .path (String.ofList s) else .unknown

/-- What a text that starts with two dashes is: a shortened flag, if one spelling starts so. No such
flag takes a value. -/
def shortened (s : List Char) : Word :=
  let stem := s.takeWhile (· ≠ '=')
  match spellings.filter fun p => stem.isPrefixOf p.1.toList with
  | [] => leftover s
  | [(_, flag)] => if s.contains '=' then .misused else .flags [flag]
  | _ => .ambiguous

/-- What an argument before two dashes is. -/
def Word.ofText (text : String) : Word :=
  let s := text.toList
  match s with
  | '-' :: c :: rest =>
    match Flag.ofSpelling? s with
    | some flag => .flags [flag]
    | none =>
      if c = '-' then shortened s
      else
        match Flag.ofSpelling? ['-', c] with
        | some flag => joinedFlags flag rest
        | none => leftover s
  | _ => .path text

/-! ## Reading the arguments -/

/-- How reading the arguments ends early: with the help, or with a complaint. -/
inductive Early where
  | help
  | usage
deriving Repr, DecidableEq

def Early.status : Early → Nat
  | .help => 0
  | .usage => 2

def usage : String :=
  "usage: dee [-h] [-v] [--no-optimize] [--strict] [--show-info] [source]\n"

def Settings.raise (s : Settings) : Flag → Except Early Settings
  | .help => .error .help
  | .noOptimize => .ok { s with noOptimize := true }
  | .strict => .ok { s with strict := true }
  | .showInfo => .ok { s with showInfo := true }
  | .verbose => .ok { s with verbose := true }

/-- The settings so far, and whether something was met that nothing takes. -/
structure Progress where
  settings : Settings
  surplus : Bool
deriving Repr, DecidableEq

/-- Takes a path; only the first one has a use. -/
def Progress.takePath (p : Progress) (s : String) : Progress :=
  match p.settings.path with
  | none => { p with settings := { p.settings with path := some s } }
  | some _ => { p with surplus := true }

def Progress.take (p : Progress) : Word → Except Early Progress
  | .path s => .ok (p.takePath s)
  | .flags flags => do
    let settings ← flags.foldlM Settings.raise p.settings
    return { p with settings }
  | .misused => .error .usage
  | .unknown => .ok { p with surplus := true }
  | .ambiguous => .error .usage

/-- Reads the arguments. Two dashes are taken with the path, so they stand before it or directly
behind it. -/
def readArguments (args : List String) : Except Early Settings := do
  let words := (args.takeWhile (· ≠ "--")).map Word.ofText
  let tail := args.dropWhile (· ≠ "--")
  if words.contains .ambiguous then throw .usage
  let before ← words.foldlM Progress.take ⟨.plain, false⟩
  let pathIsLast := match words.getLast? with
    | some (.path _) => true
    | _ => false
  let dashesFit := tail.isEmpty || before.settings.path.isNone || pathIsLast
  let after := (tail.drop 1).foldl Progress.takePath before
  if after.surplus || !dashesFit then throw .usage
  return after.settings

/-! ## Source files -/

/-- Why a file cannot be read. -/
inductive ReadError where
  | missing
  | directory
  | notDirectory
  | nameTooLong
deriving Repr, DecidableEq

def ReadError.message : ReadError → String
  | .missing => "[Errno 2] No such file or directory"
  | .directory => "[Errno 21] Is a directory"
  | .notDirectory => "[Errno 20] Not a directory"
  | .nameTooLong => "[Errno 36] File name too long"

/-- Line ends of all three kinds become single newlines. -/
def unifyLineEnds : List Char → List Char
  | '\r' :: '\n' :: rest => '\n' :: unifyLineEnds rest
  | '\r' :: rest => '\n' :: unifyLineEnds rest
  | c :: rest => c :: unifyLineEnds rest
  | [] => []

/-- A path without empty parts and parts that stay in place. -/
def tidyPath (path : String) : String :=
  let parts := (path.splitOn "/").filter fun part => part ≠ "" ∧ part ≠ "."
  let rest := String.intercalate "/" parts
  match path.toList with
  | '/' :: '/' :: '/' :: _ => "/" ++ rest
  | '/' :: '/' :: _ => "//" ++ rest
  | '/' :: _ => "/" ++ rest
  | _ => if parts.isEmpty then "." else rest

/-! ## Running -/

/-- What a command writes and how it ends. -/
structure Outcome where
  exitCode : Nat
  stdout : String
  stderr : String
deriving Repr, DecidableEq

def Settings.runOptions (s : Settings) : RunOptions := ⟨!s.noOptimize, s.strict⟩

def Settings.shows (s : Settings) (d : Diagnostic) : Bool :=
  s.showInfo || d.severity ≠ .info

/-- What a command writes for a report. -/
def Settings.present (s : Settings) (r : Report) : Outcome where
  exitCode := r.exitCode
  stdout := r.output
  stderr :=
    let log := if s.verbose then r.events.map Event.logLine else []
    String.join (log ++ (r.diagnostics.filter s.shows).map fun d => d.text ++ "\n")

def Settings.run (s : Settings) (source : String) : Except Halt Outcome :=
  (runSource .standard s.runOptions source).map s.present

def unreadable (path : String) (e : ReadError) : Outcome where
  exitCode := 1
  stdout := ""
  stderr := "error: unable to read source: " ++ e.message ++ ": " ++ Text.quoted path ++ "\n"

/-- The path that is read; without one, or with an empty one, standard input is. -/
def Settings.sourcePath? (s : Settings) : Option String :=
  match s.path with
  | some path => if path = "" then none else some (tidyPath path)
  | none => none

def Settings.runFile (s : Settings) (path : String) (content : Except ReadError String) :
    Except Halt Outcome :=
  match content with
  | .ok text => s.run (String.ofList (unifyLineEnds text.toList))
  | .error e => .ok (unreadable path e)

end Dee.CommandLine
