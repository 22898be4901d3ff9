import Dee.CommandLine

/-!
# The program

Reads the source text from the path on the command line or from standard input, runs it, and writes
what it printed and what is to be told to the user.
-/

namespace Dee

open CommandLine

def readSource (path : String) : IO (Except ReadError String) := do
  try
    return .ok (← IO.FS.readFile path)
  catch e =>
    match e with
    | .noFileOrDirectory .. => return .error .missing
    | .inappropriateType _ code _ =>
      return .error (if code = 21 then .directory else .notDirectory)
    | .invalidArgument .. => return .error .nameTooLong
    | _ => throw e

/-- Writes the outcome of a command and gives its exit code. -/
def finish : Except Halt Outcome → IO UInt32
  | .ok outcome => do
    IO.print outcome.stdout
    IO.eprint outcome.stderr
    return UInt32.ofNat outcome.exitCode
  | .error _ => do
    IO.eprintln "error: the run was cut off"
    return 1

end Dee

open Dee Dee.CommandLine in
def main (args : List String) : IO UInt32 := do
  match readArguments args with
  | .error early =>
    match early with
    | .help => IO.print usage
    | .usage => IO.eprint usage
    return UInt32.ofNat early.status
  | .ok settings =>
    match settings.sourcePath? with
    | none => finish (settings.run (← (← IO.getStdin).readToEnd))
    | some path => finish (settings.runFile path (← readSource path))
