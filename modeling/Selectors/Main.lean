import Selectors.CommandLine

/-!
The program. It reads the file that the arguments name, if they name one, and writes what
`CommandLine.run` makes of it.
-/

open Selectors CommandLine

/-- The number that the system has for an error, and the reason it gives. -/
def systemFault? : IO.Error → Option (UInt32 × String)
  | .noFileOrDirectory _ code reason => some (code, reason)
  | .permissionDenied _ code reason => some (code, reason)
  | .inappropriateType _ code reason => some (code, reason)
  | .invalidArgument _ code reason => some (code, reason)
  | .resourceExhausted _ code reason => some (code, reason)
  | .otherError code reason => some (code, reason)
  | _ => none

/-- Why reading failed. The number of an error may come with its sign reversed. -/
def readError (e : IO.Error) : ReadError :=
  match systemFault? e with
  | some (code, reason) => .ofSystemCode (min code (0 - code)).toNat reason
  | none => .other (toString e)

/-- Reads a file as text. -/
def readFile (path : String) : IO (Except ReadError String) := do
  try
    let bytes ← IO.FS.readBinFile path
    match String.fromUTF8? bytes with
    | some text => return .ok text
    | none => return .error .notText
  catch e => return .error (readError e)

/-- Runs the program. -/
def main (arguments : List String) : IO UInt32 := do
  let file? :=
    match Command.ofArguments arguments with
    | .ok command => command.file?
    | .error _ => none
  let source ← file?.elim (pure (.error .notFound)) readFile
  let outcome := run (fun _ => source) arguments
  IO.print outcome.stdout
  IO.eprint outcome.stderr
  return outcome.exit.toUInt32
