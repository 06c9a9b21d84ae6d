/-!
Why a file cannot be read, as the command line tells it: in the words of the system where the system
has a number for the error.
-/

namespace Selectors

namespace CommandLine

/-- Why a file cannot be read. -/
inductive ReadError : Type where
  | notFound
  | permissionDenied
  /-- A name on the way leads to a file, and the path goes on behind it. -/
  | notDirectory
  | isDirectory
  | nameTooLong
  | tooManyLinks
  /-- The bytes of the file are no text. -/
  | notText
  | other (reason : String)
deriving DecidableEq, Repr

namespace ReadError

/-- The number that the system has for an error. -/
def systemCode? : ReadError → Option Nat
  | .notFound => some 2
  | .permissionDenied => some 13
  | .notDirectory => some 20
  | .isDirectory => some 21
  | .nameTooLong => some 36
  | .tooManyLinks => some 40
  | .notText => none
  | .other _ => none

/-- The error for which the system has a number. -/
def ofSystemCode (code : Nat) (reason : String) : ReadError :=
  match code with
  | 2 => .notFound
  | 13 => .permissionDenied
  | 20 => .notDirectory
  | 21 => .isDirectory
  | 36 => .nameTooLong
  | 40 => .tooManyLinks
  | _ => .other reason

/-- The reason for an error. -/
def reason : ReadError → String
  | .notFound => "No such file or directory"
  | .permissionDenied => "Permission denied"
  | .notDirectory => "Not a directory"
  | .isDirectory => "Is a directory"
  | .nameTooLong => "File name too long"
  | .tooManyLinks => "Too many levels of symbolic links"
  | .notText => "stream did not contain valid UTF-8"
  | .other reason => reason

/-- The message for an error: the reason, and the number that the system has for it. -/
def message (e : ReadError) : String :=
  e.reason ++ e.systemCode?.elim "" fun code => " (os error " ++ toString code ++ ")"

end ReadError

end CommandLine

end Selectors
