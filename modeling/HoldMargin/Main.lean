import HoldMargin.CommandLine.Run
/-!
# The program

Runs a command line on the files of the system.
-/

namespace HoldMargin.CommandLine

/-- The reason of a failure in words. -/
def reasonOf (e : IO.Error) : String :=
  match e with
  | .noFileOrDirectory _ code details
  | .inappropriateType _ code details
  | .invalidArgument _ code details
  | .permissionDenied _ code details
  | .resourceExhausted _ code details
  | .otherError code details => s!"{details} (os error {code})"
  | .userError _ => "stream did not contain valid UTF-8"
  | _ => toString e

/-- The text of the file at a path. The file is opened at once, so that a
failure is the one that opening gives. -/
def readText (path : String) : IO String := do
  let handle ← IO.FS.Handle.mk path .read
  handle.readToEnd

/-- Access to the files of the system. A file that may not be read is there
all the same. -/
def systemAccess : FileAccess IO where
  isFile path := do
    try
      let _ ← readText path
      return true
    catch e =>
      return match e with
        | .permissionDenied .. | .userError _ => true
        | _ => false
  read path := do
    try return .ok (← readText path)
    catch e => return .error (reasonOf e)
  write path text := do
    try
      IO.FS.writeFile path text
      return .ok ()
    catch e => return .error (reasonOf e)

end HoldMargin.CommandLine

open HoldMargin.CommandLine in
/-- Runs the command line `args`. -/
def main (args : List String) : IO UInt32 := do
  let terminal ← (← IO.getStderr).isTty
  let out ← run systemAccess terminal args
  IO.eprint out.stderr
  IO.print out.stdout
  return out.exitCode.toUInt32
