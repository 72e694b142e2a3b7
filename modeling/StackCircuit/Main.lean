import StackCircuit.Command.Outcome
import StackCircuit.Text.Utf8

/-!
# The program

Reads the file that the command line names, prints what the command leads to, and exits with its
code.
-/

namespace StackCircuit.Command

/-- The reason behind an error.  A folder can be opened, so that only reading it fails, and then the
error does not name it. -/
def reason : IO.Error → ReadError
  | .inappropriateType none _ _ => .folder
  | .inappropriateType (some _) _ _ => .notFolder
  | .invalidArgument .. => .tooLong
  | .permissionDenied .. => .denied
  | _ => .missing

/-- The contents of a file, if it can be read. -/
def readContents (file : String) : IO (Except ReadError (List Char)) := do
  try
    let bytes ← IO.FS.readBinFile file
    return .ok (Text.Utf8.decode bytes.toList)
  catch e => return .error (reason e)

/-- The number of instructions after which an execution is given up. -/
def patience : Nat :=
  Nat.pow 2 62

end StackCircuit.Command

open StackCircuit.Command

/-- Performs a command line. -/
def main (words : List String) : IO UInt32 := do
  let terminal ← (← IO.getStdout).isTty
  let contents ←
    match Request.ofWords words with
    | .ok (.perform _ _ file) => readContents file
    | _ => pure (.error .missing)
  let outcome := Outcome.ofWords patience terminal (fun _ => contents) words
  IO.print outcome.output
  outcome.messages.forM IO.eprintln
  return UInt32.ofNat outcome.ending.code
