import WorldDoc.Command.Run
import Std.Time.Zoned

/-!
# The program

Reads the arguments and the file, lets the command decide, and writes what it says. Nothing is
decided here but how the system's errors are called.
-/

namespace WorldDoc

/-- How the program is used. -/
def usageText : String :=
  "usage: cldpy check [-h] [--no-validate] [--reject-duplicates] [--verbose] FILE"

/-- The bytes of a file, or why they cannot be read. -/
def readBytes (path : String) : IO (Except Command.ReadError (List UInt8)) := do
  try
    let bytes ← IO.FS.readBinFile path
    return .ok bytes.toList
  catch
    | .inappropriateType none .. => return .error .isDirectory
    | .inappropriateType .. => return .error .notDirectory
    | .invalidArgument .. => return .error .nameTooLong
    | _ => return .error .notFound

/-- The time of day as it heads the lines of the log. -/
def timeOfDay : IO String := do
  let now ← Std.Time.PlainTime.now
  let two (n : Int) : String := if n < 10 then s!"0{n}" else s!"{n}"
  return s!"{two now.hour.val}:{two now.minute.val}:{two now.second.val}"

end WorldDoc

open WorldDoc

/-- Runs the command line. -/
def main (arguments : List String) : IO UInt32 := do
  match Command.Invocation.ofArguments arguments with
  | .error .help =>
    IO.println usageText
    return 0
  | .error .usage =>
    IO.eprintln usageText
    return 2
  | .error .nulInName =>
    IO.eprintln Command.Stop.nulMessage
    return 1
  | .ok invocation =>
    let bytes ← readBytes (Command.simplifyPath invocation.file)
    let outcome := Command.check (fun _ => bytes) invocation
    let time ← timeOfDay
    for line in outcome.output do IO.println line
    for line in outcome.errors do IO.eprintln (line.render time)
    return UInt32.ofNat outcome.status
