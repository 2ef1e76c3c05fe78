import Primer.CommandLine.Report

/-! # The program

Reads the file that the arguments name, if any, and prints the report.
-/
namespace Primer.CommandLine

/-- The text of a file, or why there is none. A directory can be opened but not read, so its fault
names no file. -/
def readText (path : String) : IO (Except FileFault String) := do
  try
    let bytes ← IO.FS.readBinFile path
    match String.fromUTF8? bytes with
    | some text => return .ok text
    | none => return .error .notText
  catch e =>
    match e with
    | .inappropriateType (some _) .. => return .error .notDirectory
    | .inappropriateType none .. => return .error .isDirectory
    | .invalidArgument .. => return .error .nameTooLong
    | .permissionDenied .. => return .error .accessDenied
    | _ => return .error .notFound

end Primer.CommandLine

open Primer.CommandLine

def main (arguments : List String) : IO UInt32 := do
  let file ← match Request.ofArguments? arguments with
    | some (.execute ⟨_, true, _, _, path⟩) => readText path
    | _ => pure (.error .notFound)
  let r := report arguments fun _ => file
  IO.print r.output
  IO.eprint r.errors
  return UInt32.ofNat r.status
