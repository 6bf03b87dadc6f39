import Entailment.Command.Run

/-!
# The command line program
-/

namespace Entailment

/-- The bytes of a stream up to its end. -/
partial def readAll (stream : IO.FS.Stream) (bytes : ByteArray) : IO ByteArray := do
  let chunk ← stream.read 65536
  if chunk.isEmpty then return bytes else readAll stream (bytes ++ chunk)

def Refusal.ofError : IO.Error → Refusal
  | .noFileOrDirectory .. => .missing
  | .inappropriateType _ 21 _ => .directory
  | .inappropriateType .. => .notDirectory
  | .invalidArgument .. => .nameTooLong
  | .permissionDenied .. => .denied
  | error => .other error.toString

def readFile (path : String) : IO Content := do
  try
    return .ofBytes (← IO.FS.readBinFile path)
  catch error =>
    return .error (.ofError error)

end Entailment

open Entailment in
/-- Runs the programs named on the command line. -/
def main (words : List String) : IO UInt32 := do
  match Options.ofWords? words with
  | none =>
    IO.eprintln "usage: [PATH...] [-k|--keep-going] [--variable-limit N]"
    return 2
  | some options =>
    let paths := options.sources
    let input ←
      if paths.contains "-" then Content.ofBytes <$> readAll (← IO.getStdin) .empty
      else pure (.ok "")
    let files ← (paths.filter (· != "-")).mapM fun path => return (path, ← readFile path)
    let report := options.run (fun path => (files.lookup path).getD (.error .missing)) input
    IO.print (Report.unlines report.shown)
    IO.eprint (Report.unlines report.failures)
    return report.exitStatus.toUInt32
