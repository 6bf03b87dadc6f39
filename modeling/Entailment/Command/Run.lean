import Entailment.Command.Content
import Entailment.Command.Options
import Entailment.Session.Run

/-!
# Running the command

The command runs the programs at its paths in order, each in a session of its own, and reports what
they show and how they fail.  It stops at a source that cannot be read.  Unless it is told to keep
going, it also stops at the first program that fails, which then shows nothing but its failure.
-/

namespace Entailment

/-- The lines that the command shows and the failures it reports. -/
structure Report where
  shown : List String := []
  failures : List String := []
  clean : Bool := true
  deriving DecidableEq

namespace Report

def append (first second : Report) : Report where
  shown := first.shown ++ second.shown
  failures := first.failures ++ second.failures
  clean := first.clean && second.clean

instance : Append Report := ⟨append⟩

def ofOutcomes (outcomes : List Outcome) : Report := { shown := outcomes.filterMap Outcome.shown? }

def ofFailure (message : String) : Report := { failures := [message], clean := false }

def exitStatus (report : Report) : Nat := if report.clean then 0 else 1

def unlines (lines : List String) : String := String.join (lines.map (· ++ "\n"))

end Report

namespace Session

/-- Enters lines one after the other, whatever becomes of each. -/
def enterAll (session : Session) : List String → Report
  | [] => {}
  | text :: texts =>
    let (result, after) := session.enter text
    let report :=
      match result with
      | .ok outcome => Report.ofOutcomes outcome.toList
      | .error failure => Report.ofFailure failure.message
    report ++ after.enterAll texts

end Session

namespace Options

/-- Runs one program in a fresh session. -/
def runSource (options : Options) (source : String) : Report :=
  let session : Session := { limit := options.limit }
  if options.keepGoing then session.enterAll (Text.lines source)
  else
    match (session.run source).1 with
    | .ok outcomes => .ofOutcomes outcomes
    | .error failure => .ofFailure failure.message

/-- Runs the programs with the given names and contents. -/
def runSources (options : Options) : List (String × Content) → Report
  | [] => {}
  | (name, .error refusal) :: _ => .ofFailure (name ++ ": " ++ refusal.message)
  | (_, .ok source) :: sources =>
    let report := options.runSource source
    if report.clean || options.keepGoing then report ++ options.runSources sources else report

/-- The contents at paths.  A `-` stands for standard input, which is empty once it has been
read. -/
def contents (files : String → Content) (input : Content) : List String → List (String × Content)
  | [] => []
  | "-" :: paths => ("-", input) :: contents files (.ok "") paths
  | path :: paths => (path, files path) :: contents files input paths

/-- The paths to run: standard input if none is given. -/
def sources (options : Options) : List String :=
  if options.paths.isEmpty then ["-"] else options.paths

def run (options : Options) (files : String → Content) (input : Content) : Report :=
  options.runSources (contents files input options.sources)

end Options

end Entailment
