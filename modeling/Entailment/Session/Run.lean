import Entailment.Session
import Entailment.Statement.Reading

/-!
# Running lines and programs

A session takes single lines, or a whole program.  A program is read to its end before its first
line is executed, and it stops at the first line that fails.
-/

namespace Entailment

namespace Session

/-- Executes a line; one without lexemes does nothing. -/
def executeLine (session : Session) (line : Line) : Except Failure (Option Outcome) × Session :=
  match line.statement? with
  | .error failure => (.error failure, session)
  | .ok none => (.ok none, session)
  | .ok (some statement) =>
    let (result, after) := session.execute statement
    (result.map some, after)

/-- Reads and executes the text of a line. -/
def enter (session : Session) (text : String) : Except Failure (Option Outcome) × Session :=
  match Line.ofText text with
  | .error failure => (.error failure, session)
  | .ok line => session.executeLine line

/-- Executes lines in order up to the first that fails.  What was executed before stays. -/
def executeLines (session : Session) : List Line → Except Failure (List Outcome) × Session
  | [] => (.ok [], session)
  | line :: lines =>
    match session.executeLine line with
    | (.error failure, after) => (.error failure, after)
    | (.ok outcome, after) =>
      let (outcomes, last) := after.executeLines lines
      (outcomes.map (outcome.toList ++ ·), last)

def run (session : Session) (source : String) : Except Failure (List Outcome) × Session :=
  match Line.program source with
  | .error failure => (.error failure, session)
  | .ok lines => session.executeLines lines

end Session

end Entailment
