import Entailment.Argument.Reading
import Entailment.Statement

/-!
# Reading statements

The first token of a line decides what the rest of the line has to be.
-/

namespace Entailment

namespace Statement

/-- Reads what has to follow the first lexeme of a line. -/
def readBehind (head : Lexeme) : Read Statement :=
  match head.token with
  | .print => do
    match ← Read.next? with
    | none => return .print ""
    | some lexeme =>
      match lexeme.token with
      | .text content => return .print content
      | _ => .reject lexeme
  | .atom name => do
    let verb ← .any
    let object ← .any
    match verb.token, object.token with
    | .assign, .truth value => return .assign name value
    | .is, .text text => return .describe name text
    | .assign, _ | .is, _ => .reject object
    | _, _ => .reject verb
  | .argument => do
    let id ← .identifier
    let _ ← .expect .assign
    return .declare id (← Argument.read)
  | .query query => return .ask query (← .identifier)
  | _ => .reject head

/-- Reads a whole line, `none` if it has no lexemes. -/
def read : Read (Option Statement) := do
  match ← Read.next? with
  | none => return none
  | some head =>
    let statement ← readBehind head
    Read.finish
    return some statement

end Statement

/-- The statement of a line, `none` if it has no lexemes. -/
def Line.statement? (line : Line) : Except Failure (Option Statement) :=
  (Statement.read.run (.ofLine line)).1

end Entailment
