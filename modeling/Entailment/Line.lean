import Entailment.Line.Layout
import Entailment.Text.Blank
import Entailment.Text.Lines

/-!
# Lines and programs

A line with its lexemes, and a program as the lines of its source that hold any.
-/

namespace Entailment

structure Line where
  text : String
  lexemes : List Lexeme
  deriving DecidableEq

namespace Line

/-- Whether a line holds nothing but white space, or a comment behind it. -/
def isRemark (text : String) : Bool :=
  match Text.trimLeft text.toList with
  | [] => true
  | '/' :: '/' :: _ => true
  | _ => false

/-- Reads a line.  Its characters are all looked at before any of its symbols is. -/
def ofText (text : String) : Except Failure Line := do
  if isRemark text then return ⟨text, []⟩
  let lexemes ← Lexeme.scan text
  Layout.check text lexemes
  return ⟨text, lexemes⟩

def tokens (line : Line) : List Token := line.lexemes.map Lexeme.token

end Line

/-- The lines of a source text that hold lexemes, or the failure of its first unreadable line. -/
def Line.program (source : String) : Except Failure (List Line) := do
  let lines ← (Text.lines source).mapM Line.ofText
  return lines.filter fun line => !line.lexemes.isEmpty

end Entailment
