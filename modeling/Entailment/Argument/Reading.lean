import Entailment.Argument
import Entailment.Formula.Reading

/-!
# Reading arguments

An argument takes up the rest of a line: premises with commas anywhere between them, then possibly
`∴`, a conclusion and one closing bracket.

## Main statements

`Argument.readFrom_nil` and `Argument.readFrom_cons` say how the next lexeme continues an argument.
-/

namespace Entailment

namespace Argument

/-- What may stand behind the conclusion: nothing, or one closing bracket. -/
def closeFrom (line : String) (argument : Argument) :
    List Lexeme → Except Failure Argument × List Lexeme
  | [] => (.ok argument, [])
  | head :: rest =>
    if head.token = .rightParenthesis then
      match rest with
      | [] => (.ok argument, [])
      | extra :: _ => (.error (extra.unexpected line), rest)
    else
      (.error (head.unexpected line), if head.token.endsFormula then rest else head :: rest)

/-- Reads the premises that are left and the conclusion, behind the premises that `argument` has. -/
def readFrom (line : String) (argument : Argument) (lexemes : List Lexeme) :
    Except Failure Argument × List Lexeme :=
  match lexemes with
  | [] => (.ok argument, [])
  | head :: rest =>
    match head.token with
    | .comma => readFrom line argument rest
    | .therefore =>
      match Formula.readFrom line rest with
      | .stuck failure rest => (.error failure, rest)
      | .done conclusion rest _ => closeFrom line (argument.conclude conclusion) rest
    | .rightParenthesis => (.error (head.unexpected line), rest)
    | _ =>
      match Formula.readFrom line (head :: rest) with
      | .stuck failure rest => (.error failure, rest)
      | .done premise rest _ => readFrom line (argument.addPremise premise) rest
termination_by lexemes.length
decreasing_by all_goals simp only [List.length_cons] at *; omega

theorem readFrom_nil (line : String) (argument : Argument) :
    readFrom line argument [] = (.ok argument, []) := by
  rw [readFrom]

theorem readFrom_cons (line : String) (argument : Argument) (head : Lexeme)
    (rest : List Lexeme) :
    readFrom line argument (head :: rest) =
      match head.token with
      | .comma => readFrom line argument rest
      | .therefore =>
        match Formula.take line rest with
        | (.error failure, rest) => (.error failure, rest)
        | (.ok conclusion, rest) => closeFrom line (argument.conclude conclusion) rest
      | .rightParenthesis => (.error (head.unexpected line), rest)
      | _ =>
        match Formula.take line (head :: rest) with
        | (.error failure, rest) => (.error failure, rest)
        | (.ok premise, rest) => readFrom line (argument.addPremise premise) rest := by
  rw [readFrom]
  unfold Formula.take
  split
  · rfl
  · cases Formula.readFrom line rest <;> rfl
  · rfl
  · cases Formula.readFrom line (head :: rest) <;> rfl

/-- Reads the argument that takes up the rest of the line. -/
def read : Read Argument := .ofStep fun line pending => readFrom line {} pending

end Argument

end Entailment
