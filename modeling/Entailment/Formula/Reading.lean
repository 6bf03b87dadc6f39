import Entailment.Line.Reader

/-!
# Reading formulas

A formula is an atom, a negated formula, or two formulas in brackets with a token between them; any
token may stand there.

## Main statements

`Formula.take_nil` and `Formula.take_cons` say what is read off the front of a line, token by token,
and what is left when that fails.
-/

namespace Entailment

/-- What comes of reading something off the front of `lexemes`: its value with the lexemes behind
it, or a failure with those that were not consumed. -/
inductive Reading (α : Type) (lexemes : List Lexeme) where
  | done (value : α) (rest : List Lexeme) (shorter : rest.length < lexemes.length)
  | stuck (failure : Failure) (rest : List Lexeme)

def Reading.outcome {α : Type} {lexemes : List Lexeme} :
    Reading α lexemes → Except Failure α × List Lexeme
  | done value rest _ => (.ok value, rest)
  | stuck failure rest => (.error failure, rest)

namespace Formula

/-- The failure of a line that stops where a formula is due: an empty symbol at its end. -/
def due (line : String) : Failure := .symbol "" line.length line

/-- Reads a formula, which has to be there, off the front of `lexemes`.  A boundary in its place is
not consumed. -/
def readFrom (line : String) (lexemes : List Lexeme) : Reading Formula lexemes :=
  match lexemes with
  | [] => .stuck (due line) []
  | head :: rest =>
    match head.token with
    | .atom name => .done (.atom name) rest (Nat.lt_succ_self _)
    | .not =>
      match readFrom line rest with
      | .stuck failure rest => .stuck failure rest
      | .done body rest shorter => .done (.negation body) rest (Nat.lt_succ_of_lt shorter)
    | .leftParenthesis =>
      match readFrom line rest with
      | .stuck failure rest => .stuck failure rest
      | .done _ [] _ => .stuck (.exhausted line) []
      | .done left (operator :: rest) shorter =>
        match readFrom line rest with
        | .stuck failure rest => .stuck failure rest
        | .done _ [] _ => .stuck (.exhausted line) []
        | .done right (closing :: rest) shorterStill =>
          if closing.token = .rightParenthesis then
            .done (.binary operator.token.asConnective left right) rest <|
              Nat.lt_succ_of_lt (Nat.lt_trans (Nat.lt_of_succ_lt shorterStill)
                (Nat.lt_of_succ_lt shorter))
          else .stuck (closing.unexpected line) rest
    | token =>
      .stuck (head.unexpected line) (if token.endsFormula then head :: rest else rest)
termination_by lexemes.length
decreasing_by all_goals simp only [List.length_cons] at *; omega

/-- The formula at the front of `lexemes`, or why there is none, and the lexemes left over. -/
def take (line : String) (lexemes : List Lexeme) : Except Failure Formula × List Lexeme :=
  (readFrom line lexemes).outcome

theorem take_nil (line : String) : take line [] = (.error (due line), []) := by
  rw [take, readFrom, Reading.outcome]

theorem take_cons (line : String) (head : Lexeme) (rest : List Lexeme) :
    take line (head :: rest) =
      match head.token with
      | .atom name => (.ok (.atom name), rest)
      | .not =>
        match take line rest with
        | (.error failure, rest) => (.error failure, rest)
        | (.ok body, rest) => (.ok (.negation body), rest)
      | .leftParenthesis =>
        match take line rest with
        | (.error failure, rest) => (.error failure, rest)
        | (.ok _, []) => (.error (.exhausted line), [])
        | (.ok left, operator :: rest) =>
          match take line rest with
          | (.error failure, rest) => (.error failure, rest)
          | (.ok _, []) => (.error (.exhausted line), [])
          | (.ok right, closing :: rest) =>
            if closing.token = .rightParenthesis then
              (.ok (.binary operator.token.asConnective left right), rest)
            else (.error (closing.unexpected line), rest)
      | token =>
        (.error (head.unexpected line), if token.endsFormula then head :: rest else rest) := by
  unfold take
  rw [readFrom]
  split
  · rfl
  · cases readFrom line rest <;> rfl
  · rcases readFrom line rest with ⟨left, _ | ⟨operator, behind⟩, shorter⟩ | ⟨failure, rest⟩
    · rfl
    · dsimp only [Reading.outcome]
      rcases readFrom line behind with ⟨right, _ | ⟨closing, last⟩, shorter⟩ | ⟨failure, rest⟩
      · rfl
      · by_cases closed : closing.token = .rightParenthesis
        · simp only [if_pos closed]
        · simp only [if_neg closed]
      · rfl
    · rfl
  · rfl

theorem take_eq_ok_iff {line : String} {lexemes rest : List Lexeme} {formula : Formula} :
    take line lexemes = (.ok formula, rest) ↔
      ∃ shorter, readFrom line lexemes = .done formula rest shorter := by
  unfold take
  rcases readFrom line lexemes with ⟨value, behind, shorter⟩ | ⟨failure, behind⟩
  · simp only [Reading.outcome, Prod.mk.injEq, Except.ok.injEq, Reading.done.injEq]
    constructor
    · rintro ⟨rfl, rfl⟩
      exact ⟨shorter, rfl, rfl⟩
    · rintro ⟨_, rfl, rfl⟩
      exact ⟨rfl, rfl⟩
  · simp [Reading.outcome]

def required : Read Formula := .ofStep take

/-- Reads a formula, or nothing at a boundary and at the end of the line. -/
def optional : Read (Option Formula) := do
  match ← Read.peek with
  | none => return none
  | some lexeme => if lexeme.token.endsFormula then return none else return some (← required)

end Formula

end Entailment
