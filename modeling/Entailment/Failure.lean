import Entailment.Query

/-!
# Failures

What can go wrong between the text of a line and its effect, with the message for each cause.
Positions count characters from zero.
-/

namespace Entailment

inductive Failure where
  /-- A character that neither starts nor continues a token. -/
  | character (character : Char) (position : Nat) (line : String)
  /-- A symbol in a place where the line cannot have it. -/
  | symbol (spelling : String) (position : Nat) (line : String)
  /-- A line that stops before it is complete. -/
  | endOfLine (line : String)
  /-- A line whose tokens ran out where any token would have done. -/
  | exhausted (line : String)
  /-- An atom without a value. -/
  | unbound (name : String)
  /-- A question about an argument that was never declared. -/
  | undeclared (name : String)
  /-- A question that the shape of the argument does not admit. -/
  | unsupported (query : Query)
  /-- More distinct atoms than may be enumerated. -/
  | tooManyVariables (count limit : Nat)
  deriving DecidableEq

/-- One action behind another succeeds just if both do. -/
theorem bind_eq_ok_iff {ε α β : Type} {first : Except ε α} {next : α → Except ε β} {result : β} :
    (first >>= next) = .ok result ↔ ∃ value, first = .ok value ∧ next value = .ok result := by
  cases first <;> simp [bind, Except.bind]

def Failure.message : Failure → String
  | character c position line =>
    "Unexpected character '" ++ toString c ++ "' at position " ++ toString position ++
      " of line '" ++ line ++ "'"
  | symbol spelling position line =>
    "Unexpected symbol '" ++ spelling ++ "' at position " ++ toString position ++
      " of line '" ++ line ++ "'"
  | endOfLine line => "Unexpected end of line at line '" ++ line ++ "'"
  | exhausted line => "Failed to parse line '" ++ line ++ "'"
  | unbound name => "Missing symbol '" ++ name ++ "'"
  | undeclared name => "Unknown argument '" ++ name ++ "'"
  | unsupported query => "Unsupported operation: " ++ query.refusal
  | tooManyVariables count limit =>
    "Too many variables to enumerate: " ++ toString count ++ " (limit " ++ toString limit ++ ")"

end Entailment
