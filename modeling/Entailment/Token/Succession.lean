import Entailment.Token

/-!
# Succession of tokens

Which kinds of token may open a line, follow one another, or end a line.
-/

namespace Entailment

namespace Kind

def formulaStarts : List Kind := [atom, leftParenthesis, not]

def lineStarts : List Kind :=
  [atom, not, argument, query .tautology, query .validity, query .value, print]

/-- The kinds that may directly follow a kind. -/
def followers : Kind → List Kind
  | atom => [connective .conjunction, assign, comma, connective .conditional, is,
      connective .disjunction, rightParenthesis, therefore]
  | identifier => [assign]
  | argument | query _ => [identifier]
  | is | print => [text]
  | assign => [truth true, truth false, atom, leftParenthesis, not]
  | not | connective _ | therefore | comma | leftParenthesis => formulaStarts
  | rightParenthesis => [connective .conjunction, connective .conditional, comma,
      connective .disjunction, rightParenthesis, therefore]
  | text | truth _ => []

def allows (kind next : Kind) : Bool := decide (next ∈ kind.followers)

def startsLine (kind : Kind) : Bool := decide (kind ∈ lineStarts)

/-- Whether a kind announces something that has to follow it. -/
def announces : Kind → Bool
  | assign | is | not | connective _ | therefore | comma | leftParenthesis | argument | query _ =>
    true
  | _ => false

/-- Whether a line with these kinds, the last one first, must go on: behind what announces
something, behind an atom that stands alone, and behind the name of an argument being declared. -/
def expectsMore : List Kind → Bool
  | [] => false
  | [atom] => true
  | identifier :: argument :: _ => true
  | kind :: _ => kind.announces

end Kind

end Entailment
