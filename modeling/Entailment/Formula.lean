import Entailment.Dictionary

/-!
# Formulas

Propositional formulas over named atoms: their written form, the atoms that occur in them, and
their truth under a total assignment.

## Main statement

`Formula.truth_congr`: the truth of a formula depends on the occurring atoms only.
-/

namespace Entailment

inductive Connective where
  | conjunction
  | disjunction
  | conditional
  deriving DecidableEq

namespace Connective

/-- The truth function of a connective; a conditional is false only from true to false. -/
def apply : Connective → Bool → Bool → Bool
  | conjunction, left, right => left && right
  | disjunction, left, right => left || right
  | conditional, left, right => !left || right

def sign : Connective → String
  | conjunction => "∧"
  | disjunction => "∨"
  | conditional => "→"

end Connective

/-- A propositional formula. -/
inductive Formula where
  | atom (name : String)
  | negation (body : Formula)
  | binary (connective : Connective) (left right : Formula)
  deriving DecidableEq

namespace Formula

/-- The written form.  Every binary formula is in brackets, so no precedence is needed. -/
def render : Formula → String
  | atom name => name
  | negation body => "¬" ++ body.render
  | binary connective left right =>
    "(" ++ left.render ++ " " ++ connective.sign ++ " " ++ right.render ++ ")"

/-- The atoms from left to right, repetitions kept. -/
def occurrences : Formula → List String
  | atom name => [name]
  | negation body => body.occurrences
  | binary _ left right => left.occurrences ++ right.occurrences

def names (formula : Formula) : Names := .ofList formula.occurrences

theorem mem_names {formula : Formula} {name : String} :
    name ∈ formula.names ↔ name ∈ formula.occurrences :=
  Names.mem_ofList

theorem occurrences_ne_nil (formula : Formula) : formula.occurrences ≠ [] := by
  induction formula with
  | atom name => simp [occurrences]
  | negation body ih => exact ih
  | binary connective left right ihl ihr => simp [occurrences, ihl]

/-- Truth under an assignment of a value to every name. -/
def truth (assignment : String → Bool) : Formula → Bool
  | atom name => assignment name
  | negation body => !body.truth assignment
  | binary connective left right =>
    connective.apply (left.truth assignment) (right.truth assignment)

/-- Assignments that agree on the occurring atoms give the same truth value. -/
theorem truth_congr {formula : Formula} {σ τ : String → Bool}
    (agree : ∀ name ∈ formula.occurrences, σ name = τ name) :
    formula.truth σ = formula.truth τ := by
  induction formula with
  | atom name => exact agree name (by simp [occurrences])
  | negation body ih => simp [truth, ih agree]
  | binary connective left right ihl ihr =>
    have hl := ihl fun name h => agree name (by simp [occurrences, h])
    have hr := ihr fun name h => agree name (by simp [occurrences, h])
    simp [truth, hl, hr]

end Formula

end Entailment
