import Entailment.Argument
import Entailment.Formula.Valuation
import Entailment.TruthTable

/-!
# Verdicts on arguments

Whether an argument is a tautology, whether it is valid, and whether it holds under given values.
The first two walk through a truth table and stop at the first row that decides.
-/

namespace Entailment

namespace Argument

/-- Whether the formula that the argument stands for is true in every row of its table. -/
def isTautology (argument : Argument) : Except Failure Bool := do
  match argument.formula? with
  | none => throw (.unsupported .tautology)
  | some formula =>
    let table ← TruthTable.ofFormulas [formula]
    table.all fun row => formula.value row

/-- Whether no row makes every premise true and the conclusion false. -/
def isValid (argument : Argument) : Except Failure Bool := do
  match argument.conclusion with
  | none => throw (.unsupported .validity)
  | some conclusion =>
    let refutation := .negation conclusion :: argument.premises
    let table ← TruthTable.ofFormulas refutation
    table.all fun row => return !(← refutation.allM fun formula => formula.value row)

/-- Whether premises and conclusion are true under `values`.  Premises are valued up to the first
false one, the conclusion always. -/
def value (values : Valuation) (argument : Argument) : Except Failure Bool := do
  match argument.conclusion with
  | none => throw (.unsupported .value)
  | some conclusion =>
    let premisesHold ← argument.premises.allM fun premise => premise.value values
    let conclusionHolds ← conclusion.value values
    return conclusionHolds && premisesHold

def answer (values : Valuation) (argument : Argument) : Query → Except Failure Bool
  | .tautology => argument.isTautology
  | .validity => argument.isValid
  | .value => argument.value values

/-- The formulas whose atoms a question enumerates. -/
def enumerated (argument : Argument) : Query → List Formula
  | .tautology => argument.premises
  | .validity => argument.formulas
  | .value => []

end Argument

end Entailment
