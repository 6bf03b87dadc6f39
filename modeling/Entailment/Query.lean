/-!
# Queries

The three questions that can be asked about a declared argument.
-/

namespace Entailment

/-- What is asked about an argument. -/
inductive Query where
  /-- Is its only formula true under every assignment? -/
  | tautology
  /-- Does its conclusion follow from its premises? -/
  | validity
  /-- Are its premises and its conclusion true under the current values? -/
  | value
  deriving DecidableEq

namespace Query

def keyword : Query → String
  | tautology => "assert"
  | validity => "validate"
  | value => "valuate"

/-- What is refused when an argument has not the shape that the question needs. -/
def refusal : Query → String
  | tautology => "tautology check needs exactly one premise and no conclusion"
  | validity => "validate an argument without conclusion"
  | value => "valuate an argument without conclusion"

end Query

end Entailment
