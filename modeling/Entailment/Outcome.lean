import Entailment.Argument
import Entailment.Query

/-!
# Outcomes

What the execution of a statement produced, and the line that is shown for it.
-/

namespace Entailment

/-- The words for the answer to a question. -/
def Query.verdict : Query → Bool → String
  | tautology, true => "a tautology"
  | tautology, false => "not a tautology"
  | validity, true => "valid"
  | validity, false => "invalid"
  | value, result => toString result

inductive Outcome where
  | printed (text : String)
  | assigned (name : String) (value : Bool)
  | described (name text : String)
  | declared (id : String) (argument : Argument)
  | answered (query : Query) (id : String) (argument : Argument) (result : Bool)
  deriving DecidableEq

/-- The line shown for an outcome: texts and answers are shown, changes are not. -/
def Outcome.shown? : Outcome → Option String
  | printed text => some text
  | answered query _ argument result =>
    some ("argument \"" ++ argument.render ++ "\" is " ++ query.verdict result)
  | _ => none

end Entailment
