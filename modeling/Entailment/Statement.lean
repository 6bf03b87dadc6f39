import Entailment.Argument
import Entailment.Query

/-!
# Statements

What a line of a program can say.
-/

namespace Entailment

inductive Statement where
  /-- Gives an atom a value. -/
  | assign (name : String) (value : Bool)
  /-- Says in words what an atom stands for. -/
  | describe (name text : String)
  /-- Gives an argument a name. -/
  | declare (id : String) (argument : Argument)
  /-- Asks a question about a declared argument. -/
  | ask (query : Query) (id : String)
  /-- Shows a text. -/
  | print (text : String)
  deriving DecidableEq

end Entailment
