import Entailment.Formula

/-!
# Arguments

Premises with or without a conclusion.  A single premise without conclusion stands for that formula
alone.
-/

namespace Entailment

/-- Premises in order, and what is concluded from them. -/
structure Argument where
  premises : List Formula := []
  conclusion : Option Formula := none
  deriving DecidableEq

namespace Argument

/-- The argument with one more premise, behind the others. -/
def addPremise (argument : Argument) (premise : Formula) : Argument :=
  { argument with premises := argument.premises ++ [premise] }

/-- The argument with the given conclusion in place of any earlier one. -/
def conclude (argument : Argument) (conclusion : Formula) : Argument :=
  { argument with conclusion := some conclusion }

def hasConclusion (argument : Argument) : Bool := argument.conclusion.isSome

/-- The formula that an argument stands for: its only premise, when nothing is concluded. -/
def formula? : Argument → Option Formula
  | ⟨[premise], none⟩ => some premise
  | _ => none

/-- Premises and conclusion in the order in which they are written. -/
def formulas (argument : Argument) : List Formula :=
  argument.premises ++ argument.conclusion.toList

def render (argument : Argument) : String :=
  let premises := String.intercalate ", " (argument.premises.map Formula.render)
  match argument.conclusion with
  | none => premises
  | some conclusion => premises ++ " ∴ " ++ conclusion.render

theorem formula?_eq_some_iff {argument : Argument} {formula : Formula} :
    argument.formula? = some formula ↔ argument = ⟨[formula], none⟩ := by
  constructor
  · intro h
    unfold formula? at h
    split at h
    · simp_all
    · cases h
  · rintro rfl
    rfl

end Argument

end Entailment
