import Entailment.Failure
import Entailment.Formula

/-!
# Valuation

The value of a formula under values for some of the names.  Both sides of a connective are always
valued, the left one first, so a missing value is reported for the first atom that lacks one.

## Main statement

`Formula.value_eq`: the value is the truth of the formula, or the first occurrence without a value.
-/

namespace Entailment

namespace Formula

/-- The value under `values`, or the first atom without one. -/
def value (values : Valuation) : Formula → Except Failure Bool
  | atom name =>
    match values[name]? with
    | some value => .ok value
    | none => .error (.unbound name)
  | negation body => do
    return !(← body.value values)
  | binary connective left right => do
    let leftValue ← left.value values
    let rightValue ← right.value values
    return connective.apply leftValue rightValue

/-- The first occurrence to which `values` gives nothing. -/
def firstUnbound? (values : Valuation) (formula : Formula) : Option String :=
  formula.occurrences.find? fun name => values[name]?.isNone

theorem value_eq (values : Valuation) (formula : Formula) :
    formula.value values =
      match formula.firstUnbound? values with
      | some name => .error (.unbound name)
      | none => .ok (formula.truth fun name => values[name]?.getD false) := by
  induction formula with
  | atom name =>
    cases h : values[name]? <;> simp [value, firstUnbound?, occurrences, truth, h]
  | negation body ih =>
    have same : (negation body).firstUnbound? values = body.firstUnbound? values := rfl
    rw [value, ih, same]
    cases body.firstUnbound? values <;> rfl
  | binary connective left right ihl ihr =>
    have split : (binary connective left right).firstUnbound? values =
        (left.firstUnbound? values).or (right.firstUnbound? values) := by
      simp [firstUnbound?, occurrences]
    rw [value, ihl, ihr, split]
    cases left.firstUnbound? values <;> cases right.firstUnbound? values <;> rfl

end Formula

end Entailment
