import Entailment.Formula

/-!
# Conditions of truth and falsehood

A condition says which value each atom occurrence of a formula takes.  `Formula.conditions f value`
lists, one per entry and never twice, the conditions under which `f` takes `value`; how the two
sides of a connective may be valued for that is read off `Connective.cases`.

## Main statements

* `Connective.mem_cases`: the cases of a connective are the arguments of its truth function.
* `Formula.leaves_of_mem_conditions`: every condition of a formula values its occurrences in order.
-/

namespace Entailment

/-- The values of both sides that give a connective a wanted value, in the order in which the
conditions are listed. -/
def Connective.cases : Connective → Bool → List (Bool × Bool)
  | .conjunction, true => [(true, true)]
  | .conjunction, false => [(false, false), (false, true), (true, false)]
  | .disjunction, true => [(true, false), (false, true), (true, true)]
  | .disjunction, false => [(false, false)]
  | .conditional, true => [(false, false), (false, true), (true, true)]
  | .conditional, false => [(true, false)]

theorem Connective.mem_cases (connective : Connective) (value left right : Bool) :
    (left, right) ∈ connective.cases value ↔ connective.apply left right = value := by
  cases connective <;> cases value <;> cases left <;> cases right <;> decide

theorem Connective.nodup_cases (connective : Connective) (value : Bool) :
    (connective.cases value).Nodup := by
  cases connective <;> cases value <;> decide

/-- Values for the occurrences of the atoms of a formula, joined as the formula is. -/
inductive Condition where
  | single (name : String) (value : Bool)
  | both (left right : Condition)
  deriving DecidableEq

namespace Condition

/-- The written form: an equation, or a pair in brackets. -/
def render : Condition → String
  | single name value => name ++ "=" ++ toString value
  | both left right => "(" ++ left.render ++ ", " ++ right.render ++ ")"

/-- The single equations from left to right. -/
def leaves : Condition → List (String × Bool)
  | single name value => [(name, value)]
  | both left right => left.leaves ++ right.leaves

/-- A condition is met by values that give each of its names the value it asks for. -/
def Met (values : Valuation) (condition : Condition) : Prop :=
  ∀ leaf ∈ condition.leaves, values[leaf.1]? = some leaf.2

theorem met_both {values : Valuation} {left right : Condition} :
    (both left right).Met values ↔ left.Met values ∧ right.Met values := by
  simp only [Met, leaves, List.forall_mem_append]

/-- Every pair of a left and a right condition; the left one changes slowest. -/
def pairs (lefts rights : List Condition) : List Condition :=
  lefts.flatMap fun left => rights.map (both left)

theorem mem_pairs {lefts rights : List Condition} {condition : Condition} :
    condition ∈ pairs lefts rights ↔ ∃ l ∈ lefts, ∃ r ∈ rights, both l r = condition := by
  simp [pairs]

end Condition

namespace Formula

/-- The conditions under which a formula takes a value. -/
def conditions : Formula → Bool → List Condition
  | atom name, value => [.single name value]
  | negation body, value => body.conditions !value
  | binary connective left right, value =>
    (connective.cases value).flatMap fun sides =>
      Condition.pairs (left.conditions sides.1) (right.conditions sides.2)

theorem mem_conditions_binary {connective : Connective} {left right : Formula} {value : Bool}
    {condition : Condition} :
    condition ∈ (binary connective left right).conditions value ↔
      ∃ a b, connective.apply a b = value ∧
        ∃ l ∈ left.conditions a, ∃ r ∈ right.conditions b, Condition.both l r = condition := by
  simp only [conditions, List.mem_flatMap, Condition.mem_pairs, Prod.exists,
    Connective.mem_cases]

/-- Every condition of a formula values its occurrences, from left to right. -/
theorem leaves_of_mem_conditions {formula : Formula} {value : Bool} {condition : Condition}
    (h : condition ∈ formula.conditions value) :
    condition.leaves.map Prod.fst = formula.occurrences := by
  induction formula generalizing value condition with
  | atom name =>
    simp only [conditions, List.mem_singleton] at h
    simp [h, Condition.leaves, occurrences]
  | negation body ih => exact ih h
  | binary connective left right ihl ihr =>
    obtain ⟨a, b, -, l, hl, r, hr, rfl⟩ := mem_conditions_binary.1 h
    simp [Condition.leaves, occurrences, ihl hl, ihr hr]

/-- The names valued by the conditions of truth. -/
def conditionNames (formula : Formula) : Names :=
  .ofList ((formula.conditions true).flatMap fun condition => condition.leaves.map Prod.fst)

end Formula

end Entailment
