import Entailment.Argument.Verdict
import Entailment.Proofs.TruthTable.Rows

/-!
# Validity

The walk through the truth table of a refutation decides entailment: an argument is found valid just
if its premises entail its conclusion, over the assignments to all names whatever.  The table has one
column for each atom that the argument mentions, and that number alone can stand in the way.

Main statement: `Argument.isValid_decides_entailment`.
-/

namespace Entailment

namespace Argument

/-- The formulas that an assignment has to make true at once to refute the argument. -/
def refutation (premises : List Formula) (conclusion : Formula) : List Formula :=
  .negation conclusion :: premises

theorem mentioned_refutation (premises : List Formula) (conclusion : Formula) :
    Formula.mentioned (refutation premises conclusion) =
      Formula.mentioned (premises ++ [conclusion]) := by
  ext name
  rw [Formula.mem_mentioned, Formula.mem_mentioned]
  simp only [refutation, List.mem_cons, List.mem_append, List.not_mem_nil, or_false,
    or_and_right, exists_or, exists_eq_left]
  exact or_comm

/-- Whether no formula of a refutation fails under an assignment. -/
def refutes (premises : List Formula) (conclusion : Formula) (assignment : String → Bool) : Bool :=
  (refutation premises conclusion).all fun formula => formula.truth assignment

theorem refutes_iff {premises : List Formula} {conclusion : Formula}
    {assignment : String → Bool} :
    refutes premises conclusion assignment = true ↔
      (∀ premise ∈ premises, premise.Holds assignment) ∧ ¬ conclusion.Holds assignment := by
  rw [refutes, refutation, List.all_cons, Bool.and_eq_true, List.all_eq_true, and_comm]
  simp only [Formula.truth_eq_true_iff, Formula.Holds]

theorem isValid_of_none {argument : Argument} (h : argument.conclusion = none) :
    argument.isValid = .error (.unsupported .validity) := by
  rw [isValid, h]
  rfl

theorem isValid_of_some {argument : Argument} {conclusion : Formula}
    (h : argument.conclusion = some conclusion) :
    argument.isValid =
      TruthTable.ofFormulas (refutation argument.premises conclusion) >>= TruthTable.all fun row =>
        (! ·) <$> (refutation argument.premises conclusion).allM fun formula =>
          formula.value row := by
  rw [isValid, h]
  rfl

/-- A row refutes the argument just if the assignment it is a part of does. -/
theorem value_refutation {premises : List Formula} {conclusion : Formula} {row : Valuation}
    {assignment : String → Bool}
    (agree : ∀ formula ∈ refutation premises conclusion, ∀ name ∈ formula.occurrences,
      row[name]? = some (assignment name)) :
    ((! ·) <$> (refutation premises conclusion).allM fun formula => formula.value row) =
      .ok (!refutes premises conclusion assignment) := by
  have valued : ∀ formula ∈ refutation premises conclusion,
      formula.value row = .ok (formula.truth assignment) :=
    fun formula hf => Formula.value_eq_truth (agree formula hf)
  rw [allM_eq_ok valued]
  rfl

/-- The walk meets a refuting row just if some assignment refutes the argument. -/
theorem exists_isValid_eq {argument : Argument} {conclusion : Formula}
    (h : argument.conclusion = some conclusion)
    (few : (Formula.mentioned (refutation argument.premises conclusion)).card ≤
      TruthTable.maxVariables) :
    ∃ answer, argument.isValid = .ok answer ∧
      (answer = true ↔
        ∀ assignment, (!refutes argument.premises conclusion assignment) = true) := by
  rw [isValid_of_some h]
  exact TruthTable.all_ofFormulas (List.cons_ne_nil _ _) few fun row assignment agree =>
    value_refutation agree

/-- An argument of at most 63 atoms is answered, and found valid just if its premises entail its
conclusion; otherwise some assignment makes its premises true and its conclusion false. -/
theorem isValid_decides_entailment (argument : Argument) :
    match argument.conclusion with
    | none => argument.isValid = .error (.unsupported .validity)
    | some conclusion =>
      if (Formula.mentioned (argument.premises ++ [conclusion])).card ≤ 63 then
        ∃ answer, argument.isValid = .ok answer ∧
          (answer = true ↔ Formula.Entails argument.premises conclusion) ∧
          (answer = false ↔ ∃ assignment,
            (∀ premise ∈ argument.premises, premise.Holds assignment) ∧
              ¬ conclusion.Holds assignment)
      else
        argument.isValid = .error (.tooManyVariables
          (Formula.mentioned (argument.premises ++ [conclusion])).card 63) := by
  cases h : argument.conclusion with
  | none => exact isValid_of_none h
  | some conclusion =>
    dsimp only
    rw [← mentioned_refutation]
    split
    · next few =>
      obtain ⟨answer, found, sound⟩ := exists_isValid_eq h few
      simp only [Bool.not_eq_true', ← Bool.not_eq_true, refutes_iff] at sound
      refine ⟨answer, found, ?_, ?_⟩
      · rw [sound]
        simp only [Formula.Entails, not_and, not_not]
      · rw [← Bool.not_eq_true, sound]
        simp only [not_forall, not_not]
    · next few =>
      have many : (Formula.mentioned (refutation argument.premises conclusion)).card >
          TruthTable.maxVariables := Nat.lt_of_not_le few
      rw [isValid_of_some h, TruthTable.ofFormulas_eq, if_pos many]
      rfl

end Argument

end Entailment
