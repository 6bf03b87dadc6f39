import Entailment.Proofs.Argument.Tautology
import Entailment.Proofs.Argument.Validity

/-!
# Deduction

An argument is valid just if its corresponding conditional is a tautology.  The two walks are over
different formulas and stop at opposite rows, but their tables have the same columns, so that one
is refused where the other is, with the same number of atoms.

Main statement: `Argument.isValid_eq_isTautology`.
-/

namespace Entailment

namespace Formula

/-- The formula that says of an argument that it is valid: from the first premise to the
conditional of the others, and in the end to the conclusion. -/
def correspondingConditional (premises : List Formula) (conclusion : Formula) : Formula :=
  premises.foldr (binary .conditional) conclusion

theorem holds_correspondingConditional {premises : List Formula} {conclusion : Formula}
    {assignment : String → Bool} :
    (correspondingConditional premises conclusion).Holds assignment ↔
      ((∀ premise ∈ premises, premise.Holds assignment) → conclusion.Holds assignment) := by
  induction premises with
  | nil => simp [correspondingConditional]
  | cons premise others ih =>
    have step : (correspondingConditional (premise :: others) conclusion).Holds assignment ↔
        (premise.Holds assignment →
          (correspondingConditional others conclusion).Holds assignment) := Iff.rfl
    rw [step, ih, List.forall_mem_cons, and_imp]

theorem occurrences_correspondingConditional (premises : List Formula) (conclusion : Formula) :
    (correspondingConditional premises conclusion).occurrences =
      (premises ++ [conclusion]).flatMap occurrences := by
  induction premises with
  | nil => simp [correspondingConditional]
  | cons premise others ih =>
    rw [List.cons_append, List.flatMap_cons, ← ih]
    rfl

theorem mentioned_correspondingConditional (premises : List Formula) (conclusion : Formula) :
    mentioned [correspondingConditional premises conclusion] =
      mentioned (premises ++ [conclusion]) := by
  rw [mentioned, mentioned, List.flatMap_singleton, occurrences_correspondingConditional]

end Formula

namespace Argument

open scoped Classical in
theorem isValid_concluded (premises : List Formula) (conclusion : Formula) :
    isValid ⟨premises, some conclusion⟩ =
      if (Formula.mentioned (premises ++ [conclusion])).card ≤ TruthTable.maxVariables then
        .ok (decide (Formula.Entails premises conclusion))
      else
        .error (.tooManyVariables (Formula.mentioned (premises ++ [conclusion])).card
          TruthTable.maxVariables) := by
  have sound : (∀ assignment, (!refutes premises conclusion assignment) = true) ↔
      Formula.Entails premises conclusion := by
    apply forall_congr'
    intro assignment
    rw [Bool.not_eq_true', ← Bool.not_eq_true, refutes_iff, not_and, not_not]
  rw [isValid_of_some rfl, ← mentioned_refutation, ← decide_eq_decide.2 sound]
  apply TruthTable.all_ofFormulas_eq (List.cons_ne_nil _ _)
  intro row assignment agree
  exact value_refutation agree

/-- Validity is found of an argument just as it is found of its corresponding conditional that it is
a tautology: both have the same answer, or are refused for the same number of atoms. -/
theorem isValid_eq_isTautology (premises : List Formula) (conclusion : Formula) :
    isValid ⟨premises, some conclusion⟩ =
      isTautology ⟨[Formula.correspondingConditional premises conclusion], none⟩ ∧
    ((∃ answer, isValid ⟨premises, some conclusion⟩ = .ok answer) ∨
      ∃ count, isValid ⟨premises, some conclusion⟩ = .error (.tooManyVariables count 63)) := by
  classical
  have sound : (∀ assignment, (Formula.correspondingConditional premises conclusion).truth
      assignment = true) ↔ Formula.Entails premises conclusion := by
    simp only [Formula.truth_eq_true_iff, Formula.holds_correspondingConditional, Formula.Entails]
  constructor
  · rw [isValid_concluded, isTautology_single, Formula.mentioned_correspondingConditional,
      decide_eq_decide.2 sound]
  · rw [isValid_concluded]
    split
    · exact .inl ⟨_, rfl⟩
    · exact .inr ⟨_, rfl⟩

end Argument

end Entailment
