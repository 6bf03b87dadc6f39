import Entailment.Argument.Verdict
import Entailment.Proofs.TruthTable.Rows

/-!
# Tautologies

The walk through the truth table of a single formula decides whether it is true under every
assignment to all names.  The table has a column for each atom of the formula, also when no
assignment makes the formula true, and the number of these alone can stand in the way.

Main statement: `Argument.isTautology_decides_truth`.
-/

namespace Entailment

namespace Argument

theorem formula?_eq_none_iff {argument : Argument} :
    argument.formula? = none ↔ argument.conclusion ≠ none ∨ argument.premises.length ≠ 1 := by
  rcases argument with ⟨_ | ⟨first, _ | ⟨second, others⟩⟩, _ | conclusion⟩ <;> simp [formula?]

theorem isTautology_of_formula?_none {argument : Argument} (h : argument.formula? = none) :
    argument.isTautology = .error (.unsupported .tautology) := by
  rw [isTautology, h]
  rfl

theorem isTautology_of_formula?_some {argument : Argument} {formula : Formula}
    (h : argument.formula? = some formula) :
    argument.isTautology =
      TruthTable.ofFormulas [formula] >>= TruthTable.all fun row => formula.value row := by
  rw [isTautology, h]

open scoped Classical in
theorem isTautology_single (formula : Formula) :
    isTautology ⟨[formula], none⟩ =
      if (Formula.mentioned [formula]).card ≤ TruthTable.maxVariables then
        .ok (decide (∀ assignment, formula.truth assignment = true))
      else
        .error (.tooManyVariables (Formula.mentioned [formula]).card TruthTable.maxVariables) := by
  rw [isTautology_of_formula?_some rfl]
  apply TruthTable.all_ofFormulas_eq (List.cons_ne_nil _ _)
  intro row assignment agree
  exact Formula.value_eq_truth (agree formula (List.mem_singleton_self _))

theorem isTautology_eq_unsupported_iff {argument : Argument} :
    argument.isTautology = .error (.unsupported .tautology) ↔ argument.formula? = none := by
  constructor
  · intro refused
    cases single : argument.formula? with
    | none => rfl
    | some formula =>
      obtain rfl := formula?_eq_some_iff.1 single
      rw [isTautology_single] at refused
      split at refused <;> cases refused
  · exact isTautology_of_formula?_none

/-- Only an argument that is one formula is checked at all.  A formula of more than 63 atoms is
refused, with the number of its atoms, and any other is answered: it is found to be a tautology just
if it is true under every assignment. -/
theorem isTautology_decides_truth :
    (∀ argument : Argument, argument.isTautology = .error (.unsupported .tautology) ↔
      argument.conclusion ≠ none ∨ argument.premises.length ≠ 1) ∧
    ∀ formula : Formula,
      (∀ count, isTautology ⟨[formula], none⟩ = .error (.tooManyVariables count 63) ↔
        (Formula.mentioned [formula]).card = count ∧ count > 63) ∧
      ((Formula.mentioned [formula]).card ≤ 63 →
        ∃ answer, isTautology ⟨[formula], none⟩ = .ok answer ∧
          (answer = true ↔ ∀ assignment, formula.Holds assignment)) := by
  refine ⟨fun argument => isTautology_eq_unsupported_iff.trans formula?_eq_none_iff, ?_⟩
  intro formula
  rw [isTautology_single, TruthTable.maxVariables]
  by_cases few : (Formula.mentioned [formula]).card ≤ 63
  · rw [if_pos few]
    refine ⟨fun count => ⟨nofun, ?_⟩, fun _ => ⟨_, rfl, ?_⟩⟩
    · rintro ⟨rfl, many⟩
      omega
    · simp only [decide_eq_true_eq, Formula.truth_eq_true_iff]
  · rw [if_neg few]
    refine ⟨fun count => ⟨?_, ?_⟩, fun within => absurd within few⟩
    · rintro ⟨⟩
      exact ⟨rfl, Nat.lt_of_not_le few⟩
    · rintro ⟨rfl, -⟩
      rfl

end Argument

end Entailment
