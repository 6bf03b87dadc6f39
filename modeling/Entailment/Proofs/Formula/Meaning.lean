import Mathlib.Data.Finset.Card
import Entailment.Formula

/-!
# Meaning of formulas

Classical truth of a formula as a proposition, entailment over all assignments, and the atoms that
a list of formulas mentions between them.

* `Formula.truth_eq_true_iff`: the truth function computes classical truth.
* `Formula.size_union_names`: the atoms mentioned are counted once each.
-/

namespace Entailment

theorem Names.nodup_toList (names : Names) : names.toList.Nodup :=
  names.distinct_toList.imp fun different same => different (Std.compare_eq_iff_eq.2 same)

namespace Formula

/-- Classical truth under an assignment of a value to every name. -/
def Holds (assignment : String → Bool) : Formula → Prop
  | atom name => assignment name = true
  | negation body => ¬ body.Holds assignment
  | binary .conjunction left right => left.Holds assignment ∧ right.Holds assignment
  | binary .disjunction left right => left.Holds assignment ∨ right.Holds assignment
  | binary .conditional left right => left.Holds assignment → right.Holds assignment

theorem truth_eq_true_iff {formula : Formula} {assignment : String → Bool} :
    formula.truth assignment = true ↔ formula.Holds assignment := by
  induction formula with
  | atom name => exact Iff.rfl
  | negation body ih => rw [truth, Holds, ← ih, Bool.not_eq_true', Bool.not_eq_true]
  | binary connective left right ihl ihr =>
    cases connective with
    | conjunction => rw [truth, Holds, Connective.apply, Bool.and_eq_true, ihl, ihr]
    | disjunction => rw [truth, Holds, Connective.apply, Bool.or_eq_true, ihl, ihr]
    | conditional =>
      rw [truth, Holds, Connective.apply, ← ihl, ← ihr]
      cases left.truth assignment <;> simp

/-- The conclusion is true under every assignment that makes all premises true. -/
def Entails (premises : List Formula) (conclusion : Formula) : Prop :=
  ∀ assignment, (∀ premise ∈ premises, premise.Holds assignment) → conclusion.Holds assignment

/-- The atoms that occur in any of the formulas. -/
def mentioned (formulas : List Formula) : Finset String :=
  (formulas.flatMap occurrences).toFinset

theorem mem_mentioned {formulas : List Formula} {name : String} :
    name ∈ mentioned formulas ↔ ∃ formula ∈ formulas, name ∈ formula.occurrences := by
  rw [mentioned, List.mem_toFinset, List.mem_flatMap]

theorem mem_union_names {formulas : List Formula} {name : String} :
    name ∈ Names.union (formulas.map names) ↔ name ∈ mentioned formulas := by
  rw [Names.mem_union, mem_mentioned]
  constructor
  · rintro ⟨set, listed, h⟩
    obtain ⟨formula, hf, rfl⟩ := List.mem_map.1 listed
    exact ⟨formula, hf, mem_names.1 h⟩
  · rintro ⟨formula, hf, h⟩
    exact ⟨formula.names, List.mem_map_of_mem hf, mem_names.2 h⟩

theorem size_union_names (formulas : List Formula) :
    (Names.union (formulas.map names)).size = (mentioned formulas).card := by
  have listed : (Names.union (formulas.map names)).toList.toFinset = mentioned formulas := by
    ext name
    rw [List.mem_toFinset, Std.ExtTreeSet.mem_toList, mem_union_names]
  rw [← listed, List.toFinset_card_of_nodup (Names.nodup_toList _), Std.ExtTreeSet.length_toList]

end Formula

end Entailment
