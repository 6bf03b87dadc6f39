import Entailment.Proofs.Argument.Tautology
import Entailment.Proofs.Argument.Validity
import Entailment.Proofs.Session.Limits

/-!
# The limit counts columns

The names that a limit is compared with are found by walking through formulas, and those of the
table that is then read by deriving their conditions of truth.  Both are the atoms that occur, and
it makes no difference which of the formulas are negated: so the number that a limit refuses is the
number of columns that the table would have had.

* `Session.checkLimit_eq_refusal`: a limit is compared with the number of columns.
* `Formula.columnNames_of_negated`: negating formulas leaves the columns as they are.

Main statement: `Session.checkLimit_counts_columns`.
-/

namespace Entailment

namespace Formula

/-- The second formula is the first one, or its negation. -/
def MaybeNegated (formula other : Formula) : Prop := other = formula ∨ other = .negation formula

theorem MaybeNegated.occurrences {formula other : Formula} (h : formula.MaybeNegated other) :
    other.occurrences = formula.occurrences := by
  rcases h with rfl | rfl
  · rfl
  · rfl

theorem map_names_of_negated {formulas others : List Formula}
    (h : List.Forall₂ MaybeNegated formulas others) : others.map names = formulas.map names := by
  induction h with
  | nil => rfl
  | cons negated _ ih => rw [List.map_cons, List.map_cons, ih, names, names, negated.occurrences]

theorem columnNames_of_negated {formulas others : List Formula}
    (h : List.Forall₂ MaybeNegated formulas others) :
    TruthTable.columnNames others = TruthTable.columnNames formulas := by
  rw [TruthTable.columnNames_eq_names, TruthTable.columnNames_eq_names, map_names_of_negated h]

end Formula

namespace Session

open TruthTable (columnNames columnNames_eq_names)

/-- What a limit makes of a number of atoms. -/
def refusal (bound count : Nat) : Except Failure Unit :=
  if count > bound then .error (.tooManyVariables count bound) else .ok ()

theorem checkLimit_eq_refusal (session : Session) (bound : Nat) (formulas : List Formula) :
    checkLimit { session with limit := some bound } formulas =
      refusal bound (columnNames formulas).size := by
  rw [columnNames_eq_names]
  exact checkLimit_of_some rfl formulas

theorem columnNames_refutation (premises : List Formula) (conclusion : Formula) :
    columnNames (premises ++ [conclusion]) =
      columnNames (Argument.refutation premises conclusion) := by
  apply Std.ExtTreeSet.ext_mem
  intro name
  rw [columnNames_eq_names, columnNames_eq_names, Formula.mem_union_names, Formula.mem_union_names,
    Argument.mentioned_refutation]

/-- The names found by a walk through formulas are those of the table over them, and both are the
atoms that occur, whichever of the formulas are negated.  So the limit compares, and reports, the
number of columns of the table that the question goes through: for validity the table over the
premises and the negated conclusion, for a tautology the table over the only formula. -/
theorem checkLimit_counts_columns :
    (∀ formulas : List Formula,
      TruthTable.ofFormulas formulas = TruthTable.ofNames (columnNames formulas) ∧
      (∀ table, TruthTable.ofFormulas formulas = .ok table →
        table.columns = (columnNames formulas).toList) ∧
      Names.union (formulas.map Formula.names) = columnNames formulas ∧
      (∀ name, name ∈ columnNames formulas ↔
        ∃ formula ∈ formulas, name ∈ formula.occurrences) ∧
      ∀ others, List.Forall₂ Formula.MaybeNegated formulas others →
        Names.union (others.map Formula.names) = Names.union (formulas.map Formula.names) ∧
        columnNames others = columnNames formulas) ∧
    ∀ (session : Session) (bound : Nat),
      (∀ premises conclusion,
        checkLimit { session with limit := some bound }
            (Argument.enumerated ⟨premises, some conclusion⟩ .validity) =
          refusal bound (columnNames (.negation conclusion :: premises)).size ∧
        Argument.isValid ⟨premises, some conclusion⟩ =
          TruthTable.ofFormulas (.negation conclusion :: premises) >>= TruthTable.all fun row =>
            (! ·) <$> (Formula.negation conclusion :: premises).allM (Formula.value row)) ∧
      ∀ formula,
        checkLimit { session with limit := some bound }
            (Argument.enumerated ⟨[formula], none⟩ .tautology) =
          refusal bound (columnNames [formula]).size ∧
        Argument.isTautology ⟨[formula], none⟩ =
          TruthTable.ofFormulas [formula] >>= TruthTable.all formula.value := by
  constructor
  · intro formulas
    have columns : ∀ table, TruthTable.ofFormulas formulas = .ok table →
        table.columns = (columnNames formulas).toList := by
      intro table built
      obtain ⟨-, rfl⟩ := TruthTable.ofNames_eq_ok_iff.1 built
      rfl
    refine ⟨TruthTable.ofFormulas_eq_ofNames formulas, columns,
      (columnNames_eq_names formulas).symm, fun name => TruthTable.mem_columnNames, ?_⟩
    intro others negated
    exact ⟨by rw [Formula.map_names_of_negated negated], Formula.columnNames_of_negated negated⟩
  · intro session bound
    constructor
    · intro premises conclusion
      have enumerated : Argument.enumerated ⟨premises, some conclusion⟩ .validity =
          premises ++ [conclusion] := rfl
      rw [enumerated, checkLimit_eq_refusal, columnNames_refutation]
      exact ⟨rfl, Argument.isValid_of_some rfl⟩
    · intro formula
      exact ⟨checkLimit_eq_refusal session bound [formula],
        Argument.isTautology_of_formula?_some rfl⟩

/-- A contradiction has no row in which it is true, and yet all its atoms count. -/
example : checkLimit { limit := some 1 }
    [.binary .conjunction (.binary .conjunction (.atom "P") (.negation (.atom "P"))) (.atom "Q")] =
      .error (.tooManyVariables 2 1) := by
  decide +kernel

end Session

end Entailment
