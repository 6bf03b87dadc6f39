import Entailment.Proofs.Argument.Tautology
import Entailment.Proofs.Argument.Validity
import Entailment.Proofs.Formula.Valuation
import Entailment.Proofs.Session.Steps
import Entailment.Proofs.TruthTable.Guarded

/-!
# Guarded execution

A question is answered with operations that are not always defined: words are calculated with, rows
of a truth table are taken to be complete, and the first premise of an argument is taken.  Guarded
execution meets a fault where one of them is not.  It never meets one, so it is the execution of the
session itself.

* `Formula.guardedValue_eq`: a row of a table over formulas has a value for each of them.
* `Argument.guardedTautology_eq` and `Argument.guardedValidity_eq`: the two walks meet no fault.
* `Session.guardedExecute_eq`: nor does any statement, whatever the session holds.

Main statement: `Session.guarded_never_faults`.
-/

namespace Entailment

/-- An action that gives a result, fails for a cause that is reported, or meets a fault. -/
abbrev Guarded : Type → Type := ExceptT Failure (Except Fault)

/-- The action that has met no fault. -/
def Guarded.of {α : Type} (result : Except Failure α) : Guarded α := ExceptT.mk (.ok result)

/-- Actions that have met no fault, one behind the other, have met none together. -/
theorem Guarded.bind_eq_of {α β : Type} {first : Guarded α} {result : Except Failure α}
    {next : α → Guarded β} {plain : α → Except Failure β} (start : first = .of result)
    (same : ∀ value, result = .ok value → next value = .of (plain value)) :
    (first >>= next) = .of (result >>= plain) := by
  subst start
  cases result with
  | error failure => rfl
  | ok value => exact same value rfl

/-! ## Formulas in a row -/

namespace Formula

/-- The value in a row, which is taken to have a value for each atom. -/
def guardedValue (row : Valuation) (formula : Formula) : Except Fault Bool :=
  match formula.value row with
  | .ok value => .ok value
  | .error _ => .error .incompleteRow

theorem guardedValue_eq {formula : Formula} {row : Valuation}
    (complete : ∀ name ∈ formula.occurrences, name ∈ row) :
    formula.guardedValue row = .ok (formula.truth row.assignment) := by
  rw [guardedValue, value_of_complete complete]

end Formula

namespace TruthTable

variable {formulas : List Formula}

/-- The rows of a table over formulas have a value for each of their atoms. -/
theorem mem_row_of_ofFormulas {table : TruthTable} (built : ofFormulas formulas = .ok table)
    {row : Valuation} (listed : row ∈ table.rows) :
    ∀ formula ∈ formulas, ∀ name ∈ formula.occurrences, name ∈ row := by
  intro formula mem name occurs
  obtain ⟨-, rfl⟩ := ofNames_eq_ok_iff.1 built
  rw [mem_of_mem_rows listed, Std.ExtTreeSet.mem_toList]
  exact mem_columnNames.2 ⟨formula, mem, occurs⟩

/-- The walk through the table over some formulas. -/
def guardedWalk (formulas : List Formula) (test : Valuation → Except Fault Bool) : Guarded Bool := do
  let table ← ofFormulas formulas
  table.guardedAll test

/-- A walk meets no fault if the test meets none in a row that is complete. -/
theorem guardedWalk_eq {guarded : Valuation → Except Fault Bool}
    {test : Valuation → Except Failure Bool} {verdict : Valuation → Bool}
    (same : ∀ row, (∀ formula ∈ formulas, ∀ name ∈ formula.occurrences, name ∈ row) →
      guarded row = .ok (verdict row) ∧ test row = .ok (verdict row)) :
    guardedWalk formulas guarded = .of (ofFormulas formulas >>= all test) := by
  apply Guarded.bind_eq_of rfl
  intro table built
  have ok := inRange_of_ofNames built
  have inRow := fun row listed => same row (mem_row_of_ofFormulas built listed)
  have walked : table.guardedAll guarded = .ok (table.rows.all verdict) := by
    rw [guardedAll_eq_allM (few_of_ofNames built) ok]
    exact allM_eq_ok fun row listed => (inRow row listed).1
  have answered : table.all test = .ok (table.rows.all verdict) := by
    rw [all_eq_allM ok]
    exact allM_eq_ok fun row listed => (inRow row listed).2
  show ExceptT.mk (Except.ok <$> table.guardedAll guarded) = Guarded.of (table.all test)
  rw [walked, answered]
  rfl

end TruthTable

/-! ## Questions about an argument -/

namespace Argument

def guardedPremise (argument : Argument) : Except Fault Formula :=
  match argument.premises with
  | [] => .error .noPremise
  | premise :: _ => .ok premise

def guardedTautology (argument : Argument) : Guarded Bool := do
  if argument.hasConclusion || argument.premises.length != 1 then
    throw (.unsupported .tautology)
  let formula ← argument.guardedPremise
  TruthTable.guardedWalk [formula] formula.guardedValue

def guardedValidity (argument : Argument) : Guarded Bool := do
  match argument.conclusion with
  | none => throw (.unsupported .validity)
  | some conclusion =>
    let refutation := .negation conclusion :: argument.premises
    TruthTable.guardedWalk refutation fun row =>
      return !(← refutation.allM (Formula.guardedValue row))

def guardedAnswer (values : Valuation) (argument : Argument) : Query → Guarded Bool
  | .tautology => argument.guardedTautology
  | .validity => argument.guardedValidity
  | .value => .of (argument.value values)

theorem guardedTautology_eq (argument : Argument) :
    argument.guardedTautology = .of argument.isTautology := by
  cases single : argument.formula? with
  | none =>
    have refused : (argument.hasConclusion || argument.premises.length != 1) = true := by
      have shape := formula?_eq_none_iff.1 single
      simpa [hasConclusion, Option.isSome_iff_ne_none] using shape
    rw [isTautology_of_formula?_none single, guardedTautology, if_pos refused]
    rfl
  | some formula =>
    rw [isTautology_of_formula?_some single]
    obtain rfl := formula?_eq_some_iff.1 single
    apply TruthTable.guardedWalk_eq
    intro row complete
    have valued := complete formula (List.mem_singleton_self _)
    exact ⟨Formula.guardedValue_eq valued, Formula.value_of_complete valued⟩

theorem guardedValidity_eq (argument : Argument) :
    argument.guardedValidity = .of argument.isValid := by
  cases concluded : argument.conclusion with
  | none =>
    rw [isValid_of_none concluded, guardedValidity, concluded]
    rfl
  | some conclusion =>
    rw [isValid_of_some concluded, guardedValidity, concluded]
    apply TruthTable.guardedWalk_eq
    intro row complete
    constructor
    · rw [allM_eq_ok fun formula mem => Formula.guardedValue_eq (complete formula mem)]
      rfl
    · rw [refutation, allM_eq_ok fun formula mem => Formula.value_of_complete (complete formula mem)]
      rfl

theorem guardedAnswer_eq (values : Valuation) (argument : Argument) (query : Query) :
    argument.guardedAnswer values query = .of (argument.answer values query) := by
  cases query with
  | tautology => exact argument.guardedTautology_eq
  | validity => exact argument.guardedValidity_eq
  | value => rfl

/-- An argument that is checked for a tautology has a first premise. -/
theorem guardedPremise_of_isTautology {argument : Argument} {answer : Bool}
    (h : argument.isTautology = .ok answer) :
    ∃ formula, argument.guardedPremise = .ok formula ∧ argument.formula? = some formula := by
  cases single : argument.formula? with
  | none =>
    rw [isTautology_of_formula?_none single] at h
    cases h
  | some formula =>
    obtain rfl := formula?_eq_some_iff.1 single
    exact ⟨formula, rfl, rfl⟩

end Argument

/-! ## Statements and lines -/

namespace Session

/-- What a statement produces in a session.  The answer about a tautology is given with the premise
that was checked. -/
def guardedOutcome (session : Session) : Statement → Guarded Outcome
  | .ask query id => do
    let argument ← session.declared id
    session.checkLimit (argument.enumerated query)
    let result ← argument.guardedAnswer session.values query
    if query = .tautology then
      let _ ← argument.guardedPremise
    return .answered query id argument result
  | statement => .of (session.outcome statement)

def guardedExecute (session : Session) (statement : Statement) :
    Except Fault (Except Failure Outcome × Session) := do
  match ← (session.guardedOutcome statement).run with
  | .ok outcome => return (.ok outcome, session.record outcome)
  | .error failure => return (.error failure, session)

def guardedPerform (session : Session) (step : Step) :
    Except Fault (Except Failure (Option Outcome) × Session) := do
  match step.statement? with
  | .error failure => return (.error failure, session)
  | .ok none => return (.ok none, session)
  | .ok (some statement) =>
    let (result, after) ← session.guardedExecute statement
    return (result.map some, after)

def guardedPerforms (session : Session) :
    List Step → Except Fault (List (Except Failure (Option Outcome) × Session))
  | [] => return []
  | step :: steps => do
    let (result, after) ← session.guardedPerform step
    return (result, after) :: (← after.guardedPerforms steps)

theorem guardedOutcome_eq (session : Session) (statement : Statement) :
    session.guardedOutcome statement = .of (session.outcome statement) := by
  cases statement with
  | ask query id =>
    apply Guarded.bind_eq_of rfl
    intro argument _
    apply Guarded.bind_eq_of rfl
    intro _ _
    apply Guarded.bind_eq_of (argument.guardedAnswer_eq session.values query)
    intro result answered
    by_cases tautology : query = .tautology
    · subst tautology
      obtain ⟨premise, first, -⟩ := Argument.guardedPremise_of_isTautology answered
      rw [if_pos rfl, first]
      rfl
    · rw [if_neg tautology]
      rfl
  | _ => rfl

theorem guardedExecute_eq (session : Session) (statement : Statement) :
    session.guardedExecute statement = .ok (session.execute statement) := by
  rw [guardedExecute, guardedOutcome_eq, execute]
  cases session.outcome statement with
  | error failure => rfl
  | ok outcome => rfl

/-- A step meets no fault, whatever the session holds. -/
theorem guardedPerform_eq (session : Session) (step : Step) :
    session.guardedPerform step = .ok (session.perform step) := by
  rw [guardedPerform, perform_eq]
  cases step.statement? with
  | error failure => rfl
  | ok said =>
    cases said with
    | none => rfl
    | some statement =>
      dsimp only
      rw [guardedExecute_eq]
      rfl

/-- Nor do steps that are taken in order. -/
theorem guardedPerforms_eq (session : Session) (steps : List Step) :
    session.guardedPerforms steps = .ok (session.performs steps) := by
  induction steps generalizing session with
  | nil => rfl
  | cons step steps ih =>
    rw [guardedPerforms, guardedPerform_eq]
    show (List.cons (session.perform step) <$> (session.perform step).2.guardedPerforms steps) = _
    rw [ih]
    rfl

/-- Whatever a session holds, a statement or line is executed without a fault, and so are any number
of them in order.  For this the rows of a table over formulas have a value for each atom of each of
them; an argument of which it is answered whether it is a tautology has a first premise; and no
table that reading rows leads to goes beyond the range of words. -/
theorem guarded_never_faults :
    (∀ (session : Session) (step : Step),
      session.guardedPerform step = .ok (session.perform step)) ∧
    (∀ (session : Session) (steps : List Step),
      session.guardedPerforms steps = .ok (session.performs steps)) ∧
    (∀ formulas table, TruthTable.ofFormulas formulas = .ok table →
      ∀ row ∈ table.walk, ∀ formula ∈ formulas,
        (∀ name ∈ formula.occurrences, name ∈ row) ∧
        ∃ value, formula.guardedValue row = .ok value) ∧
    (∀ (argument : Argument) (answer : Bool), argument.isTautology = .ok answer →
      ∃ premise, argument.guardedPremise = .ok premise ∧ argument.formula? = some premise) ∧
    ∀ names table, TruthTable.Reached names table →
      table.guardedNext? = .ok table.next? ∧ table.guardedRemaining = .ok table.remaining := by
  refine ⟨guardedPerform_eq, guardedPerforms_eq, ?_, ?_, ?_⟩
  · intro formulas table built row mem formula listed
    rw [TruthTable.walk_eq_rows (TruthTable.inRange_of_ofNames built)] at mem
    have complete := TruthTable.mem_row_of_ofFormulas built mem formula listed
    exact ⟨complete, _, Formula.guardedValue_eq complete⟩
  · intro argument answer answered
    exact Argument.guardedPremise_of_isTautology answered
  · intro names table reached
    obtain ⟨few, ok⟩ := reached.inRange
    exact ⟨TruthTable.guardedNext?_eq few ok, TruthTable.guardedRemaining_eq few ok⟩

end Session

end Entailment
