import Entailment.Proofs.Argument.Tautology
import Entailment.Proofs.Session.Steps

/-!
# Entries of a session

The six tables of a session are looked at entry by entry.  An outcome writes at most one entry.  A step
without an outcome writes none, whatever kept it from having one.

* `Session.find?_record`: what an outcome leaves behind in each slot.
* `Session.statement_of_outcome`: a statement has an outcome of its own form.

Main statement: `Session.perform_writes_one_entry`.
-/

namespace Entailment

theorem Dictionary.map_getElem?_insert {α β : Type} (form : α → β) (entries : Dictionary α)
    (name other : String) (value : α) :
    (entries.insert name value)[other]?.map form =
      (if name = other then some (form value) else none).or (entries[other]?.map form) := by
  rw [Dictionary.getElem?_insert]
  split <;> rfl

/-- The place of an entry: its table, and the name in it. -/
inductive Slot where
  | value (name : String)
  | description (name : String)
  | argument (id : String)
  | answer (query : Query) (id : String)
  deriving DecidableEq

inductive Datum where
  | truth (value : Bool)
  | text (content : String)
  | argument (argument : Argument)

namespace Outcome

/-- The statement that an outcome comes from. -/
def statement : Outcome → Statement
  | printed text => .print text
  | assigned name value => .assign name value
  | described name text => .describe name text
  | declared id argument => .declare id argument
  | answered query id _ _ => .ask query id

/-- The entry that an outcome writes, if there is one. -/
def change? : Outcome → Option (Slot × Datum)
  | printed _ => none
  | assigned name value => some (.value name, .truth value)
  | described name text => some (.description name, .text text)
  | declared id argument => some (.argument id, .argument argument)
  | answered query id _ result => some (.answer query id, .truth result)

def written? (outcome : Outcome) (slot : Slot) : Option Datum :=
  match outcome.change? with
  | some (place, datum) => if place = slot then some datum else none
  | none => none

theorem written?_eq_some_iff {outcome : Outcome} {slot : Slot} {datum : Datum} :
    outcome.written? slot = some datum ↔ outcome.change? = some (slot, datum) := by
  unfold written?
  split
  · next place written entry => simp [entry]
  · next entry => simp [entry]

end Outcome

namespace Session

def find? (session : Session) : Slot → Option Datum
  | .value name => session.values[name]?.map .truth
  | .description name => session.descriptions[name]?.map .text
  | .argument id => session.arguments[id]?.map .argument
  | .answer query id => (session.answers query)[id]?.map .truth

variable {session : Session} {statement : Statement} {outcome : Outcome}

theorem limit_record (session : Session) (outcome : Outcome) :
    (session.record outcome).limit = session.limit := by
  cases outcome with
  | answered query id argument result => cases query <;> rfl
  | _ => rfl

theorem answers_record (session : Session) (query asked : Query) (id : String)
    (argument : Argument) (result : Bool) :
    (session.record (.answered asked id argument result)).answers query =
      if asked = query then (session.answers query).insert id result
      else session.answers query := by
  cases asked <;> cases query <;> rfl

/-- An outcome leaves what it writes in the slot for it, and in the others what was there. -/
theorem find?_record (session : Session) (outcome : Outcome) (slot : Slot) :
    (session.record outcome).find? slot = (outcome.written? slot).or (session.find? slot) := by
  cases outcome with
  | printed text => rfl
  | assigned name value =>
    cases slot with
    | value other =>
      simp only [find?, record, Dictionary.map_getElem?_insert, Outcome.written?, Outcome.change?,
        Slot.value.injEq]
    | _ => rfl
  | described name text =>
    cases slot with
    | description other =>
      simp only [find?, record, Dictionary.map_getElem?_insert, Outcome.written?, Outcome.change?,
        Slot.description.injEq]
    | _ => rfl
  | declared id argument =>
    cases slot with
    | argument other =>
      simp only [find?, record, Dictionary.map_getElem?_insert, Outcome.written?, Outcome.change?,
        Slot.argument.injEq]
    | _ => rfl
  | answered asked id argument result =>
    cases slot with
    | answer query other =>
      by_cases same : asked = query
      · simp only [find?, answers_record, Dictionary.map_getElem?_insert, Outcome.written?,
          Outcome.change?, Slot.answer.injEq, same, true_and, if_true]
      · simp only [find?, answers_record, Outcome.written?, Outcome.change?, Slot.answer.injEq,
          same, false_and, if_false, Option.none_or]
    | _ => cases asked <;> rfl

theorem declared_eq_ok_iff {id : String} {argument : Argument} :
    session.declared id = .ok argument ↔ session.arguments[id]? = some argument := by
  unfold declared
  cases session.arguments[id]? <;> simp

/-- A statement that has an outcome is the one that the outcome comes from. -/
theorem statement_of_outcome (h : session.outcome statement = .ok outcome) :
    outcome.statement = statement := by
  cases statement with
  | ask query id =>
    obtain ⟨argument, result, -, -, -, rfl⟩ := outcome_ask_eq_ok_iff.1 h
    rfl
  | _ =>
    cases h
    rfl

/-- An answer is about the argument that is declared, and that an argument is a tautology is answered
only if it is a premise alone. -/
theorem argument_of_answered {query : Query} {id : String} {argument : Argument} {result : Bool}
    (h : session.outcome statement = .ok (.answered query id argument result)) :
    session.arguments[id]? = some argument ∧
      (query = .tautology → ∃ premise, argument = ⟨[premise], none⟩) := by
  obtain rfl := statement_of_outcome h
  obtain ⟨found, result, known, -, answered, same⟩ := outcome_ask_eq_ok_iff.1 h
  cases same
  refine ⟨declared_eq_ok_iff.1 known, ?_⟩
  rintro rfl
  cases single : argument.formula? with
  | none =>
    rw [Argument.answer, Argument.isTautology_of_formula?_none single] at answered
    cases answered
  | some premise => exact ⟨premise, Argument.formula?_eq_some_iff.1 single⟩

/-- The session behind an outcome is the one before it but for the entry that the outcome writes. -/
structure Writes (session : Session) (outcome : Outcome) (after : Session) : Prop where
  limit : after.limit = session.limit
  written : ∀ place datum, outcome.change? = some (place, datum) → after.find? place = some datum
  others : ∀ slot, (∀ datum, outcome.change? ≠ some (slot, datum)) →
    after.find? slot = session.find? slot

theorem writes_record (session : Session) (outcome : Outcome) :
    session.Writes outcome (session.record outcome) where
  limit := limit_record session outcome
  written place datum entry := by
    rw [find?_record, Outcome.written?_eq_some_iff.2 entry, Option.some_or]
  others slot unwritten := by
    have nothing : outcome.written? slot = none :=
      Option.eq_none_iff_forall_ne_some.2 fun datum written =>
        unwritten datum (Outcome.written?_eq_some_iff.1 written)
    rw [find?_record, nothing, Option.none_or]

/-- A step that fails, and a line on which there is nothing to execute, leave the session as it was.
Any other step has the outcome of its statement.  In one slot at most the session behind it differs
from the one before, and there it holds what the outcome says.  An answer comes with the argument
that is declared under its name before and after the step. -/
theorem perform_writes_one_entry (session : Session) (step : Step) :
    match session.perform step with
    | (.error _, after) => after = session
    | (.ok none, after) => step.statement? = .ok none ∧ after = session
    | (.ok (some outcome), after) =>
      step.statement? = .ok (some outcome.statement) ∧
      session.Writes outcome after ∧
      ∀ query id argument result, outcome = .answered query id argument result →
        session.arguments[id]? = some argument ∧ after.arguments[id]? = some argument ∧
        (query = .tautology → ∃ premise, argument = ⟨[premise], none⟩) := by
  rw [perform_eq]
  cases said : step.statement? with
  | error failure => rfl
  | ok found =>
    cases found with
    | none => exact ⟨rfl, rfl⟩
    | some statement =>
      dsimp only
      unfold execute
      cases produced : session.outcome statement with
      | error failure => rfl
      | ok outcome =>
        refine ⟨?_, writes_record session outcome, ?_⟩
        · rw [statement_of_outcome produced]
        · rintro query id argument result rfl
          obtain ⟨stored, single⟩ := argument_of_answered produced
          have kept : (session.record (.answered query id argument result)).arguments =
              session.arguments := by
            cases query <;> rfl
          exact ⟨stored, kept ▸ stored, single⟩

end Session

end Entailment
