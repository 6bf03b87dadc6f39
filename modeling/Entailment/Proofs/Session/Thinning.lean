import Entailment.Proofs.Session.Entries

/-!
# Leaving steps out of a run

What comes of a step is decided by the limit of a session, its values and its arguments, and of a
question about all assignments by the limit and the arguments alone.  Steps that change none of these
can be left out of a run, and the others say what they said before.

* `Session.outcome_congr`: what the outcome of a statement depends on.
* `Session.values_execute`, `Session.arguments_execute`: what a statement does to values and arguments.
* `Session.transcript_related`: two runs, of which one leaves steps out, stay related.

Main statement: `Session.transcript_of_thinned`.
-/

namespace Entailment

/-- Showing, describing and asking change neither values nor arguments. -/
def Statement.Aside : Statement → Prop
  | print _ | describe _ _ | ask _ _ => True
  | assign _ _ | declare _ _ => False

/-- The step asks for a value, the only thing that is answered under the current values. -/
def Step.AsksValue (step : Step) : Prop :=
  ∃ id, step.statement? = .ok (some (.ask .value id))

/-- A step that was taken, with what came of it. -/
@[ext]
structure Event where
  step : Step
  result : Except Failure (Option Outcome)

namespace Event

/-- There was nothing to execute, as in blank lines and comments, or only an aside, or it failed. -/
def Idle (event : Event) : Prop :=
  event.step.statement? = .ok none ∨
  (∃ statement, event.step.statement? = .ok (some statement) ∧ statement.Aside) ∨
  ∃ failure, event.result = .error failure

def Assigns (event : Event) : Prop :=
  ∃ name value, event.step.statement? = .ok (some (.assign name value))

end Event

/-- The second list of events is the first without some of those that may be dropped. -/
inductive Thinned (Dropped : Event → Prop) : List Event → List Event → Prop where
  | nil : Thinned Dropped [] []
  | keep (event : Event) {events kept : List Event} :
      Thinned Dropped events kept → Thinned Dropped (event :: events) (event :: kept)
  | drop {event : Event} {events kept : List Event} :
      Dropped event → Thinned Dropped events kept → Thinned Dropped (event :: events) kept

namespace Session

/-- The events of a run that goes on where a step fails. -/
def transcript (session : Session) : List Step → List Event
  | [] => []
  | step :: steps =>
    ⟨step, (session.perform step).1⟩ :: (session.perform step).2.transcript steps

def after (session : Session) (steps : List Step) : Session :=
  steps.foldl (fun session step => (session.perform step).2) session

/-! ## What a statement depends on and what it changes -/

/-- Two sessions have the same limit and the same arguments. -/
structure SameArguments (first second : Session) : Prop where
  limit : first.limit = second.limit
  arguments : first.arguments = second.arguments

/-- Two sessions have the same limit, the same arguments and the same values. -/
structure Alike (first second : Session) : Prop extends SameArguments first second where
  values : first.values = second.values

variable {session first second third : Session} {statement : Statement}

theorem outcome_congr (same : first.SameArguments second)
    (values : first.values = second.values ∨ ∀ id, statement ≠ .ask .value id) :
    first.outcome statement = second.outcome statement := by
  cases statement with
  | ask query id =>
    have declared : first.declared id = second.declared id := by
      rw [Session.declared, Session.declared, same.arguments]
    have limited (formulas : List Formula) :
        first.checkLimit formulas = second.checkLimit formulas := by
      rw [checkLimit, checkLimit, same.limit]
    have answers (argument : Argument) :
        argument.answer first.values query = argument.answer second.values query := by
      rcases values with agree | other
      · rw [agree]
      · cases query with
        | value => exact absurd rfl (other id)
        | _ => rfl
    simp only [outcome, declared, limited, answers]
  | _ => rfl

theorem execute_fst (session : Session) (statement : Statement) :
    (session.execute statement).1 = session.outcome statement := by
  unfold execute
  cases session.outcome statement <;> rfl

/-- A statement that was executed has failed, which only a question can, or its outcome is
recorded. -/
theorem execute_cases (session : Session) (statement : Statement) :
    (∃ query id, statement = .ask query id ∧ (session.execute statement).2 = session) ∨
      ∃ outcome, outcome.statement = statement ∧
        (session.execute statement).2 = session.record outcome := by
  unfold execute
  cases produced : session.outcome statement with
  | error failure =>
    cases statement with
    | ask query id => exact .inl ⟨query, id, rfl, rfl⟩
    | _ => cases produced
  | ok outcome => exact .inr ⟨outcome, statement_of_outcome produced, rfl⟩

theorem limit_execute (session : Session) (statement : Statement) :
    (session.execute statement).2.limit = session.limit := by
  rcases execute_cases session statement with ⟨query, id, -, same⟩ | ⟨outcome, -, recorded⟩
  · rw [same]
  · rw [recorded, limit_record]

theorem values_execute (session : Session) (statement : Statement) :
    (session.execute statement).2.values =
      match statement with
      | .assign name value => session.values.insert name value
      | _ => session.values := by
  rcases execute_cases session statement with ⟨query, id, rfl, same⟩ | ⟨outcome, rfl, recorded⟩
  · rw [same]
  · rw [recorded]
    cases outcome with
    | answered query id argument result => cases query <;> rfl
    | _ => rfl

theorem arguments_execute (session : Session) (statement : Statement) :
    (session.execute statement).2.arguments =
      match statement with
      | .declare id argument => session.arguments.insert id argument
      | _ => session.arguments := by
  rcases execute_cases session statement with ⟨query, id, rfl, same⟩ | ⟨outcome, rfl, recorded⟩
  · rw [same]
  · rw [recorded]
    cases outcome with
    | answered query id argument result => cases query <;> rfl
    | _ => rfl

theorem SameArguments.execute (same : first.SameArguments second) (statement : Statement) :
    (first.execute statement).2.SameArguments (second.execute statement).2 where
  limit := by rw [limit_execute, limit_execute, same.limit]
  arguments := by rw [arguments_execute, arguments_execute, same.arguments]

theorem Alike.execute (same : first.Alike second) (statement : Statement) :
    (first.execute statement).2.Alike (second.execute statement).2 where
  toSameArguments := same.toSameArguments.execute statement
  values := by rw [values_execute, values_execute, same.values]

theorem Alike.refl (session : Session) : session.Alike session := ⟨⟨rfl, rfl⟩, rfl⟩

theorem SameArguments.trans (one : first.SameArguments second)
    (other : second.SameArguments third) : first.SameArguments third :=
  ⟨one.limit.trans other.limit, one.arguments.trans other.arguments⟩

theorem Alike.trans (one : first.Alike second) (other : second.Alike third) : first.Alike third :=
  ⟨one.toSameArguments.trans other.toSameArguments, one.values.trans other.values⟩

theorem alike_of_aside (session : Session) (aside : statement.Aside) :
    (session.execute statement).2.Alike session := by
  refine ⟨⟨limit_execute session statement, ?_⟩, ?_⟩
  · rw [arguments_execute]
    cases statement <;> first | rfl | cases aside
  · rw [values_execute]
    cases statement <;> first | rfl | cases aside

/-! ## What a step depends on and what it changes -/

/-- What every statement preserves between two sessions, every step does. -/
theorem perform_related {Related : Session → Session → Prop} (start : Related first second)
    (execute : ∀ statement, Related (first.execute statement).2 (second.execute statement).2)
    (step : Step) : Related (first.perform step).2 (second.perform step).2 := by
  rw [perform_eq, perform_eq]
  cases step.statement? with
  | error failure => exact start
  | ok said =>
    cases said with
    | none => exact start
    | some statement => exact execute statement

theorem perform_fst_congr {step : Step}
    (same : ∀ statement, step.statement? = .ok (some statement) →
      first.outcome statement = second.outcome statement) :
    (first.perform step).1 = (second.perform step).1 := by
  rw [perform_eq, perform_eq]
  cases said : step.statement? with
  | error failure => rfl
  | ok found =>
    cases found with
    | none => rfl
    | some statement =>
      dsimp only
      rw [execute_fst, execute_fst, same statement said]

theorem alike_of_idle (session : Session) {step : Step}
    (idle : Event.Idle ⟨step, (session.perform step).1⟩) :
    (session.perform step).2.Alike session := by
  unfold Event.Idle at idle
  rw [perform_eq] at idle ⊢
  cases said : step.statement? with
  | error failure => exact .refl session
  | ok found =>
    cases found with
    | none => exact .refl session
    | some statement =>
      simp only [said] at idle ⊢
      rcases idle with nothing | ⟨other, same, aside⟩ | ⟨failure, failed⟩
      · cases nothing
      · cases same
        exact alike_of_aside session aside
      · cases result : (session.execute statement).1 with
        | error cause =>
          have unchanged : (session.execute statement).2 = session :=
            execute_error (Prod.ext result rfl)
          rw [unchanged]
          exact .refl session
        | ok outcome =>
          rw [result] at failed
          cases failed

/-! ## Two runs -/

/-- What relates two sessions, before and behind a step that both take and before and behind one that
only the first takes, relates them throughout a run of which the second leaves steps out. -/
theorem transcript_related
    (Agree : Step → Except Failure (Option Outcome) → Except Failure (Option Outcome) → Prop)
    (Related : Session → Session → Prop) (Dropped : Event → Prop)
    (taken : ∀ first second step, Related first second →
      Agree step (first.perform step).1 (second.perform step).1 ∧
        Related (first.perform step).2 (second.perform step).2)
    (leftOut : ∀ first second step, Related first second →
      Dropped ⟨step, (first.perform step).1⟩ → Related (first.perform step).2 second)
    {first second : Session} (start : Related first second) {steps : List Step} {kept : List Event}
    (thinned : Thinned Dropped (first.transcript steps) kept) :
    List.Forall₂ (fun was is => was.step = is.step ∧ Agree was.step was.result is.result)
        kept (second.transcript (kept.map Event.step)) ∧
      Related (first.after steps) (second.after (kept.map Event.step)) := by
  induction steps generalizing first second kept with
  | nil =>
    cases thinned
    exact ⟨.nil, start⟩
  | cons step steps ih =>
    cases thinned with
    | keep _ rest =>
      obtain ⟨agree, related⟩ := taken first second step start
      obtain ⟨behind, last⟩ := ih related rest
      exact ⟨.cons ⟨rfl, agree⟩ behind, last⟩
    | drop dropped rest => exact ih (leftOut first second step start dropped) rest

theorem alike_of_thinned {steps : List Step} {kept : List Event}
    (thinned : Thinned Event.Idle (session.transcript steps) kept) :
    session.transcript (kept.map Event.step) = kept ∧
      (session.after steps).Alike (session.after (kept.map Event.step)) := by
  obtain ⟨agree, alike⟩ := transcript_related (fun _ was is => was = is) Alike Event.Idle
    (fun first second step same =>
      ⟨perform_fst_congr fun _ _ => outcome_congr same.toSameArguments (.inl same.values),
        perform_related same same.execute step⟩)
    (fun first second step same idle => (alike_of_idle first idle).trans same)
    (.refl session) thinned
  have equal : List.Forall₂ Eq kept (session.transcript (kept.map Event.step)) :=
    agree.imp fun _ _ both => Event.ext both.1 both.2
  rw [List.forall₂_eq_eq_eq] at equal
  exact ⟨equal.symm, alike⟩

theorem sameArguments_of_assigns (session : Session) {step : Step}
    (assigns : Event.Assigns ⟨step, (session.perform step).1⟩) :
    (session.perform step).2.SameArguments session := by
  obtain ⟨name, value, said⟩ := assigns
  rw [perform_eq, said]
  exact ⟨limit_execute session _, arguments_execute session _⟩

/-- Steps that are asides, that fail, or on which there is nothing to execute can be left out of a run,
in any number.  The others say what they said, and values and arguments are the same in the end.  Steps
that give values can be left out too, and then the others say what they said except where they ask for
a value. -/
theorem transcript_of_thinned (session : Session) (steps : List Step) (kept : List Event) :
    (Thinned Event.Idle (session.transcript steps) kept →
      session.transcript (kept.map Event.step) = kept ∧
      (session.after (kept.map Event.step)).values = (session.after steps).values ∧
      (session.after (kept.map Event.step)).arguments = (session.after steps).arguments) ∧
    (Thinned (fun event => event.Idle ∨ event.Assigns) (session.transcript steps) kept →
      List.Forall₂
        (fun was is => was.step = is.step ∧ (¬ was.step.AsksValue → was.result = is.result))
        kept (session.transcript (kept.map Event.step))) := by
  constructor
  · intro thinned
    obtain ⟨same, alike⟩ := alike_of_thinned thinned
    exact ⟨same, alike.values.symm, alike.arguments.symm⟩
  · intro thinned
    have runs := transcript_related (fun step was is => ¬ step.AsksValue → was = is) SameArguments
      (fun event => event.Idle ∨ event.Assigns) ?_ ?_ (Alike.refl session).toSameArguments thinned
    · exact runs.1
    · intro first second step same
      refine ⟨fun other => perform_fst_congr fun statement said => ?_,
        perform_related same same.execute step⟩
      refine outcome_congr same (.inr ?_)
      rintro id rfl
      exact other ⟨id, said⟩
    · rintro first second step same (idle | assigns)
      · exact (alike_of_idle first idle).toSameArguments.trans same
      · exact (sameArguments_of_assigns first assigns).trans same

end Session

end Entailment
